import LambdaTyping.Method.Candidates
import Mathlib.Data.List.Permutation
import Mathlib.Tactic.Lemma

/-!
# Candidates of an interface

What the candidates of an interface are, said without the walk that finds them. `leftOpen` lists the
abstract methods that are left to be implemented, `Represents` says how some candidates stand for
them: one for each signature, in the order of the first method of that signature, and the method
with the most specific return type where there is one.

The walk takes the methods one by one. `Collapsed` is what holds of the candidates after each
(`Collapsed.addCandidate`), so it holds at the end of the walk (`collapsed_of_gives`).
-/

namespace LambdaTyping

namespace Signature

/-- What methods of the same signature agree on. -/
def key (t : ClassTable) (m : Signature) : String × List Ty :=
  (m.name, m.erasedParams t)

/-- Two methods have one signature if their keys are equal. -/
lemma sameAs_iff {t : ClassTable} {m n : Signature} : m.sameAs t n = true ↔ m.key t = n.key t := by
  simp only [sameAs, key, Bool.and_eq_true, decide_eq_true_eq, Prod.mk.injEq]
  constructor
  · rintro ⟨⟨name, _⟩, erased⟩
    exact ⟨name, erased⟩
  · rintro ⟨name, erased⟩
    have length := congrArg List.length erased
    simp only [erasedParams, List.length_map] at length
    exact ⟨⟨name, length⟩, erased⟩

end Signature

namespace ClassTable

variable {t : ClassTable}

/-- A class stands properly below another: the other is among the classes above it. -/
def ProperlyBelow (t : ClassTable) (sub sup : ClassId) : Prop :=
  sub ≠ sup ∧ ∃ c ∈ t.classClosure ⟨sub, []⟩, c.head = sup

/-- Of the members `ms` of an interface, an abstract one is left to be implemented: no object has it
already, and nothing declared further down overrides it. -/
structure LeftOpen (t : ClassTable) (ms : List Member) (m : Member) : Prop where
  isAbstract : m.kind = .abstract
  notOfObject : ∀ d, t.class? t.wellKnown.object = some d → ∀ o ∈ d.methods, o.kind ≠ .static →
    ¬(Signature.ofMethod t.wellKnown.object o .empty).sameAs t m.signature
  notOverridden : ∀ n ∈ ms, n.kind ≠ .static → n.signature.sameAs t m.signature →
    ¬t.ProperlyBelow n.signature.owner m.signature.owner

/-- The test for a class below another one is right. -/
lemma isBelow_iff {sub sup : ClassId} : t.isBelow sub sup = true ↔ t.ProperlyBelow sub sup := by
  simp [isBelow, ProperlyBelow]

/-- A signature is one of those of `Object` if a method of `Object` that is not static has it. -/
lemma objectMethods_any_iff {m : Signature} :
    (t.objectMethods.any fun o => o.sameAs t m) = true ↔
      ∃ d, t.class? t.wellKnown.object = some d ∧ ∃ o ∈ d.methods, o.kind ≠ .static ∧
        (Signature.ofMethod t.wellKnown.object o .empty).sameAs t m := by
  unfold objectMethods
  split
  · rename_i undeclared
    simp [undeclared]
  · rename_i d declared
    simp [declared, MethodDecl.isStatic]

/-- The test for members that are left open is right. -/
lemma isOpen_iff {ms : List Member} {m : Member} : t.isOpen ms m = true ↔ t.LeftOpen ms m := by
  have object := objectMethods_any_iff (t := t) (m := m.signature)
  simp only [isOpen, overridden, Bool.and_eq_true, decide_eq_true_eq, Bool.not_eq_true',
    ← Bool.not_eq_true, object, List.any_eq_true, isBelow_iff]
  constructor
  · rintro ⟨⟨isAbstract, notOfObject⟩, notOverridden⟩
    refine ⟨isAbstract, fun d hd o ho dynamic same => ?_, fun n hn dynamic same below => ?_⟩
    · exact notOfObject ⟨d, hd, o, ho, dynamic, same⟩
    · exact notOverridden ⟨n, hn, ⟨dynamic, same⟩, below⟩
  · rintro ⟨isAbstract, notOfObject, notOverridden⟩
    refine ⟨⟨isAbstract, ?_⟩, ?_⟩
    · rintro ⟨d, hd, o, ho, dynamic, same⟩
      exact notOfObject d hd o ho dynamic same
    · rintro ⟨n, hn, ⟨dynamic, same⟩, below⟩
      exact notOverridden n hn dynamic same below

instance (ms : List Member) : DecidablePred (t.LeftOpen ms) := fun _ =>
  decidable_of_iff _ isOpen_iff

/-- The abstract methods of an interface that are left to be implemented, in the order of the
closure. -/
def leftOpen (t : ClassTable) (c : ClassId) (d : ClassDecl) : List Signature :=
  ((t.members c d).filter fun m => t.LeftOpen (t.members c d) m).map Member.signature

/-- The open methods found are those left open. -/
lemma openMethods_eq (c : ClassId) (d : ClassDecl) : t.openMethods c d = t.leftOpen c d := by
  refine congrArg _ (List.filter_congr fun m _ => ?_)
  rw [Bool.eq_iff_iff, isOpen_iff, decide_eq_true_iff]

/-- The return type of a method is strictly more specific than those of all others that have its
signature. -/
def MostSpecific (t : ClassTable) (ms : List Signature) (m : Signature) : Prop :=
  ∀ n ∈ ms, n ≠ m → n.sameAs t m →
    (t.subtype m.returnType n.returnType).Gives true ∧
      (t.subtype n.returnType m.returnType).Gives false

/-- The candidates `cs` stand for the methods `ms`. -/
structure Represents (t : ClassTable) (ms cs : List Signature) : Prop where
  distinct : cs.Pairwise fun a b => ¬a.sameAs t b
  members : ∀ k ∈ cs, k ∈ ms
  unique : ∀ m ∈ ms, ∃! k, k ∈ cs ∧ m.sameAs t k
  /-- The candidates come in the order of the first methods that have their signatures. -/
  ordered : cs.Pairwise fun a b =>
    (ms.findIdx fun m => m.sameAs t a) < ms.findIdx fun m => m.sameAs t b
  specific : ∀ m ∈ ms, t.MostSpecific ms m → m ∈ cs

/-- The candidates that a walk over some methods collects. -/
def collapse (t : ClassTable) (ms : List Signature) : Query (List Signature) :=
  ms.foldlM (fun cs m => t.addCandidate m cs) []

/-- The walk over some methods compares the return type of `a` with that of `b`, which is a
candidate of the same signature when the walk comes to `a`. -/
def Compares (t : ClassTable) (ms : List Signature) (a b : Signature) : Prop :=
  ∃ before after cs, ms = before ++ a :: after ∧ (t.collapse before).Gives cs ∧ b ∈ cs ∧
    b.sameAs t a

/-- The walk over one method more adds that method to the candidates before. -/
lemma gives_collapse_append {ms : List Signature} {m : Signature} {r : List Signature} :
    (t.collapse (ms ++ [m])).Gives r ↔
      ∃ cs, (t.collapse ms).Gives cs ∧ (t.addCandidate m cs).Gives r := by
  suffices h : ∀ cs, ((ms ++ [m]).foldlM (fun cs m => t.addCandidate m cs) cs).Gives r ↔
      ∃ ds, (ms.foldlM (fun cs m => t.addCandidate m cs) cs).Gives ds ∧
        (t.addCandidate m ds).Gives r from h []
  induction ms with
  | nil => simp [Query.gives_bind_iff]
  | cons n ms ih =>
    intro cs
    simp only [List.cons_append, List.foldlM_cons, Query.gives_bind_iff, ih]
    grind

/-- What a method does that comes to some candidates: it is put last if none has its signature, and
else takes the place of one if its return type is strictly more specific. -/
lemma addCandidate_cases {m : Signature} {cs r : List Signature}
    (h : (t.addCandidate m cs).Gives r) :
    (m.key t ∉ cs.map (Signature.key t) ∧ r = cs ++ [m]) ∨
      ∃ before k after better, cs = before ++ k :: after ∧ k.key t = m.key t ∧
        (t.strictSubtype m.returnType k.returnType).Gives better ∧
        r = before ++ (if better then m else k) :: after := by
  induction cs generalizing r with
  | nil =>
    obtain rfl := Query.gives_pure_iff.1 h
    exact .inl ⟨List.not_mem_nil, rfl⟩
  | cons c cs ih =>
    rw [addCandidate] at h
    split at h
    · rename_i same
      obtain ⟨better, hb, h⟩ := Query.gives_bind_iff.1 h
      refine .inr ⟨[], c, cs, better, rfl, Signature.sameAs_iff.1 same, hb, ?_⟩
      cases better with
      | false => exact (Query.gives_pure_iff.1 h).symm
      | true => exact (Query.gives_pure_iff.1 h).symm
    · rename_i other
      obtain ⟨r, hr, h⟩ := Query.gives_bind_iff.1 h
      obtain rfl := Query.gives_pure_iff.1 h
      have other : m.key t ≠ c.key t := fun e => other (Signature.sameAs_iff.2 e.symm)
      rcases ih hr with ⟨fresh, rfl⟩ | ⟨before, k, after, better, rfl, same, hb, rfl⟩
      · refine .inl ⟨?_, rfl⟩
        rw [List.map_cons, List.mem_cons, not_or]
        exact ⟨other, fresh⟩
      · exact .inr ⟨c :: before, k, after, better, rfl, same, hb, rfl⟩

/-- Adding a method brings in no other. -/
lemma mem_of_addCandidate {m k : Signature} {cs r : List Signature}
    (h : (t.addCandidate m cs).Gives r) (hk : k ∈ r) : k = m ∨ k ∈ cs := by
  rcases addCandidate_cases h with ⟨-, rfl⟩ | ⟨before, c, after, better, rfl, -, -, rfl⟩
  · rcases List.mem_append.1 hk with hk | hk
    · exact .inr hk
    · exact .inl (List.mem_singleton.1 hk)
  · cases better with
    | false => exact .inr hk
    | true =>
      simp only [if_true, List.mem_append, List.mem_cons] at hk ⊢
      tauto

/-- A method finds its place among some candidates if its return type compares with those of the
candidates that have its signature. -/
lemma addCandidate_ends {m : Signature} {cs : List Signature}
    (h : ∀ k ∈ cs, k.sameAs t m → (t.strictSubtype m.returnType k.returnType).Ends) :
    (t.addCandidate m cs).Ends := by
  induction cs with
  | nil => exact ⟨_, Query.gives_pure_iff.2 rfl⟩
  | cons c cs ih =>
    rw [addCandidate]
    split
    · rename_i same
      obtain ⟨better, hb⟩ := h c List.mem_cons_self same
      cases better with
      | false => exact ⟨_, Query.gives_bind_iff.2 ⟨_, hb, Query.gives_pure_iff.2 rfl⟩⟩
      | true => exact ⟨_, Query.gives_bind_iff.2 ⟨_, hb, Query.gives_pure_iff.2 rfl⟩⟩
    · obtain ⟨r, hr⟩ := ih fun k hk => h k (List.mem_cons_of_mem _ hk)
      exact ⟨_, Query.gives_bind_iff.2 ⟨r, hr, Query.gives_pure_iff.2 rfl⟩⟩

/-- What holds of the candidates `cs` after the walk has come past the methods `ms`. -/
structure Collapsed (t : ClassTable) (ms cs : List Signature) : Prop where
  ordered : (cs.map (Signature.key t)).Pairwise fun a b =>
    (ms.map (Signature.key t)).idxOf a < (ms.map (Signature.key t)).idxOf b
  members : ∀ k ∈ cs, k ∈ ms
  covered : ∀ m ∈ ms, m.key t ∈ cs.map (Signature.key t)
  specific : ∀ m ∈ ms, t.MostSpecific ms m → m ∈ cs

/-- A strict subtype question is answered by two subtype questions, the second only if needed. -/
lemma gives_strictSubtype_iff {a b : Ty} {r : Bool} :
    (t.strictSubtype a b).Gives r ↔
      (t.subtype a b).Gives false ∧ r = false ∨
        (t.subtype a b).Gives true ∧ (t.subtype b a).Gives !r := by
  simp only [strictSubtype, Query.gives_bind_iff]
  constructor
  · rintro ⟨below, hb, h⟩
    cases below with
    | false => exact .inl ⟨hb, (Query.gives_pure_iff.1 h).symm⟩
    | true =>
      obtain ⟨above, ha, h⟩ := Query.gives_bind_iff.1 h
      obtain rfl := Query.gives_pure_iff.1 h
      exact .inr ⟨hb, by simpa using ha⟩
  · rintro (⟨hb, rfl⟩ | ⟨hb, ha⟩)
    · exact ⟨false, hb, Query.gives_pure_iff.2 rfl⟩
    · exact ⟨true, hb, Query.gives_bind_iff.2 ⟨_, ha, by simp⟩⟩

/-- The most specific method takes the place of others with its signature. -/
lemma MostSpecific.gives_true {ms : List Signature} {m n : Signature} (best : t.MostSpecific ms m)
    (hn : n ∈ ms) (ne : n ≠ m) (same : n.key t = m.key t) :
    (t.strictSubtype m.returnType n.returnType).Gives true := by
  obtain ⟨below, notAbove⟩ := best n hn ne (Signature.sameAs_iff.2 same)
  exact gives_strictSubtype_iff.2 (.inr ⟨below, notAbove⟩)

/-- No other method takes the place of the most specific one. -/
lemma MostSpecific.gives_false {ms : List Signature} {m n : Signature} (best : t.MostSpecific ms m)
    (hn : n ∈ ms) (ne : n ≠ m) (same : n.key t = m.key t) :
    (t.strictSubtype n.returnType m.returnType).Gives false := by
  obtain ⟨_, notAbove⟩ := best n hn ne (Signature.sameAs_iff.2 same)
  exact gives_strictSubtype_iff.2 (.inl ⟨notAbove, rfl⟩)

/-- A method that is most specific among some methods is so among the first of them. -/
lemma MostSpecific.of_append {ms ns : List Signature} {m : Signature}
    (h : t.MostSpecific (ms ++ ns) m) : t.MostSpecific ms m :=
  fun n hn => h n (List.mem_append_left _ hn)

/-- The places of the first methods of signatures that have been met stay. -/
lemma pairwise_idxOf_append {κ : Type} [BEq κ] [LawfulBEq κ] {ks ms : List κ} (ns : List κ)
    (mem : ∀ k ∈ ks, k ∈ ms) (h : ks.Pairwise fun a b => ms.idxOf a < ms.idxOf b) :
    ks.Pairwise fun a b => (ms ++ ns).idxOf a < (ms ++ ns).idxOf b := by
  refine h.imp_of_mem fun ha hb lt => ?_
  rwa [List.idxOf_append_of_mem (mem _ ha), List.idxOf_append_of_mem (mem _ hb)]

/-- What holds of the candidates before the walk takes a method holds after it. -/
lemma Collapsed.addCandidate {ms cs r : List Signature} {m : Signature} (h : t.Collapsed ms cs)
    (step : (t.addCandidate m cs).Gives r) : t.Collapsed (ms ++ [m]) r := by
  have met : ∀ k ∈ cs.map (Signature.key t), k ∈ ms.map (Signature.key t) := by
    intro k hk
    obtain ⟨c, hc, rfl⟩ := List.mem_map.1 hk
    exact List.mem_map_of_mem (h.members c hc)
  have places := pairwise_idxOf_append [m.key t] met h.ordered
  rcases addCandidate_cases step with ⟨fresh, rfl⟩ | ⟨before, k, after, better, rfl, same, hb, rfl⟩
  · have unmet : m.key t ∉ ms.map (Signature.key t) := by
      intro hm
      obtain ⟨n, hn, e⟩ := List.mem_map.1 hm
      exact fresh (e ▸ h.covered n hn)
    constructor
    · rw [List.map_append, List.map_append, List.pairwise_append]
      refine ⟨places, List.pairwise_singleton _ _, fun a ha b hb => ?_⟩
      obtain rfl := List.mem_singleton.1 hb
      rw [List.idxOf_append_of_mem (met a ha), List.idxOf_append_of_notMem unmet]
      exact Nat.lt_add_right _ (List.idxOf_lt_length_of_mem (met a ha))
    · intro c hc
      rcases List.mem_append.1 hc with hc | hc
      · exact List.mem_append_left _ (h.members c hc)
      · exact List.mem_append_right _ hc
    · intro n hn
      rw [List.map_append]
      rcases List.mem_append.1 hn with hn | hn
      · exact List.mem_append_left _ (h.covered n hn)
      · exact List.mem_append_right _ (List.mem_map_of_mem hn)
    · intro n hn best
      rcases List.mem_append.1 hn with hn | hn
      · exact List.mem_append_left _ (h.specific n hn best.of_append)
      · exact List.mem_append_right _ hn
  · have hk : k ∈ before ++ k :: after := List.mem_append_right _ List.mem_cons_self
    have keys : (before ++ (if better then m else k) :: after).map (Signature.key t) =
        (before ++ k :: after).map (Signature.key t) := by
      cases better with
      | false => rfl
      | true => simp [same]
    constructor
    · rw [keys, List.map_append]
      exact places
    · intro c hc
      have hc : c = (if better then m else k) ∨ c ∈ before ++ k :: after := by
        rw [List.mem_append, List.mem_cons] at hc ⊢
        tauto
      rcases hc with rfl | hc
      · cases better with
        | false => exact List.mem_append_left _ (h.members k hk)
        | true => exact List.mem_append_right _ (List.mem_singleton_self m)
      · exact List.mem_append_left _ (h.members c hc)
    · intro n hn
      rw [keys]
      rcases List.mem_append.1 hn with hn | hn
      · exact h.covered n hn
      · obtain rfl := List.mem_singleton.1 hn
        rw [← same]
        exact List.mem_map_of_mem hk
    · intro n hn best
      -- The most specific method keeps its place and takes that of any other.
      have stays : n = k → n ∈ before ++ (if better then m else k) :: after := by
        rintro rfl
        by_cases e : m = n
        · simp [e]
        · have loses := best.gives_false (List.mem_append_right _ (List.mem_singleton_self m)) e
            same.symm
          obtain rfl := hb.unique loses
          simp
      rcases List.mem_append.1 hn with hn | hn
      · have found := h.specific n hn best.of_append
        by_cases e : n = k
        · exact stays e
        · rw [List.mem_append, List.mem_cons] at found ⊢
          tauto
      · obtain rfl := List.mem_singleton.1 hn
        by_cases e : n = k
        · exact stays e
        · have wins := best.gives_true (List.mem_append_left _ (h.members k hk)) (Ne.symm e) same
          obtain rfl := hb.unique wins
          simp

/-- What holds of the candidates at the end of a walk. -/
lemma collapsed_of_gives {ms cs : List Signature} (h : (t.collapse ms).Gives cs) :
    t.Collapsed ms cs := by
  induction ms using List.reverseRecOn generalizing cs with
  | nil =>
    obtain rfl := Query.gives_pure_iff.1 h
    exact ⟨.nil, by simp, by simp, by simp⟩
  | append_singleton ms m ih =>
    obtain ⟨before, hbefore, step⟩ := gives_collapse_append.1 h
    exact (ih hbefore).addCandidate step

/-- A walk comes to its end if all comparisons that it makes do. -/
lemma collapse_ends {ms : List Signature}
    (h : ∀ a b, t.Compares ms a b → (t.strictSubtype a.returnType b.returnType).Ends) :
    (t.collapse ms).Ends := by
  induction ms using List.reverseRecOn with
  | nil => exact ⟨[], Query.gives_pure_iff.2 rfl⟩
  | append_singleton ms m ih =>
    have earlier : (t.collapse ms).Ends := by
      refine ih fun a b => ?_
      rintro ⟨before, after, cs, rfl, hcs, mem, same⟩
      exact h a b ⟨before, after ++ [m], cs, by simp, hcs, mem, same⟩
    obtain ⟨cs, hcs⟩ := earlier
    obtain ⟨r, hr⟩ := addCandidate_ends fun k hk same => h m k ⟨ms, [], cs, rfl, hcs, hk, same⟩
    exact ⟨r, gives_collapse_append.2 ⟨cs, hcs, hr⟩⟩

/-- The methods that a walk compares are among those it takes. -/
lemma Compares.mem {ms : List Signature} {a b : Signature} (h : t.Compares ms a b) :
    a ∈ ms ∧ b ∈ ms := by
  obtain ⟨before, after, cs, rfl, hcs, hb, _⟩ := h
  have earlier := (collapsed_of_gives hcs).members b hb
  exact ⟨List.mem_append_right _ List.mem_cons_self, List.mem_append_left _ earlier⟩

/-- The place of the first method with a signature is that of its key. -/
lemma findIdx_sameAs_eq (ms : List Signature) (a : Signature) :
    (ms.findIdx fun m => m.sameAs t a) = (ms.map (Signature.key t)).idxOf (a.key t) := by
  rw [List.idxOf, List.findIdx_map]
  congr 1
  funext m
  rw [Bool.eq_iff_iff, Signature.sameAs_iff]
  simp

/-- No two candidates have one signature. -/
lemma Collapsed.nodup {ms cs : List Signature} (h : t.Collapsed ms cs) :
    (cs.map (Signature.key t)).Nodup := by
  refine List.Pairwise.imp (fun lt => ?_) h.ordered
  rintro rfl
  exact Nat.lt_irrefl _ lt

/-- The candidates that a walk collects stand for the methods that it takes. -/
lemma Collapsed.represents {ms cs : List Signature} (h : t.Collapsed ms cs) :
    t.Represents ms cs := by
  have nodup := h.nodup
  have distinct : cs.Pairwise fun a b => ¬a.sameAs t b := by
    refine (List.pairwise_map.1 nodup).imp fun ne same => ?_
    exact ne (Signature.sameAs_iff.1 same)
  have ordered : cs.Pairwise fun a b =>
      (ms.findIdx fun m => m.sameAs t a) < ms.findIdx fun m => m.sameAs t b := by
    refine (List.pairwise_map.1 h.ordered).imp fun lt => ?_
    rwa [findIdx_sameAs_eq, findIdx_sameAs_eq]
  refine ⟨distinct, h.members, fun m hm => ?_, ordered, h.specific⟩
  obtain ⟨k, hk, e⟩ := List.mem_map.1 (h.covered m hm)
  refine ⟨k, ⟨hk, Signature.sameAs_iff.2 e.symm⟩, fun l ⟨hl, same⟩ => ?_⟩
  exact List.inj_on_of_nodup_map nodup hl hk ((Signature.sameAs_iff.1 same).symm.trans e.symm)

/-- A member is a declared method of a class in the closure, at the type arguments found there. -/
lemma exists_of_mem_members {c : ClassId} {d : ClassDecl} {m : Member} (h : m ∈ t.members c d) :
    ∃ e ∈ t.classClosure ⟨c, d.typeParams.map .var⟩, ∃ o, t.class? e.head = some o ∧
      ∃ decl ∈ o.methods,
        m = ⟨.ofMethod e.head decl (t.instantiate o e.args), decl.kind⟩ := by
  obtain ⟨e, he, hm⟩ := List.mem_flatMap.1 h
  refine ⟨e, he, ?_⟩
  unfold membersOf at hm
  split at hm
  · cases hm
  · split at hm
    · cases hm
    · rename_i o ho
      obtain ⟨decl, hdecl, rfl⟩ := List.mem_map.1 hm
      exact ⟨o, ho, decl, hdecl, rfl⟩

/-- No member of an interface is owned by `Object`. -/
lemma owner_ne_object {c : ClassId} {d : ClassDecl} {m : Member} (hm : m ∈ t.members c d) :
    m.signature.owner ≠ t.wellKnown.object := by
  obtain ⟨e, -, hm⟩ := List.mem_flatMap.1 hm
  unfold membersOf at hm
  split at hm
  · cases hm
  · rename_i other
    split at hm
    · cases hm
    · obtain ⟨decl, -, rfl⟩ := List.mem_map.1 hm
      exact other

/-- What the candidates of an interface stand for is what is left open. -/
lemma represents_of_gives {c : ClassId} {d : ClassDecl} {cs : List Signature}
    (hd : t.class? c = some d) (h : (t.candidates c).Gives (some cs)) :
    t.Represents (t.leftOpen c d) cs := by
  simp only [candidates, hd] at h
  split at h
  · obtain ⟨found, hfound, h⟩ := Query.gives_bind_iff.1 h
    cases Query.gives_pure_iff.1 h
    rw [openMethods_eq] at hfound
    exact (collapsed_of_gives hfound).represents
  · cases Query.gives_pure_iff.1 h

/-- Candidates are methods that are left open. -/
lemma mem_leftOpen_of_candidate {c : ClassId} {d : ClassDecl} {cs : List Signature} {k : Signature}
    (hd : t.class? c = some d) (h : (t.candidates c).Gives (some cs)) (hk : k ∈ cs) :
    k ∈ t.leftOpen c d :=
  (represents_of_gives hd h).members k hk

/-- The candidates of a class: none unless the table has it as an interface, and then, if the return
types that are compared can be, some that stand for the abstract methods left to be implemented. -/
theorem candidates_represent (t : ClassTable) (c : ClassId)
    (ends : ∀ d, t.class? c = some d → d.kind = .interface →
      ∀ a b, t.Compares (t.leftOpen c d) a b → (t.strictSubtype a.returnType b.returnType).Ends) :
    ((t.candidates c).Gives none ↔ ∀ d, t.class? c = some d → d.kind ≠ .interface) ∧
      ∀ d, t.class? c = some d → d.kind = .interface →
        ∃ cs, (t.candidates c).Gives (some cs) ∧ t.Represents (t.leftOpen c d) cs := by
  have interface (d : ClassDecl) (hd : t.class? c = some d) (hk : d.kind = .interface) :
      ∃ cs, (t.candidates c).Gives (some cs) ∧ t.Represents (t.leftOpen c d) cs := by
    obtain ⟨cs, hcs⟩ := collapse_ends (ends d hd hk)
    refine ⟨cs, ?_, (collapsed_of_gives hcs).represents⟩
    have isInterface : d.isInterface = true := by simp [ClassDecl.isInterface, hk]
    simp only [candidates, hd, isInterface, if_true, openMethods_eq]
    exact Query.gives_bind_iff.2 ⟨cs, hcs, Query.gives_pure_iff.2 rfl⟩
  refine ⟨⟨fun none d hd hk => ?_, fun other => ?_⟩, interface⟩
  · obtain ⟨cs, hcs, _⟩ := interface d hd hk
    cases none.unique hcs
  · unfold candidates
    split
    · exact Query.gives_pure_iff.2 rfl
    · rename_i d hd
      rw [if_neg (by simpa [ClassDecl.isInterface] using other d hd)]
      exact Query.gives_pure_iff.2 rfl

/-- The classes `Object` and `String` and the interfaces `A { Object get(); }`,
`B { String get(); }` and `C extends A, B { }`, in this order. -/
def siblings : ClassTable where
  classes := #[
    ⟨"java.lang.Object", .cls, [], none, [], []⟩,
    ⟨"java.lang.String", .cls, [], some (.cls ⟨0⟩ []), [], []⟩,
    ⟨"A", .interface, [], none, [], [⟨"get", [], [], .cls ⟨0⟩ [], .abstract⟩]⟩,
    ⟨"B", .interface, [], none, [], [⟨"get", [], [], .cls ⟨1⟩ [], .abstract⟩]⟩,
    ⟨"C", .interface, [], none, [.cls ⟨2⟩ [], .cls ⟨3⟩ []], []⟩]
  params := #[]
  index := ∅
  wellKnown := ⟨⟨0⟩, ⟨1⟩, ⟨0⟩, ⟨0⟩, ⟨0⟩, ⟨0⟩⟩

/-- Of the two methods of the siblings that are left open, the candidate is the one that returns
`String`. -/
theorem candidates_represent_siblings :
    (∀ d, siblings.class? ⟨4⟩ = some d → d.kind = .interface →
      ∀ a b, siblings.Compares (siblings.leftOpen ⟨4⟩ d) a b →
        (siblings.strictSubtype a.returnType b.returnType).Ends) ∧
      ∃ d, siblings.class? ⟨4⟩ = some d ∧
        siblings.leftOpen ⟨4⟩ d =
          [⟨⟨2⟩, "get", [], [], .cls ⟨0⟩ []⟩, ⟨⟨3⟩, "get", [], [], .cls ⟨1⟩ []⟩] ∧
        ∃ cs, (siblings.candidates ⟨4⟩).Gives (some cs) ∧
          siblings.Represents (siblings.leftOpen ⟨4⟩ d) cs := by
  have declared : siblings.class? ⟨4⟩ =
      some ⟨"C", .interface, [], none, [.cls ⟨2⟩ [], .cls ⟨3⟩ []], []⟩ := rfl
  have methods : siblings.leftOpen ⟨4⟩ ⟨"C", .interface, [], none, [.cls ⟨2⟩ [], .cls ⟨3⟩ []], []⟩ =
      [⟨⟨2⟩, "get", [], [], .cls ⟨0⟩ []⟩, ⟨⟨3⟩, "get", [], [], .cls ⟨1⟩ []⟩] := by
    rw [← openMethods_eq]
    cbv
  have ends (d : ClassDecl) (hd : siblings.class? ⟨4⟩ = some d) (_ : d.kind = .interface)
      (a b : Signature) (h : siblings.Compares (siblings.leftOpen ⟨4⟩ d) a b) :
      (siblings.strictSubtype a.returnType b.returnType).Ends := by
    cases declared.symm.trans hd
    have mem := h.mem
    simp only [methods, List.mem_cons, List.not_mem_nil, or_false] at mem
    obtain ⟨rfl | rfl, rfl | rfl⟩ := mem
    · exact ⟨false, 2, [], by cbv⟩
    · exact ⟨false, 2, [], by cbv⟩
    · exact ⟨true, 2, [], by cbv⟩
    · exact ⟨false, 2, [], by cbv⟩
  exact ⟨ends, _, declared, methods,
    (candidates_represent siblings ⟨4⟩ ends).2 _ declared rfl⟩

end ClassTable

end LambdaTyping
