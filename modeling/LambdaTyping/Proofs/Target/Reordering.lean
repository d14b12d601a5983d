import LambdaTyping.Proofs.Table.Reordering
import LambdaTyping.Target.Resolution
import Mathlib

/-!
# Functional interfaces under reordering

Whether an interface can be the target of a lambda depends on the order in which interfaces are
listed in one respect only. The walk meets the same methods in any order, so it leaves as many
candidates; but where all methods share a signature, the first of several equally specific ones
stands for the others, and it may or may not be generic (`verdict_of_reordered`).
-/

namespace LambdaTyping

/-- Whether a class can be the target of a lambda, or why not. -/
def verdict (r : Except TargetError Signature) : Except TargetError Unit :=
  r.map fun _ => ()

namespace ClassTable

section Survivors

variable {t : ClassTable}

/-- The return type of one method is strictly more specific than that of the other. -/
def Outdoes (t : ClassTable) (a b : Signature) : Prop :=
  (t.subtype a.returnType b.returnType).Gives true ∧
    (t.subtype b.returnType a.returnType).Gives false

/-- Of the methods, some that are all generic, or all not, outdo all others. -/
def Settles (t : ClassTable) (ms : List Signature) (generic : Bool) : Prop :=
  ∃ best ⊆ ms, best ≠ [] ∧ (∀ a ∈ best, a.isGeneric = generic) ∧
    ∀ a ∈ best, ∀ b ∈ ms, b ∉ best → t.Outdoes a b

/-- A method that outdoes another is found more specific than it. -/
lemma Outdoes.gives_true {a b : Signature} (h : t.Outdoes a b) :
    (t.strictSubtype a.returnType b.returnType).Gives true :=
  gives_strictSubtype_iff.2 (.inr h)

/-- A method that is outdone is found not more specific. -/
lemma Outdoes.gives_false {a b : Signature} (h : t.Outdoes a b) :
    (t.strictSubtype b.returnType a.returnType).Gives false :=
  gives_strictSubtype_iff.2 (.inl ⟨h.2, rfl⟩)

/-- A walk that comes past one of some methods that outdo all others keeps one of them for the
signature. -/
lemma mem_of_outdoes {best ms cs : List Signature}
    (outdo : ∀ a ∈ ms, ∀ b ∈ ms, a ∈ best → b ∉ best → t.Outdoes a b)
    (h : (t.collapse ms).Gives cs) {a k : Signature} (hk : k ∈ cs) (ha : a ∈ ms)
    (among : a ∈ best) (same : a.key t = k.key t) : k ∈ best := by
  induction ms using List.reverseRecOn generalizing cs a k with
  | nil => cases ha
  | append_singleton ms m ih =>
    obtain ⟨ds, hds, step⟩ := gives_collapse_append.1 h
    have earlier {b l : Signature} (hl : l ∈ ds) (hb : b ∈ ms) (among : b ∈ best)
        (same : b.key t = l.key t) : l ∈ best := by
      refine ih (fun a ha b hb => ?_) hds hl hb among same
      exact outdo a (List.mem_append_left _ ha) b (List.mem_append_left _ hb)
    have before := collapsed_of_gives hds
    have after := before.addCandidate step
    have hm : m ∈ ms ++ [m] := List.mem_append_right _ (List.mem_singleton_self m)
    rw [List.mem_append, List.mem_singleton] at ha
    by_cases sign : k.key t = m.key t
    · -- Now `k` is the candidate that stands for `m`: itself, or one that it does not outdo.
      rcases addCandidate_cases step with ⟨fresh, rfl⟩ | ⟨front, l, back, better, rfl, e, hb, rfl⟩
      · obtain rfl : k = m := List.inj_on_of_nodup_map after.nodup hk
          (List.mem_append_right _ (List.mem_singleton_self m)) sign
        rcases ha with ha | rfl
        · exact absurd (same ▸ before.covered a ha) fresh
        · exact among
      · have hl : l ∈ front ++ l :: back := List.mem_append_right _ List.mem_cons_self
        have met (ha : a ∈ ms) : l ∈ best := earlier hl ha among (same.trans (sign.trans e.symm))
        have chosen : k = if better then m else l := by
          refine List.inj_on_of_nodup_map after.nodup hk
            (List.mem_append_right _ List.mem_cons_self) ?_
          cases better with
          | false => exact sign.trans e.symm
          | true => exact sign
        by_contra notBest
        cases better with
        | false =>
          obtain rfl : k = l := chosen
          obtain rfl : a = m := ha.resolve_left fun ha => notBest (met ha)
          have wins := outdo a hm k (List.mem_append_left _ (before.members k hl)) among notBest
          cases hb.unique wins.gives_true
        | true =>
          obtain rfl : k = m := chosen
          have ha : a ∈ ms := ha.resolve_right fun e => notBest (e ▸ among)
          have loses := outdo l (List.mem_append_left _ (before.members l hl)) k hm (met ha) notBest
          cases hb.unique loses.gives_false
    · have ha : a ∈ ms := ha.resolve_right fun e => sign (e ▸ same.symm)
      have kept := (mem_of_addCandidate step hk).resolve_left fun e => sign (congrArg _ e)
      exact earlier kept ha among same

/-- The functional method of an interface is the single candidate of its open methods. -/
lemma gives_functionalMethod_iff {c : ClassId} {d : ClassDecl} (hd : t.class? c = some d)
    (interface : d.kind = .interface) {r : Except TargetError Signature} :
    (t.functionalMethod c).Gives r ↔
      ∃ cs, (t.collapse (t.leftOpen c d)).Gives cs ∧ r = singleCandidate (some cs) := by
  have declared : t.declares c = true := by rw [declares, hd, Option.isSome_some]
  have isInterface : d.isInterface = true := decide_eq_true interface
  simp only [functionalMethod, declared, if_true, candidates, hd, isInterface, openMethods_eq]
  constructor
  · intro h
    obtain ⟨found, hfound, h⟩ := Query.gives_bind_iff.1 h
    obtain ⟨cs, hcs, e⟩ := Query.gives_bind_iff.1 hfound
    obtain rfl := Query.gives_pure_iff.1 e
    exact ⟨cs, hcs, (Query.gives_pure_iff.1 h).symm⟩
  · rintro ⟨cs, hcs, rfl⟩
    refine Query.gives_bind_iff.2 ⟨some cs, ?_, Query.gives_pure_iff.2 rfl⟩
    exact Query.gives_bind_iff.2 ⟨cs, hcs, Query.gives_pure_iff.2 rfl⟩

/-- The verdict on the methods left open: none, of several signatures, or of one signature, where
one of them decides by its kind, which is the kind that settles the matter if one does. -/
inductive Judged (t : ClassTable) (ms : List Signature) : Except TargetError Unit → Prop where
  | noMethod : ms = [] → Judged t ms (.error .noMethod)
  | ambiguous {a b : Signature} : a ∈ ms → b ∈ ms → a.key t ≠ b.key t →
      Judged t ms (.error (.ambiguous none))
  | single (generic : Bool) : ms ≠ [] → (∀ a ∈ ms, ∀ b ∈ ms, a.key t = b.key t) →
      (∀ kind, t.Settles ms kind → generic = kind) →
        Judged t ms (if generic then .error .genericMethod else .ok ())

/-- The candidates that a walk collects decide as the methods do. -/
lemma judged_of_collapse {ms cs : List Signature} (h : (t.collapse ms).Gives cs) :
    t.Judged ms (verdict (singleCandidate (some cs))) := by
  have collapsed := collapsed_of_gives h
  match cs with
  | [] =>
    refine .noMethod (List.eq_nil_iff_forall_not_mem.2 fun m hm => ?_)
    cases collapsed.covered m hm
  | [k] =>
    have sign (a : Signature) (ha : a ∈ ms) : a.key t = k.key t :=
      List.mem_singleton.1 (collapsed.covered a ha)
    have kind : verdict (singleCandidate (some [k])) =
        if k.isGeneric then .error .genericMethod else .ok () := by
      rw [singleCandidate]
      split
      · rfl
      · rfl
    rw [kind]
    have met := collapsed.members k (List.mem_singleton_self k)
    refine .single k.isGeneric (List.ne_nil_of_mem met) (fun a ha b hb => ?_) ?_
    · rw [sign a ha, sign b hb]
    · -- The candidate is one of those that outdo all others, so it is of their kind.
      rintro kind ⟨best, sub, some, kinds, outdo⟩
      obtain ⟨a, among⟩ := List.exists_mem_of_ne_nil best some
      have ha := sub among
      refine kinds k (mem_of_outdoes (fun a _ b hb ha => outdo a ha b hb) h
        (List.mem_singleton_self k) ha among (sign a ha))
  | a :: b :: rest =>
    have distinct : a.key t ≠ b.key t := by
      have nodup := collapsed.nodup
      rw [List.map_cons, List.nodup_cons] at nodup
      exact fun e => nodup.1 (e ▸ List.mem_map_of_mem List.mem_cons_self)
    refine .ambiguous (collapsed.members a ?_) (collapsed.members b ?_) distinct
    · exact List.mem_cons_self
    · exact List.mem_cons_of_mem _ List.mem_cons_self

end Survivors

namespace Reordered

variable {t t' : ClassTable} (h : t.Reordered t')

include h

/-- Methods have the same key in both tables. -/
lemma key (m : Signature) : m.key t' = m.key t := by
  have erased : m.erasedParams t' = m.erasedParams t := List.map_congr_left fun ty _ => h.erasure ty
  rw [Signature.key, Signature.key, erased]

/-- Methods have one signature in both tables or in none. -/
lemma sameAs (a b : Signature) : a.sameAs t' b = a.sameAs t b := by
  rw [Bool.eq_iff_iff, Signature.sameAs_iff, Signature.sameAs_iff, h.key, h.key]

/-- A class type has the same members of its own in both tables. -/
lemma membersOf (c : ClassTy) : t'.membersOf c = t.membersOf c := by
  unfold ClassTable.membersOf
  rw [h.wellKnown]
  split
  · rfl
  · cases hd : t.class? c.head with
    | none => rw [h.class?_eq_none hd]
    | some d =>
      obtain ⟨d', hd', same⟩ := h.class?_eq_some hd
      simp only [hd', same.methods, h.instantiate same]

/-- A class has the same methods in both tables. -/
lemma mem_members_iff (single : t.SingleInstantiation) {c : ClassId} {d d' : ClassDecl}
    (hd : t.class? c = some d) (same : d.Reordered d') (m : Member) :
    m ∈ t'.members c d' ↔ m ∈ t.members c d := by
  have once := single c d hd
  have closure (e : ClassTy) : e ∈ t'.closure (selfType c d') ↔ e ∈ t.closure (selfType c d) := by
    show e ∈ t'.classClosure ⟨c, d'.typeParams.map .var⟩ ↔
      e ∈ t.classClosure ⟨c, d.typeParams.map .var⟩
    rw [same.typeParams, mem_classClosure_iff once, mem_classClosure_iff (h.inheritsOnce once),
      h.reaches_iff]
  simp only [members, List.mem_flatMap, closure, h.membersOf]

/-- A member that is left open in one table is left open in the other. -/
lemma leftOpen_of_leftOpen
    (isClass : ∀ d ∈ t.classes, ∀ s ∈ d.supertypes, s.asClass?.isSome = true)
    {ms ms' : List Member} (mem : ∀ m, m ∈ ms' ↔ m ∈ ms) {m : Member}
    (open' : t'.LeftOpen ms' m) : t.LeftOpen ms m where
  isAbstract := open'.isAbstract
  notOfObject d hd o ho dynamic := by
    obtain ⟨d', hd', same⟩ := h.class?_eq_some hd
    have none := open'.notOfObject d' (h.wellKnown ▸ hd') o (same.methods ▸ ho) dynamic
    rwa [h.sameAs, h.wellKnown] at none
  notOverridden n hn dynamic same below := by
    have same : n.signature.sameAs t' m.signature = true := by rwa [h.sameAs]
    exact open'.notOverridden n ((mem n).2 hn) dynamic same ((h.properlyBelow_iff isClass).2 below)

/-- In both tables the same methods are left to be implemented. -/
lemma mem_leftOpen_iff
    (isClass : ∀ d ∈ t.classes, ∀ s ∈ d.supertypes, s.asClass?.isSome = true)
    (single : t.SingleInstantiation) {c : ClassId} {d d' : ClassDecl} (hd : t.class? c = some d)
    (same : d.Reordered d') (m : Signature) : m ∈ t'.leftOpen c d' ↔ m ∈ t.leftOpen c d := by
  have mem := h.mem_members_iff single hd same
  have isOpen (m : Member) :
      t'.LeftOpen (t'.members c d') m ↔ t.LeftOpen (t.members c d) m :=
    ⟨h.leftOpen_of_leftOpen isClass mem,
      h.symm.leftOpen_of_leftOpen (h.isClass isClass) fun m => (mem m).symm⟩
  simp only [leftOpen, List.mem_map, List.mem_filter, mem, isOpen]

/-- Verdicts on the same methods are the same, or else they are those on a generic and another
method of one signature, of which neither kind settles the matter in both tables. -/
lemma judged_eq_or {ms ms' : List Signature} (mem : ∀ m, m ∈ ms' ↔ m ∈ ms)
    {v v' : Except TargetError Unit} (hv : t.Judged ms v) (hv' : t'.Judged ms' v') :
    v = v' ∨ (∀ a ∈ ms, ∀ b ∈ ms, a.sameAs t b = true) ∧
      (∀ kind, ¬(t.Settles ms kind ∧ t'.Settles ms' kind)) ∧
        ∀ u ∈ [v, v'], u = .ok () ∨ u = .error .genericMethod := by
  have empty : ms' = [] ↔ ms = [] := by
    simp only [List.eq_nil_iff_forall_not_mem, mem]
  cases hv with
  | noMethod none =>
    cases hv' with
    | noMethod => exact .inl rfl
    | ambiguous ha => exact absurd (empty.2 none ▸ ha) List.not_mem_nil
    | single _ some => exact absurd (empty.2 none) some
  | ambiguous ha hb ne =>
    cases hv' with
    | noMethod none => exact absurd (empty.1 none ▸ ha) List.not_mem_nil
    | ambiguous => exact .inl rfl
    | single _ _ sign =>
      have same := sign _ ((mem _).2 ha) _ ((mem _).2 hb)
      rw [h.key, h.key] at same
      exact absurd same ne
  | single generic some sign settled =>
    cases hv' with
    | noMethod none => exact absurd (empty.1 none) some
    | ambiguous ha hb ne =>
      have same := sign _ ((mem _).1 ha) _ ((mem _).1 hb)
      rw [← h.key, ← h.key] at same
      exact absurd same ne
    | single generic' _ _ settled' =>
      -- In both tables all methods have one signature. If the verdicts differ, the deciding methods
      -- are of different kinds, so no kind settles the matter in both.
      by_cases e : generic = generic'
      · exact .inl (by rw [e])
      · refine .inr ⟨fun a ha b hb => Signature.sameAs_iff.2 (sign a ha b hb), ?_, ?_⟩
        · rintro kind ⟨hs, hs'⟩
          exact e ((settled kind hs).trans (settled' kind hs').symm)
        · intro u hu
          rw [List.mem_cons, List.mem_singleton] at hu
          rcases hu with rfl | rfl
          · cases generic <;> simp
          · cases generic' <;> simp

end Reordered

variable {t t' : ClassTable}

/-- A class that is not declared has no functional method, since it is missing. -/
lemma functionalMethod_of_undeclared {c : ClassId} (hc : t.class? c = none) :
    (t.functionalMethod c).Gives (.error (.missingClass c)) := by
  have undeclared : t.declares c = false := by rw [declares, hc, Option.isSome_none]
  simp only [functionalMethod, undeclared]
  exact Query.gives_bind_iff.2 ⟨(), Query.gives_report_iff.2 trivial, Query.gives_pure_iff.2 rfl⟩

/-- A class that is no interface has no functional method. -/
lemma functionalMethod_of_not_interface {c : ClassId} {d : ClassDecl} (hd : t.class? c = some d)
    (other : d.kind ≠ .interface) : (t.functionalMethod c).Gives (.error .notInterface) := by
  have declared : t.declares c = true := by rw [declares, hd, Option.isSome_some]
  have isInterface : d.isInterface = false := decide_eq_false other
  simp only [functionalMethod, declared, if_true, candidates, hd, isInterface]
  exact Query.gives_bind_iff.2 ⟨none, Query.gives_pure_iff.2 rfl, Query.gives_pure_iff.2 rfl⟩

/-- An interface is judged if the return types that are compared can be. -/
lemma exists_judged {c : ClassId} {d : ClassDecl} (hd : t.class? c = some d)
    (interface : d.kind = .interface)
    (ends : ∀ a b, t.Compares (t.leftOpen c d) a b →
      (t.strictSubtype a.returnType b.returnType).Ends) :
    ∃ r, (t.functionalMethod c).Gives r ∧ t.Judged (t.leftOpen c d) (verdict r) := by
  obtain ⟨cs, hcs⟩ := collapse_ends ends
  exact ⟨_, (gives_functionalMethod_iff hd interface).2 ⟨cs, hcs, rfl⟩, judged_of_collapse hcs⟩

/-- Whether a class can be the target of a lambda does not depend on the order in which interfaces
are listed, but for the kind of the one method left where neither kind settles the matter. -/
theorem verdict_of_reordered (ws : t.WellScoped) (single : t.SingleInstantiation)
    (h : t.Reordered t') (c : ClassId)
    (ends : ∀ d, t.class? c = some d → d.kind = .interface →
      ∀ a b, t.Compares (t.leftOpen c d) a b → (t.strictSubtype a.returnType b.returnType).Ends)
    (ends' : ∀ d, t'.class? c = some d → d.kind = .interface →
      ∀ a b, t'.Compares (t'.leftOpen c d) a b →
        (t'.strictSubtype a.returnType b.returnType).Ends) :
    ∃ r r', (t.functionalMethod c).Gives r ∧ (t'.functionalMethod c).Gives r' ∧
      (verdict r = verdict r' ∨
        ∃ d d', t.class? c = some d ∧ t'.class? c = some d' ∧
          (∀ a ∈ t.leftOpen c d, ∀ b ∈ t.leftOpen c d, a.sameAs t b = true) ∧
          (∀ generic, ¬(t.Settles (t.leftOpen c d) generic ∧
            t'.Settles (t'.leftOpen c d') generic)) ∧
          ∀ v ∈ [verdict r, verdict r'], v = .ok () ∨ v = .error .genericMethod) := by
  cases hd : t.class? c with
  | none =>
    have undeclared := functionalMethod_of_undeclared (h.class?_eq_none hd)
    exact ⟨_, _, functionalMethod_of_undeclared hd, undeclared, .inl rfl⟩
  | some d =>
    obtain ⟨d', hd', same⟩ := h.class?_eq_some hd
    by_cases interface : d.kind = .interface
    · have interface' : d'.kind = .interface := same.kind.trans interface
      obtain ⟨r, hr, judged⟩ := exists_judged hd interface (ends d hd interface)
      obtain ⟨r', hr', judged'⟩ := exists_judged hd' interface' (ends' d' hd' interface')
      refine ⟨r, r', hr, hr', ?_⟩
      rcases h.judged_eq_or (h.mem_leftOpen_iff ws.isClass single hd same) judged judged' with
        equal | tie
      · exact .inl equal
      · exact .inr ⟨d, d', rfl, hd', tie⟩
    · have other : d'.kind ≠ .interface := fun e => interface (same.kind.symm.trans e)
      exact ⟨_, _, functionalMethod_of_not_interface hd interface,
        functionalMethod_of_not_interface hd' other, .inl rfl⟩

/-- The classes `Object` and `String` and the interfaces `A { <T> a get(); }`, `B { b get(); }` and
`C`, which extends some of them. -/
def overloads (a b : Ty) (interfaces : List Ty) : ClassTable where
  classes := #[
    ⟨"java.lang.Object", .cls, [], none, [], []⟩,
    ⟨"java.lang.String", .cls, [], some (.cls ⟨0⟩ []), [], []⟩,
    ⟨"A", .interface, [], none, [], [⟨"get", [⟨0⟩], [], a, .abstract⟩]⟩,
    ⟨"B", .interface, [], none, [], [⟨"get", [], [], b, .abstract⟩]⟩,
    ⟨"C", .interface, [], none, interfaces, []⟩]
  params := #[⟨"T", [], none⟩]
  index := ∅
  wellKnown := ⟨⟨0⟩, ⟨1⟩, ⟨0⟩, ⟨0⟩, ⟨0⟩, ⟨0⟩⟩

/-- The overloads in different orders of interfaces are reordered tables. -/
lemma reordered_overloads (a b : Ty) {is is' : List Ty} (perm : is'.Perm is) :
    (overloads a b is).Reordered (overloads a b is') where
  classes c := by
    match c with
    | ⟨0⟩ | ⟨1⟩ | ⟨2⟩ | ⟨3⟩ => exact .some ⟨.refl _, rfl⟩
    | ⟨4⟩ => exact .some ⟨perm, rfl⟩
    | ⟨n + 5⟩ => exact .none
  params := rfl
  index := rfl
  wellKnown := rfl

/-- A method of `A` that returns an `Object`, of `B` that returns a `String`. -/
def covariant (interfaces : List Ty) : ClassTable :=
  overloads (.cls ⟨0⟩ []) (.cls ⟨1⟩ []) interfaces

/-- Comparisons of the covariant methods end. -/
lemma covariant_ends (interfaces : List Ty) {a b : Signature}
    (ha : a ∈ [⟨⟨2⟩, "get", [], [⟨0⟩], .cls ⟨0⟩ []⟩, ⟨⟨3⟩, "get", [], [], .cls ⟨1⟩ []⟩])
    (hb : b ∈ [⟨⟨2⟩, "get", [], [⟨0⟩], .cls ⟨0⟩ []⟩, ⟨⟨3⟩, "get", [], [], .cls ⟨1⟩ []⟩]) :
    ((covariant interfaces).strictSubtype a.returnType b.returnType).Ends := by
  simp only [List.mem_cons, List.not_mem_nil, or_false] at ha hb
  rcases ha with rfl | rfl
  · rcases hb with rfl | rfl
    · exact ⟨false, 2, [], by cbv⟩
    · exact ⟨false, 2, [], by cbv⟩
  · rcases hb with rfl | rfl
    · exact ⟨true, 2, [], by cbv⟩
    · exact ⟨false, 2, [], by cbv⟩

/-- The method of `B` settles the matter, wherever it stands. -/
lemma covariant_settles (interfaces : List Ty) {ms : List Signature}
    (hms : ∀ m, m ∈ ms ↔
      m ∈ [⟨⟨2⟩, "get", [], [⟨0⟩], .cls ⟨0⟩ []⟩, ⟨⟨3⟩, "get", [], [], .cls ⟨1⟩ []⟩]) :
    (covariant interfaces).Settles ms false := by
  refine ⟨[⟨⟨3⟩, "get", [], [], .cls ⟨1⟩ []⟩], ?_, List.cons_ne_nil _ _, by decide, ?_⟩
  · intro m hm
    exact (hms m).2 (List.mem_cons_of_mem _ hm)
  · intro a ha b hb other
    obtain rfl := List.mem_singleton.1 ha
    rcases List.mem_cons.1 ((hms b).1 hb) with rfl | same
    · exact ⟨⟨2, [], by cbv⟩, ⟨2, [], by cbv⟩⟩
    · exact absurd same other

/-- The covariant methods get the same verdict in both orders of interfaces. -/
theorem verdict_of_reordered_covariant :
    (covariant [.cls ⟨2⟩ [], .cls ⟨3⟩ []]).WellScoped ∧
      (covariant [.cls ⟨2⟩ [], .cls ⟨3⟩ []]).SingleInstantiation ∧
      (covariant [.cls ⟨2⟩ [], .cls ⟨3⟩ []]).Reordered (covariant [.cls ⟨3⟩ [], .cls ⟨2⟩ []]) ∧
      ∃ r r', ((covariant [.cls ⟨2⟩ [], .cls ⟨3⟩ []]).functionalMethod ⟨4⟩).Gives r ∧
        ((covariant [.cls ⟨3⟩ [], .cls ⟨2⟩ []]).functionalMethod ⟨4⟩).Gives r' ∧
          verdict r = verdict r' := by
  have ws : (covariant [.cls ⟨2⟩ [], .cls ⟨3⟩ []]).WellScoped := by decide +kernel
  have single : (covariant [.cls ⟨2⟩ [], .cls ⟨3⟩ []]).SingleInstantiation :=
    singleInstantiation_of_walksClosed (by cbv)
  have reordered : (covariant [.cls ⟨2⟩ [], .cls ⟨3⟩ []]).Reordered
      (covariant [.cls ⟨3⟩ [], .cls ⟨2⟩ []]) :=
    reordered_overloads _ _ (.swap _ _ _)
  have declared (interfaces : List Ty) : (covariant interfaces).class? ⟨4⟩ =
      some ⟨"C", .interface, [], none, interfaces, []⟩ := rfl
  have methods : (covariant [.cls ⟨2⟩ [], .cls ⟨3⟩ []]).leftOpen ⟨4⟩
      ⟨"C", .interface, [], none, [.cls ⟨2⟩ [], .cls ⟨3⟩ []], []⟩ =
        [⟨⟨2⟩, "get", [], [⟨0⟩], .cls ⟨0⟩ []⟩, ⟨⟨3⟩, "get", [], [], .cls ⟨1⟩ []⟩] := by
    rw [← openMethods_eq]
    cbv
  have methods' : (covariant [.cls ⟨3⟩ [], .cls ⟨2⟩ []]).leftOpen ⟨4⟩
      ⟨"C", .interface, [], none, [.cls ⟨3⟩ [], .cls ⟨2⟩ []], []⟩ =
        [⟨⟨3⟩, "get", [], [], .cls ⟨1⟩ []⟩, ⟨⟨2⟩, "get", [], [⟨0⟩], .cls ⟨0⟩ []⟩] := by
    rw [← openMethods_eq]
    cbv
  have perm (m : Signature) :
      m ∈ [⟨⟨3⟩, "get", [], [], .cls ⟨1⟩ []⟩, ⟨⟨2⟩, "get", [], [⟨0⟩], .cls ⟨0⟩ []⟩] ↔
        m ∈ [⟨⟨2⟩, "get", [], [⟨0⟩], .cls ⟨0⟩ []⟩, ⟨⟨3⟩, "get", [], [], .cls ⟨1⟩ []⟩] :=
    (List.Perm.swap _ _ _).mem_iff
  refine ⟨ws, single, reordered, ?_⟩
  obtain ⟨r, r', hr, hr', equal | ⟨d, d', hd, hd', _, tie, _⟩⟩ :=
    verdict_of_reordered ws single reordered ⟨4⟩
      (fun d hd _ a b compared => by
        cases (declared _).symm.trans hd
        have mem := compared.mem
        rw [methods] at mem
        exact covariant_ends _ mem.1 mem.2)
      (fun d hd _ a b compared => by
        cases (declared _).symm.trans hd
        have mem := compared.mem
        rw [methods', perm, perm] at mem
        exact covariant_ends _ mem.1 mem.2)
  · exact ⟨r, r', hr, hr', equal⟩
  · cases (declared _).symm.trans hd
    cases (declared _).symm.trans hd'
    rw [methods, methods'] at tie
    exact absurd ⟨covariant_settles _ fun _ => Iff.rfl, covariant_settles _ perm⟩ (tie false)

/-- Where the methods of `A` and `B` both return nothing, the interface listed first decides whether
`C` can be a target. -/
theorem verdict_depends_on_order :
    (overloads .void .void [.cls ⟨2⟩ [], .cls ⟨3⟩ []]).WellScoped ∧
      (overloads .void .void [.cls ⟨2⟩ [], .cls ⟨3⟩ []]).Acyclic ∧
      (overloads .void .void [.cls ⟨2⟩ [], .cls ⟨3⟩ []]).SingleInstantiation ∧
      (overloads .void .void [.cls ⟨2⟩ [], .cls ⟨3⟩ []]).Reordered
        (overloads .void .void [.cls ⟨3⟩ [], .cls ⟨2⟩ []]) ∧
      ((overloads .void .void [.cls ⟨2⟩ [], .cls ⟨3⟩ []]).functionalMethod ⟨4⟩).Gives
        (.error .genericMethod) ∧
      ((overloads .void .void [.cls ⟨3⟩ [], .cls ⟨2⟩ []]).functionalMethod ⟨4⟩).Gives
        (.ok ⟨⟨3⟩, "get", [], [], .void⟩) := by
  have ws : (overloads .void .void [.cls ⟨2⟩ [], .cls ⟨3⟩ []]).WellScoped := by decide +kernel
  refine ⟨ws, acyclic_of_rank ws.isClass ClassId.raw (by decide +kernel),
    singleInstantiation_of_walksClosed (by cbv), reordered_overloads _ _ (.swap _ _ _), ?_, ?_⟩
  · exact ⟨3, [], by cbv⟩
  · exact ⟨3, [], by cbv⟩

end ClassTable

end LambdaTyping
