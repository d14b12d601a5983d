import LambdaTyping.Proofs.Hierarchy.Closure
import LambdaTyping.Proofs.Method.Candidates
import Mathlib.Logic.Relation

/-!
# What stands above a class type

`DirectlyAbove` says what stands directly above a class type, one rule for each way it comes there,
and `Reaches` follows the declared supertypes step by step. The walk of `closureFrom` finds nothing
that is not reached (`exists_reaches`), and a class type for each class that is
(`head_mem_closureFrom`). Where no class is inherited twice, in different instantiations, the walk
finds exactly what is reached (`mem_classClosure_iff`). What is reached from a substituted class
type is substituted (`reaches_rebuild`).
-/

namespace LambdaTyping.ClassTable

variable {t : ClassTable}

/-- What stands directly above a class type: a declared supertype at the type arguments, the class
of one above a raw use, and `Object` above an interface. -/
inductive DirectlyAbove (t : ClassTable) (c : ClassTy) : ClassTy → Prop
  | declared {d : ClassDecl} {s : Ty} {e : ClassTy} : t.class? c.head = some d →
      d.isRawUse c.args = false → s ∈ d.supertypes → (t.instantiate d c.args).apply s = e.toTy →
      DirectlyAbove t c e
  | raw {d : ClassDecl} {e : ClassTy} : t.class? c.head = some d → d.isRawUse c.args = true →
      e.toTy ∈ d.supertypes → DirectlyAbove t c ⟨e.head, []⟩
  | root {d : ClassDecl} : t.class? c.head = some d → d.kind = .interface →
      DirectlyAbove t c ⟨t.wellKnown.object, []⟩

/-- The declared parents are the classes of the declared supertypes in a raw use, and the declared
supertypes at the type arguments in any other. -/
lemma mem_declaredParents_iff {c e : ClassTy} {d : ClassDecl} :
    e ∈ t.declaredParents d c.args ↔
      d.isRawUse c.args = true ∧ (∃ u : ClassTy, u.toTy ∈ d.supertypes ∧ e = ⟨u.head, []⟩) ∨
        d.isRawUse c.args = false ∧ ∃ s ∈ d.supertypes,
          (t.instantiate d c.args).apply s = e.toTy := by
  unfold declaredParents
  cases d.isRawUse c.args with
  | true =>
    simp only [if_true, List.mem_filterMap, Option.map_eq_some_iff, true_and, Bool.true_eq_false,
      false_and, or_false]
    constructor
    · rintro ⟨s, hs, u, hu, rfl⟩
      exact ⟨u, Ty.eq_toTy_of_asClass? hu ▸ hs, rfl⟩
    · rintro ⟨u, hu, rfl⟩
      exact ⟨u.toTy, hu, u, rfl, rfl⟩
  | false =>
    simp only [Bool.false_eq_true, if_false, List.mem_filterMap, false_and, false_or, true_and]
    refine exists_congr fun s => and_congr_right fun _ => ⟨Ty.eq_toTy_of_asClass?, fun h => ?_⟩
    rw [h, Ty.asClass?_toTy]

/-- The parents of a class type are what stands directly above it. -/
lemma mem_parents_iff {c e : ClassTy} : e ∈ t.parents c ↔ t.DirectlyAbove c e := by
  constructor
  · intro he
    unfold parents at he
    -- By what `parents` puts together: the declared supertypes, raw or not, and the root of
    -- interfaces.
    split at he
    · cases he
    · rename_i d hd
      rcases List.mem_append.1 he with he | he
      · rcases mem_declaredParents_iff.1 he with ⟨raw, u, hu, rfl⟩ | ⟨full, s, hs, seen⟩
        · exact .raw hd raw hu
        · exact .declared hd full hs seen
      · split at he
        · rename_i interface
          rw [List.mem_singleton.1 he]
          exact .root hd (of_decide_eq_true interface)
        · cases he
  · intro above
    cases above with
    | declared hd full hs seen =>
      rw [parents, hd]
      exact List.mem_append_left _ (mem_declaredParents_iff.2 (.inr ⟨full, _, hs, seen⟩))
    | raw hd raw hu =>
      rw [parents, hd]
      exact List.mem_append_left _ (mem_declaredParents_iff.2 (.inl ⟨raw, _, hu, rfl⟩))
    | root hd interface =>
      rw [parents, hd]
      have isInterface : ClassDecl.isInterface _ = true := decide_eq_true interface
      refine List.mem_append_right _ ?_
      rw [if_pos isInterface]
      exact List.mem_singleton_self _

/-- A class type stands above another, by any number of declared supertypes. -/
def Reaches (t : ClassTable) : ClassTy → ClassTy → Prop :=
  Relation.ReflTransGen fun a b => b ∈ t.parents a

section Walk

/-- What a walk meets is reached from its queue. -/
lemma exists_reaches {seen : List ClassId} {queue : List ClassTy} {e : ClassTy}
    (h : e ∈ t.closureFrom seen queue) : ∃ c ∈ queue, t.Reaches c e :=
  of_mem_closureFrom (P := fun e => ∃ c ∈ queue, t.Reaches c e)
    (fun _ ⟨c, hc, reach⟩ _ he => ⟨c, hc, reach.tail he⟩) (fun c hc => ⟨c, hc, .refl⟩) h

/-- The closure holds only what is reached. -/
lemma reaches_of_mem_classClosure {c e : ClassTy} (h : e ∈ t.classClosure c) : t.Reaches c e := by
  obtain ⟨b, hb, reach⟩ := exists_reaches h
  rwa [List.mem_singleton.1 hb] at reach

/-- The walk leaves out no class: each in its queue has been seen or is met, and so is each that
stands directly above one it meets. -/
lemma head_mem_closureFrom (t : ClassTable) (seen : List ClassId) (queue : List ClassTy) :
    (∀ c ∈ queue, c.head ∈ seen ∨ c.head ∈ (t.closureFrom seen queue).map ClassTy.head) ∧
      ∀ e ∈ t.closureFrom seen queue, ∀ p ∈ t.parents e,
        p.head ∈ seen ∨ p.head ∈ (t.closureFrom seen queue).map ClassTy.head := by
  fun_induction closureFrom t seen queue with
  | case1 => exact ⟨fun c hc => absurd hc List.not_mem_nil, fun e he => absurd he List.not_mem_nil⟩
  | case2 seen b queue met ih => exact ⟨List.forall_mem_cons.2 ⟨.inl met, ih.1⟩, ih.2⟩
  | case3 seen b queue fresh ih =>
    obtain ⟨queued, above⟩ := ih
    -- What the rest of the walk has seen, this walk has seen or meets first.
    have step {h : ClassId} {rest : List ClassId} (hh : h ∈ b.head :: seen ∨ h ∈ rest) :
        h ∈ seen ∨ h ∈ b.head :: rest := by
      simp only [List.mem_cons] at hh ⊢
      tauto
    refine ⟨List.forall_mem_cons.2 ⟨.inr List.mem_cons_self, fun c hc => ?_⟩,
      List.forall_mem_cons.2 ⟨fun p hp => ?_, fun e he p hp => ?_⟩⟩
    · exact step (queued c (List.mem_append_left _ hc))
    · exact step (queued p (List.mem_append_right _ hp))
    · exact step (above e he p hp)

/-- Each class type stands in its own closure. -/
lemma self_mem_classClosure (t : ClassTable) (c : ClassTy) : c ∈ t.classClosure c := by
  rw [classClosure, closureFrom, if_neg List.not_mem_nil]
  exact List.mem_cons_self

/-- A class type is viewed as its own class as itself. -/
lemma classView?_self (t : ClassTable) (c : ClassTy) : t.classView? c c.head = some c :=
  classView?_of_mem (t.self_mem_classClosure c)

/-- A view is an entry of the closure with the class asked for. -/
lemma mem_of_classView? {c e : ClassTy} {target : ClassId} (h : t.classView? c target = some e) :
    e ∈ t.classClosure c ∧ e.head = target :=
  ⟨List.mem_of_find?_eq_some h, by simpa using List.find?_some h⟩

/-- The parents of what the walk meets have their classes in the walk. -/
lemma exists_mem_classClosure_of_parent {c e p : ClassTy} (he : e ∈ t.classClosure c)
    (hp : p ∈ t.parents e) : ∃ q ∈ t.classClosure c, q.head = p.head := by
  rcases (t.head_mem_closureFrom [] [c]).2 e he p hp with h | h
  · cases h
  · exact List.mem_map.1 h

end Walk

section Once

/-- The class type inherits no class in two different instantiations. -/
def InheritsOnce (t : ClassTable) (c : ClassTy) : Prop :=
  ∀ e e', t.Reaches c e → t.Reaches c e' → e.head = e'.head → e = e'

/-- No class inherits another class in two different instantiations. -/
def SingleInstantiation (t : ClassTable) : Prop :=
  ∀ c d, t.class? c = some d → t.InheritsOnce ⟨c, d.typeParams.map .var⟩

/-- Where no class is inherited twice, the walk meets all that is reached. -/
lemma mem_classClosure_iff {c e : ClassTy} (once : t.InheritsOnce c) :
    e ∈ t.classClosure c ↔ t.Reaches c e := by
  refine ⟨reaches_of_mem_classClosure, fun reach => ?_⟩
  induction reach with
  | refl => exact t.self_mem_classClosure c
  | tail reach hp ih =>
    obtain ⟨q, hq, head⟩ := exists_mem_classClosure_of_parent ih hp
    rwa [once _ q (reach.tail hp) (reaches_of_mem_classClosure hq) head.symm]

/-- Where each class is inherited once, a view is what is reached with the class asked for. -/
lemma classView?_eq_some_iff {c e : ClassTy} {target : ClassId} (once : t.InheritsOnce c) :
    t.classView? c target = some e ↔ t.Reaches c e ∧ e.head = target := by
  rw [← mem_classClosure_iff once]
  refine ⟨mem_of_classView?, ?_⟩
  rintro ⟨he, rfl⟩
  exact classView?_of_mem he

/-- That a class is inherited once can be read off the walk: it meets the parents of all it meets,
in the instantiations they have there. -/
lemma inheritsOnce_of_closed {c : ClassTy}
    (h : ∀ e ∈ t.classClosure c, ∀ p ∈ t.parents e, p ∈ t.classClosure c) : t.InheritsOnce c := by
  have met {e : ClassTy} (reach : t.Reaches c e) : e ∈ t.classClosure c := by
    induction reach with
    | refl => exact t.self_mem_classClosure c
    | tail _ hp ih => exact h _ ih _ hp
  intro e e' he he' head
  exact List.inj_on_of_nodup_map (t.nodup_closureFrom [] [c]) (met he) (met he') head

/-- Whether the walk up from each class, within its own declaration, meets the parents of all it
meets. -/
def walksClosed (t : ClassTable) : Bool :=
  t.classes.toList.zipIdx.all fun (d, i) =>
    let walk := t.classClosure ⟨⟨i⟩, d.typeParams.map .var⟩
    walk.all fun e => (t.parents e).all walk.contains

/-- A class that is found by its number is listed with that number. -/
lemma mem_zipIdx_of_class? {c : ClassId} {d : ClassDecl} (hd : t.class? c = some d) :
    (d, c.raw) ∈ t.classes.toList.zipIdx := by
  rw [List.mem_zipIdx_iff_getElem?, Array.getElem?_toList]
  exact hd

/-- A table whose walks are closed inherits each class in a single instantiation. -/
lemma singleInstantiation_of_walksClosed (h : t.walksClosed = true) : t.SingleInstantiation := by
  intro c d hd
  refine inheritsOnce_of_closed fun e he p hp => ?_
  have walk := List.all_eq_true.1 h _ (mem_zipIdx_of_class? hd)
  have met := List.all_eq_true.1 (List.all_eq_true.1 walk e he) p hp
  exact List.contains_iff_mem.1 met

end Once

/-- The classes directly above a class. -/
def classesAbove (t : ClassTable) (d : ClassDecl) : List ClassId :=
  (d.supertypes.filterMap fun s => s.asClass?.map ClassTy.head) ++
    if d.isInterface then [t.wellKnown.object] else []

/-- The classes directly above a class do not depend on its type arguments. -/
lemma map_head_parents
    (isClass : ∀ d ∈ t.classes, ∀ s ∈ d.supertypes, s.asClass?.isSome = true) {c : ClassTy}
    {d : ClassDecl} (hd : t.class? c.head = some d) :
    (t.parents c).map ClassTy.head = t.classesAbove d := by
  have declared : (t.declaredParents d c.args).map ClassTy.head =
      d.supertypes.filterMap fun s => s.asClass?.map ClassTy.head := by
    unfold declaredParents
    split
    · rw [List.map_filterMap]
      refine List.filterMap_congr fun s _ => ?_
      rw [Option.map_map]
      rfl
    · rw [List.map_filterMap]
      refine List.filterMap_congr fun s hs => ?_
      obtain ⟨u, rfl⟩ := Ty.exists_eq_toTy (isClass d (mem_classes_of_class? hd) s hs)
      rw [ClassTy.toTy, Subst.apply_cls]
      rfl
  rw [parents, hd, classesAbove]
  dsimp only
  rw [List.map_append, declared]
  congr 1
  split
  · rfl
  · rfl

/-- For each class that is reached, in whatever instantiation, the walk has an entry. -/
lemma exists_mem_classClosure_of_reaches
    (isClass : ∀ d ∈ t.classes, ∀ s ∈ d.supertypes, s.asClass?.isSome = true) {c e : ClassTy}
    (reach : t.Reaches c e) : ∃ q ∈ t.classClosure c, q.head = e.head := by
  induction reach with
  | refl => exact ⟨c, t.self_mem_classClosure c, rfl⟩
  | @tail b e _ he ih =>
    obtain ⟨q, hq, head⟩ := ih
    -- The entry for the class of `b` may have other type arguments, but the same classes above it.
    have above : e.head ∈ (t.parents q).map ClassTy.head := by
      cases hd : t.class? b.head with
      | none =>
        rw [parents_of_undeclared hd] at he
        cases he
      | some d =>
        have he := List.mem_map_of_mem (f := ClassTy.head) he
        rwa [map_head_parents isClass hd, ← map_head_parents isClass (head ▸ hd)] at he
    obtain ⟨p, hp, same⟩ := List.mem_map.1 above
    rw [← same]
    exact exists_mem_classClosure_of_parent hq hp

/-- A class is properly below the other classes that it reaches. -/
lemma properlyBelow_iff_reaches
    (isClass : ∀ d ∈ t.classes, ∀ s ∈ d.supertypes, s.asClass?.isSome = true) {sub sup : ClassId} :
    t.ProperlyBelow sub sup ↔ sub ≠ sup ∧ ∃ e, t.Reaches ⟨sub, []⟩ e ∧ e.head = sup := by
  refine and_congr_right fun _ => ⟨?_, ?_⟩
  · rintro ⟨e, he, rfl⟩
    exact ⟨e, reaches_of_mem_classClosure he, rfl⟩
  · rintro ⟨e, reach, rfl⟩
    exact exists_mem_classClosure_of_reaches isClass reach

/-- No class stands above itself. -/
def Acyclic (t : ClassTable) : Prop :=
  ∀ c e, Relation.TransGen (fun a b => b ∈ t.parents a) c e → e.head ≠ c.head

/-- Ranks that go down from each class to those directly above it exclude cycles. -/
lemma acyclic_of_rank (isClass : ∀ d ∈ t.classes, ∀ s ∈ d.supertypes, s.asClass?.isSome = true)
    (rank : ClassId → Nat)
    (h : ∀ i (hi : i < t.classes.size), ∀ p ∈ t.classesAbove t.classes[i], rank p < rank ⟨i⟩) :
    t.Acyclic := by
  have step {c p : ClassTy} (hp : p ∈ t.parents c) : rank p.head < rank c.head := by
    cases hd : t.class? c.head with
    | none =>
      rw [parents_of_undeclared hd] at hp
      cases hp
    | some d =>
      have above := List.mem_map_of_mem (f := ClassTy.head) hp
      rw [map_head_parents isClass hd] at above
      obtain ⟨hi, rfl⟩ := Array.getElem?_eq_some_iff.1 hd
      exact h c.head.raw hi p.head above
  intro c e path
  have lower : rank e.head < rank c.head := by
    induction path with
    | single hp => exact step hp
    | tail _ hp ih => exact (step hp).trans ih
  exact fun same => Nat.lt_irrefl _ (same ▸ lower)

/-- What stands directly above a class type: `Object` above an interface, or a declared supertype,
without arguments above a raw use and else with the arguments of the class type put in. -/
lemma mem_parents_cases
    (isClass : ∀ d ∈ t.classes, ∀ s ∈ d.supertypes, s.asClass?.isSome = true) {c e : ClassTy}
    (he : e ∈ t.parents c) :
    ∃ d, t.class? c.head = some d ∧
      (e = ⟨t.wellKnown.object, []⟩ ∨ ∃ u : ClassTy, u.toTy ∈ d.supertypes ∧
        (d.isRawUse c.args = true ∧ e = ⟨u.head, []⟩ ∨
          d.isRawUse c.args = false ∧ e.toTy = (t.instantiate d c.args).apply u.toTy)) := by
  cases mem_parents_iff.1 he with
  | declared hd full hs seen =>
    obtain ⟨u, rfl⟩ := Ty.exists_eq_toTy (isClass _ (mem_classes_of_class? hd) _ hs)
    exact ⟨_, hd, .inr ⟨u, hs, .inr ⟨full, seen.symm⟩⟩⟩
  | raw hd raw hu => exact ⟨_, hd, .inr ⟨_, hu, .inl ⟨raw, rfl⟩⟩⟩
  | root hd => exact ⟨_, hd, .inl rfl⟩

section Scope

variable (ws : t.WellScoped)

include ws

/-- What stands above a class type mentions no variables but those of the class type. -/
lemma exists_mentions_of_reaches {c e : ClassTy} (reach : t.Reaches c e) {a : Ty} (ha : a ∈ e.args)
    {v : TypeVarId} (hv : a.mentions v = true) : ∃ b ∈ c.args, b.mentions v = true := by
  induction reach generalizing a with
  | refl => exact ⟨a, ha, hv⟩
  | @tail b e _ he ih =>
    suffices above : ∃ a ∈ b.args, a.mentions v = true by
      obtain ⟨a, ha, hv⟩ := above
      exact ih ha hv
    obtain ⟨d, hd, rfl | ⟨u, hu, ⟨_, rfl⟩ | ⟨_, seen⟩⟩⟩ := mem_parents_cases ws.isClass he
    · cases ha
    · cases ha
    · have inScope := ws.supertypes d (mem_classes_of_class? hd) _ hu
      have hv : e.toTy.mentions v = true := Subst.mentionsAny_of_mem ha hv
      rw [seen, Subst.mentions_apply] at hv
      exact exists_mentions_of_instantiate inScope hv

/-- Within its own declaration all that stands above a class is in the scope of its type
parameters. -/
lemma scopedIn_of_reaches {c : ClassId} {vs : List TypeVarId} {e : ClassTy}
    (reach : t.Reaches ⟨c, vs.map .var⟩ e) {a : Ty} (ha : a ∈ e.args) : a.ScopedIn vs := by
  intro v hv
  obtain ⟨b, hb, hv⟩ := exists_mentions_of_reaches ws reach ha hv
  obtain ⟨w, hw, rfl⟩ := List.mem_map.1 hb
  obtain rfl : w = v := of_decide_eq_true hv
  exact hw

end Scope

section Substitution

variable (ws : t.WellScoped) (normal : ∀ d ∈ t.classes, ∀ s ∈ d.supertypes, s.Normal)

include normal

/-- What is reached from a class type in normal form is in normal form. -/
lemma normal_of_reaches {c e : ClassTy} (hc : c.Normal) (reach : t.Reaches c e) : e.Normal := by
  induction reach with
  | refl => exact hc
  | tail _ he ih => exact normal_of_mem_parents normal ih he

include ws

/-- What stands above a class type stands, substituted, above the substituted class type. -/
lemma reaches_rebuild {s : Subst} (hs : s.Normal) {c e : ClassTy} (hc : c.Normal)
    (reach : t.Reaches c e) : t.Reaches (c.rebuild s) (e.rebuild s) := by
  induction reach with
  | refl => exact .refl
  | tail reach he ih =>
    refine ih.tail ?_
    rw [parents_rebuild ws.isClass normal ws.supertypes hs (normal_of_reaches normal hc reach)]
    exact List.mem_map_of_mem he

/-- Nothing but substituted class types stands above a substituted class type. -/
lemma exists_of_reaches_rebuild {s : Subst} (hs : s.Normal) {c e : ClassTy} (hc : c.Normal)
    (reach : t.Reaches (c.rebuild s) e) : ∃ x, t.Reaches c x ∧ e = x.rebuild s := by
  induction reach with
  | refl => exact ⟨c, .refl, rfl⟩
  | tail _ he ih =>
    obtain ⟨x, reach, rfl⟩ := ih
    have hx := normal_of_reaches normal hc reach
    rw [parents_rebuild ws.isClass normal ws.supertypes hs hx] at he
    obtain ⟨y, hy, rfl⟩ := List.mem_map.1 he
    exact ⟨y, reach.tail hy, rfl⟩

/-- Above a class type stands it itself, and what stands above its class within its own declaration,
with the type arguments put in. -/
lemma reaches_iff_self {c : ClassId} {d : ClassDecl} {args : List Ty} (hd : t.class? c = some d)
    (length : args.length = d.typeParams.length) (hargs : ∀ a ∈ args, a.Normal) {e : ClassTy} :
    t.Reaches ⟨c, args⟩ e ↔ e = ⟨c, args⟩ ∨
      ∃ x, Relation.TransGen (fun a b => b ∈ t.parents a) ⟨c, d.typeParams.map .var⟩ x ∧
        e = x.rebuild (t.instantiate d args) := by
  have hs := normal_instantiate (t := t) (d := d) hargs
  have parent {q : ClassTy} (hq : q ∈ t.parents ⟨c, d.typeParams.map .var⟩) : q.Normal :=
    normal_of_mem_parents normal (ClassTy.normal_own c d.typeParams) hq
  constructor
  · intro reach
    rcases Relation.ReflTransGen.cases_head reach with rfl | ⟨p, hp, reach⟩
    · exact .inl rfl
    · rw [parents_of_self ws.isClass normal ws.supertypes hd length] at hp
      obtain ⟨q, hq, rfl⟩ := List.mem_map.1 hp
      obtain ⟨x, hx, rfl⟩ := exists_of_reaches_rebuild ws normal hs (parent hq) reach
      exact .inr ⟨x, Relation.TransGen.head' hq hx, rfl⟩
  · rintro (rfl | ⟨x, path, rfl⟩)
    · exact .refl
    · obtain ⟨q, hq, hx⟩ := Relation.TransGen.head'_iff.1 path
      refine Relation.ReflTransGen.head ?_ (reaches_rebuild ws normal hs (parent hq) hx)
      rw [parents_of_self ws.isClass normal ws.supertypes hd length]
      exact List.mem_map_of_mem hq

end Substitution

end LambdaTyping.ClassTable
