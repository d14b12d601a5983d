import LambdaTyping.Proofs.Subtyping.SuperFree

/-!
# What stands below `Object`

To be below `Object` a type has to open into one that is (`below_objectType_iff`). Where classes and
enums have superclasses up to `Object`, few of the types that do not open are not: those that are no
reference types, the intersection of no types, and annotation types and undeclared classes without
`Object` above them (`subtype_objectType_iff`). Interfaces have `Object` above them though they
declare no superclass, annotation types do not.
-/

namespace LambdaTyping

namespace Ty

/-- Whether the type directly opens into reference types, if at all, and into some if it is an
intersection. -/
def opensToReferences : Ty → Bool
  | .inter ms => !ms.isEmpty && ms.all isReference
  | .wildExtends u => u.isReference
  | _ => true

/-- The intersections in the type have members, and these are reference types, as are the bounds of
the wildcards `? extends`. -/
def HasReferenceParts (t : Ty) : Prop :=
  t.Everywhere fun s => s.opensToReferences = true

instance (t : Ty) : Decidable t.HasReferenceParts :=
  inferInstanceAs (Decidable (t.Everywhere _))

/-- An intersection has reference parts if it has members, and these are reference types and
have. -/
lemma hasReferenceParts_inter {ms : List Ty} :
    (inter ms).HasReferenceParts ↔
      ms ≠ [] ∧ ∀ m ∈ ms, m.isReference = true ∧ m.HasReferenceParts := by
  refine everywhere_inter.trans ?_
  simp only [opensToReferences, Bool.and_eq_true, Bool.not_eq_true', List.isEmpty_eq_false_iff,
    List.all_eq_true, and_assoc, ← forall₂_and]
  rfl

/-- An upper-bounded wildcard has reference parts if its bound is a reference type and has. -/
lemma hasReferenceParts_wildExtends {u : Ty} :
    (wildExtends u).HasReferenceParts ↔ u.isReference = true ∧ u.HasReferenceParts :=
  everywhere_wildExtends

/-- A reference type made of reference types, as far as it can be opened. -/
structure IsReferential (t : Ty) : Prop where
  reference : t.isReference = true
  parts : t.HasReferenceParts

instance (t : Ty) : Decidable t.IsReferential :=
  decidable_of_iff (t.isReference = true ∧ t.HasReferenceParts)
    ⟨fun ⟨reference, parts⟩ => ⟨reference, parts⟩, fun ⟨reference, parts⟩ => ⟨reference, parts⟩⟩

end Ty

namespace ClassTable

variable {t : ClassTable} {a b p q x y z : Ty} {c : ClassId} {args : List Ty}

section Opening

/-- The type is opened until nothing is left to open. -/
structure OpensTo (t : ClassTable) (x y : Ty) : Prop where
  path : Relation.ReflTransGen t.Opens x y
  closed : ∀ z, ¬t.Opens y z

/-- With acyclic bounds every type can be opened to an end. -/
lemma exists_opensTo (acyclic : t.AcyclicBounds) (x : Ty) : ∃ y, t.OpensTo x y := by
  induction x using (opens_wf acyclic).induction with
  | _ x ih =>
    by_cases closed : ∀ z, ¬t.Opens x z
    · exact ⟨x, .refl, closed⟩
    · obtain ⟨z, opens⟩ := not_forall_not.1 closed
      obtain ⟨y, h⟩ := ih z opens
      exact ⟨y, .head opens h.path, h.closed⟩

/-- A type that opens no further is opened to itself only. -/
lemma opensTo_iff_of_closed (closed : ∀ z, ¬t.Opens x z) : t.OpensTo x y ↔ y = x := by
  constructor
  · intro h
    rcases Relation.ReflTransGen.cases_head h.path with rfl | ⟨z, opens, _⟩
    · rfl
    · exact absurd opens (closed z)
  · rintro rfl
    exact ⟨.refl, closed⟩

/-- A type that opens further is opened to what the types it opens into are. -/
lemma opensTo_iff_of_opens (opens : t.Opens x z) :
    t.OpensTo x y ↔ ∃ w, t.Opens x w ∧ t.OpensTo w y := by
  constructor
  · intro h
    rcases Relation.ReflTransGen.cases_head h.path with rfl | ⟨w, first, rest⟩
    · exact absurd opens (h.closed z)
    · exact ⟨w, first, rest, h.closed⟩
  · rintro ⟨w, first, h⟩
    exact ⟨.head first h.path, h.closed⟩

/-- A type is below what it opens into something below. -/
lemma below_of_opens (ref : b.isReference = true) (flat : b.isIntersection = false)
    (notVar : ∀ v, b ≠ .var v) (opens : t.Opens x y) (h : t.Below y b) : t.Below x b := by
  cases opens with
  | member hm => exact below_of_member ref flat hm h
  | bound hu => exact below_of_bound ref flat hu h
  | wildcard => exact below_of_wildExtends ref flat notVar h

/-- A type that opens is below a class type if one of those that it opens into is. -/
lemma below_cls_iff_of_opens (opens : t.Opens x z) :
    t.Below x (.cls c args) ↔ ∃ y, t.Opens x y ∧ t.Below y (.cls c args) := by
  refine ⟨fun h => ?_, fun ⟨y, opens, h⟩ => below_of_opens rfl rfl nofun opens h⟩
  cases opens with
  | member =>
    rw [below_iff, subtypePlan_inter_left rfl rfl] at h
    obtain ⟨_, hg, met⟩ := h
    obtain ⟨m, hm, rfl⟩ := List.mem_map.1 hg
    exact ⟨m, .member hm, met⟩
  | @bound v _ hu =>
    have ne : Ty.var v ≠ .cls c args := nofun
    rw [below_iff, subtypePlan_var_left rfl rfl ne] at h
    split at h
    · rename_i none
      rw [none] at hu
      cases hu
    · obtain ⟨_, hg, met⟩ := h
      obtain ⟨u, hu, rfl⟩ := List.mem_map.1 hg
      exact ⟨u, .bound hu, met⟩
  | wildcard => exact ⟨z, .wildcard, Plan.met_one_iff.1 (below_iff.1 h)⟩

end Opening

section Object

/-- The class has superclasses, class types all, up to `Object`. -/
inductive DescendsFromObject (t : ClassTable) : ClassId → Prop
  | object : DescendsFromObject t t.wellKnown.object
  | superClass {c e : ClassId} {d : ClassDecl} {args : List Ty} : t.class? c = some d →
      d.superClass = some (.cls e args) → DescendsFromObject t e → DescendsFromObject t c

/-- `Object` is among the classes above the class type. -/
def HasObjectAbove (t : ClassTable) (c : ClassTy) : Prop :=
  ∃ e ∈ t.classClosure c, e.head = t.wellKnown.object

/-- The class of a superclass is the class of one of the parents. -/
lemma exists_parent_of_superClass {c : ClassTy} {e : ClassId} {d : ClassDecl}
    (hd : t.class? c.head = some d) (super : d.superClass = some (.cls e args)) :
    ∃ p ∈ t.parents c, p.head = e := by
  have declared : Ty.cls e args ∈ d.supertypes :=
    List.mem_append_left _ (Option.mem_toList.2 super)
  cases raw : d.isRawUse c.args with
  | true => exact ⟨⟨e, []⟩, mem_parents_iff.2 (.raw (e := ⟨e, args⟩) hd raw declared), rfl⟩
  | false =>
    have seen := Subst.apply_cls (t.instantiate d c.args) e args
    exact ⟨⟨e, _⟩, mem_parents_iff.2 (.declared hd raw declared seen), rfl⟩

/-- `Object` is above a class type above which a class descends from it. -/
lemma hasObjectAbove_of_descends {c e : ClassTy} (he : e ∈ t.classClosure c)
    (h : t.DescendsFromObject e.head) : t.HasObjectAbove c := by
  generalize hc : e.head = i at h
  induction h generalizing e with
  | object => exact ⟨e, he, hc⟩
  | superClass hd super _ ih =>
    obtain ⟨p, hp, head⟩ := exists_parent_of_superClass (hc ▸ hd) super
    obtain ⟨q, hq, same⟩ := exists_mem_classClosure_of_parent he hp
    exact ih hq (same.trans head)

/-- `Object` is above an interface. -/
lemma hasObjectAbove_of_interface {c : ClassTy} {d : ClassDecl} (hd : t.class? c.head = some d)
    (kind : d.kind = .interface) : t.HasObjectAbove c :=
  exists_mem_classClosure_of_parent (t.self_mem_classClosure c) (mem_parents_iff.2 (.root hd kind))

/-- What is opened no further and not below `Object`: no reference type, the intersection of no
types, or a class type, not of a class, an interface or an enum, without `Object` above. -/
inductive Rootless (t : ClassTable) : Ty → Prop
  | void : Rootless t .void
  | prim (p : Primitive) : Rootless t (.prim p)
  | none : Rootless t (.inter [])
  | cls {c : ClassId} {args : List Ty} :
      (∀ d, t.class? c = some d → d.kind = ClassKind.annotation) → ¬t.HasObjectAbove ⟨c, args⟩ →
      Rootless t (.cls c args)

/-- A class type is below `Object` if `Object` is above it. -/
lemma below_cls_objectType_iff :
    t.Below (.cls c args) t.objectType ↔ t.HasObjectAbove ⟨c, args⟩ := by
  have plan : (t.classPlan ⟨c, args⟩ ⟨t.wellKnown.object, []⟩).Met t ↔
      t.HasObjectAbove ⟨c, args⟩ := by
    refine (classPlan_holds_iff fun _ => Goal.met_known_iff).trans ⟨?_, ?_⟩
    · rintro ⟨e, view, _⟩
      obtain ⟨he, head⟩ := mem_of_classView? view
      exact ⟨e, he, head⟩
    · rintro ⟨e, he, head⟩
      have found : (t.classView? ⟨c, args⟩ t.wellKnown.object).isSome = true := by
        rw [classView?, List.find?_isSome]
        exact ⟨e, he, decide_eq_true head⟩
      obtain ⟨f, view⟩ := Option.isSome_iff_exists.1 found
      exact ⟨f, view, .inl rfl⟩
  rw [← plan]
  refine ⟨fun h => ?_, below_cls⟩
  by_cases same : Ty.cls c args = t.objectType
  · cases same
    exact plan.2 ⟨_, t.self_mem_classClosure _, rfl⟩
  · rw [below_iff] at h
    unfold subtypePlan at h
    rwa [if_neg same] at h

variable (rooted : ∀ c d, t.class? c = some d → d.kind = .cls ∨ d.kind = .enum →
  t.DescendsFromObject c)

include rooted

/-- A class type is rootless if `Object` is not above it. -/
lemma rootless_cls_iff : t.Rootless (.cls c args) ↔ ¬t.HasObjectAbove ⟨c, args⟩ := by
  constructor
  · intro h
    cases h with
    | cls _ none => exact none
  · refine fun none => .cls (fun d hd => ?_) none
    have self := t.self_mem_classClosure ⟨c, args⟩
    cases kind : d.kind with
    | cls => exact absurd (hasObjectAbove_of_descends self (rooted c d hd (.inl kind))) none
    | enum => exact absurd (hasObjectAbove_of_descends self (rooted c d hd (.inr kind))) none
    | interface => exact absurd (hasObjectAbove_of_interface hd kind) none
    | annotation => rfl

/-- A type that opens no further is below `Object` unless it is rootless. -/
lemma below_objectType_iff_of_closed (closed : ∀ z, ¬t.Opens x z) :
    t.Below x t.objectType ↔ ¬t.Rootless x := by
  have known {x : Ty} {holds : Bool} (plan : t.subtypePlan x t.objectType = .known holds) :
      t.Below x t.objectType ↔ holds = true := by
    rw [below_iff, plan, Plan.met_known_iff]
  -- A class type is below `Object` if `Object` is above it; types that open further are excluded,
  -- and for all others it is known.
  cases x with
  | void => exact (known rfl).trans (iff_of_false Bool.false_ne_true (not_not.2 .void))
  | prim p => exact (known rfl).trans (iff_of_false Bool.false_ne_true (not_not.2 (.prim p)))
  | cls c args => rw [below_cls_objectType_iff, rootless_cls_iff rooted, not_not]
  | wildExtends u => exact absurd .wildcard (closed u)
  | inter ms =>
    have none : ms = [] := List.eq_nil_iff_forall_not_mem.2 fun m hm => closed m (.member hm)
    rw [none]
    refine iff_of_false (fun h => ?_) (not_not.2 .none)
    rw [below_iff, objectType, subtypePlan_inter_left rfl rfl] at h
    obtain ⟨_, hg, _⟩ := h
    cases hg
  | null =>
    refine iff_of_true (below_null rfl) fun h => ?_
    cases h
  | unknown =>
    refine iff_of_true (below_of_unknown t _) fun h => ?_
    cases h
  | array e =>
    refine iff_of_true (below_arrayClass (by simp [isArraySuperclass])) fun h => ?_
    cases h
  | var v =>
    have none : t.upperBounds v = [] :=
      List.eq_nil_iff_forall_not_mem.2 fun u hu => closed u (.bound hu)
    refine iff_of_true (below_of_unbounded rfl rfl none (decide_eq_true rfl)) fun h => ?_
    cases h
  | wild | wildSuper =>
    refine iff_of_true ((known rfl).2 (decide_eq_true rfl)) fun h => ?_
    cases h

variable (acyclic : t.AcyclicBounds)

include acyclic

/-- A type is below `Object` if something that it opens into is. -/
lemma below_objectType_iff (x : Ty) :
    t.Below x t.objectType ↔ ∃ y, t.OpensTo x y ∧ ¬t.Rootless y := by
  induction x using (opens_wf acyclic).induction with
  | _ x ih =>
    by_cases closed : ∀ z, ¬t.Opens x z
    · rw [below_objectType_iff_of_closed rooted closed]
      simp only [opensTo_iff_of_closed closed, exists_eq_left]
    · obtain ⟨z, opens⟩ := not_forall_not.1 closed
      rw [objectType, below_cls_iff_of_opens opens]
      simp only [opensTo_iff_of_opens opens]
      constructor
      · rintro ⟨w, first, below⟩
        obtain ⟨y, rest, root⟩ := (ih w first).1 below
        exact ⟨y, ⟨w, first, rest⟩, root⟩
      · rintro ⟨y, ⟨w, first, rest⟩, root⟩
        exact ⟨w, first, (ih w first).2 ⟨y, rest, root⟩⟩

end Object

section References

variable (bounds : ∀ v, ∀ u ∈ t.upperBounds v, u.IsReferential)

include bounds

/-- What a type made of reference types opens into is such a type. -/
lemma isReferential_of_opens (hx : x.IsReferential) (h : t.Opens x y) : y.IsReferential := by
  cases h with
  | member hm =>
    obtain ⟨reference, parts⟩ := (Ty.hasReferenceParts_inter.1 hx.parts).2 _ hm
    exact ⟨reference, parts⟩
  | bound hu => exact bounds _ _ hu
  | wildcard =>
    obtain ⟨reference, parts⟩ := Ty.hasReferenceParts_wildExtends.1 hx.parts
    exact ⟨reference, parts⟩

/-- What a type made of reference types is opened to is such a type. -/
lemma isReferential_of_opensTo (hx : x.IsReferential) (h : t.OpensTo x y) : y.IsReferential := by
  obtain ⟨path, -⟩ := h
  induction path with
  | refl => exact hx
  | tail _ opens ih => exact isReferential_of_opens bounds ih opens

/-- A reference type without a root opens into a class type without one. -/
lemma exists_cls_of_rootless (acyclic : t.AcyclicBounds) (hx : x.IsReferential)
    (h : ∀ y, t.OpensTo x y → t.Rootless y) :
    ∃ c args, t.OpensTo x (.cls c args) ∧
      ∀ d, t.class? c = some d → d.kind = ClassKind.annotation := by
  obtain ⟨y, opensTo⟩ := exists_opensTo acyclic x
  have referential := isReferential_of_opensTo bounds hx opensTo
  cases h y opensTo with
  | void | prim => cases referential.reference
  | none => exact absurd rfl (Ty.hasReferenceParts_inter.1 referential.parts).1
  | cls kind _ => exact ⟨_, _, opensTo, kind⟩

end References

/-- Where all classes and enums have superclasses up to `Object` and bounds are acyclic, a type is
below `Object` unless all that it opens into is rootless. Among reference types that are made of
reference types, this takes an annotation type, or a class that is not declared. -/
theorem subtype_objectType_iff (acyclic : t.AcyclicBounds)
    (rooted : ∀ c d, t.class? c = some d → d.kind = .cls ∨ d.kind = .enum →
      t.DescendsFromObject c) (x : Ty) :
    ∃ r, (t.subtype x t.objectType).Gives r ∧
      (r = false ↔ ∀ y, t.OpensTo x y → t.Rootless y) ∧
      (x.IsReferential → (∀ v, ∀ u ∈ t.upperBounds v, u.IsReferential) → r = false →
        ∃ c args, t.OpensTo x (.cls c args) ∧
          ∀ d, t.class? c = some d → d.kind = ClassKind.annotation) := by
  obtain ⟨r, given⟩ := ends_of_terminates (terminates_of_isErased acyclic (.cls _) x)
  have below : r = false ↔ ∀ y, t.OpensTo x y → t.Rootless y := by
    rw [← Bool.not_eq_true, gives_subtype given, ← objectType,
      below_objectType_iff rooted acyclic x]
    simp only [not_exists, not_and, not_not]
  exact ⟨r, given, below, fun hx bounds no =>
    exists_cls_of_rootless bounds acyclic hx (below.1 no)⟩

/-- `Object`, the class `Enum`, the enum `Level`, the interface `Runnable` and the annotation type
`Marker`, in this order, `T extends Marker` and `U extends Marker & Runnable`. -/
def markers : ClassTable where
  classes := #[
    ⟨"Object", .cls, [], none, [], []⟩,
    ⟨"Enum", .cls, [], some (.cls ⟨0⟩ []), [], []⟩,
    ⟨"Level", .enum, [], some (.cls ⟨1⟩ []), [], []⟩,
    ⟨"Runnable", .interface, [], none, [], []⟩,
    ⟨"Marker", ClassKind.annotation, [], none, [], []⟩]
  params := #[⟨"T", [.cls ⟨4⟩ []], none⟩, ⟨"U", [.cls ⟨4⟩ [], .cls ⟨3⟩ []], none⟩]
  index := ∅
  wellKnown := ⟨⟨0⟩, ⟨0⟩, ⟨0⟩, ⟨0⟩, ⟨0⟩, ⟨0⟩⟩

/-- The classes and enums of the table with markers descend from `Object`. -/
lemma descendsFromObject_markers (c : ClassId) (d : ClassDecl) (hd : markers.class? c = some d)
    (kind : d.kind = .cls ∨ d.kind = .enum) : markers.DescendsFromObject c := by
  have enum : markers.DescendsFromObject ⟨1⟩ := .superClass rfl rfl .object
  obtain ⟨i⟩ := c
  match i with
  | 0 => exact .object
  | 1 => exact enum
  | 2 => exact .superClass rfl rfl enum
  | 3 | 4 =>
    cases hd
    rcases kind with kind | kind
    · cases kind
    · cases kind
  | _ + 5 => cases hd

/-- The bounds of the table with markers are made of reference types. -/
lemma isReferential_bounds_markers (v : TypeVarId) (u : Ty) (hu : u ∈ markers.upperBounds v) :
    u.IsReferential := by
  have all : ∀ p ∈ markers.params, ∀ u ∈ p.upperBounds, u.IsReferential := by decide +kernel
  obtain ⟨p, hp, hu⟩ := exists_param_of_mem_upperBounds hu
  exact all p hp u hu

/-- A wildcard `? extends U` is below `Object` by the bound `Runnable`; the intersection of `Marker`
and `T` is not, as it opens into annotation types only. -/
theorem subtype_objectType_iff_markers :
    markers.AcyclicBounds ∧
      (∀ c d, markers.class? c = some d → d.kind = .cls ∨ d.kind = .enum →
        markers.DescendsFromObject c) ∧
      (∀ v, ∀ u ∈ markers.upperBounds v, u.IsReferential) ∧
      (markers.subtype (.wildExtends (.var ⟨1⟩)) markers.objectType).Gives true ∧
      (markers.subtype (.inter [.cls ⟨4⟩ [], .var ⟨0⟩]) markers.objectType).Gives false ∧
      ∃ c args, markers.OpensTo (.inter [.cls ⟨4⟩ [], .var ⟨0⟩]) (.cls c args) ∧
        ∀ d, markers.class? c = some d → d.kind = ClassKind.annotation := by
  have acyclic : markers.AcyclicBounds := acyclicBounds_of_classes (by decide +kernel)
  have runnable : markers.OpensTo (.wildExtends (.var ⟨1⟩)) (.cls ⟨3⟩ []) := by
    refine ⟨.head .wildcard (.single (.bound ?_)), nofun⟩
    exact List.mem_cons_of_mem _ List.mem_cons_self
  obtain ⟨r, given, below, _⟩ := subtype_objectType_iff acyclic descendsFromObject_markers
    (.wildExtends (.var ⟨1⟩))
  have yes : r = true := by
    refine Bool.eq_true_of_not_eq_false fun no => ?_
    cases below.1 no _ runnable with
    | cls kind _ => cases kind _ rfl
  obtain ⟨r', given', _, rootless⟩ := subtype_objectType_iff acyclic descendsFromObject_markers
    (.inter [.cls ⟨4⟩ [], .var ⟨0⟩])
  have no : (markers.subtype (.inter [.cls ⟨4⟩ [], .var ⟨0⟩]) markers.objectType).Gives false :=
    ⟨9, [], by cbv⟩
  exact ⟨acyclic, descendsFromObject_markers, isReferential_bounds_markers, yes ▸ given, no,
    rootless (by decide) isReferential_bounds_markers (given'.unique no)⟩

/-- An annotation type that declares no supertype is not below `Object`. -/
theorem annotation_not_below_object :
    markers.AcyclicBounds ∧ (∀ v, ∀ u ∈ markers.upperBounds v, u.isReference = true) ∧
      (∀ c d, markers.class? c = some d → d.kind = .cls ∨ d.kind = .enum →
        markers.DescendsFromObject c) ∧
      markers.declares ⟨4⟩ = true ∧
        (markers.subtype (.cls ⟨4⟩ []) markers.objectType).Gives false :=
  ⟨acyclicBounds_of_classes (by decide +kernel),
    fun v u hu => (isReferential_bounds_markers v u hu).reference, descendsFromObject_markers,
    by decide +kernel, 3, [], by cbv⟩

end ClassTable

end LambdaTyping
