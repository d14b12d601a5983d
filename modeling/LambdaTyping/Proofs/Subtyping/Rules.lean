import LambdaTyping.Proofs.Subtyping.Derivation
import LambdaTyping.Proofs.Subtyping.Regular

/-!
# The rules of subtyping on regular types

`Derived` gives the rules by which a regular type comes below a type that is compared as a whole
(`derived_of_below`), and `classPlan_met_iff` the rule for class types, by what stands above them.
`Object` is above each regular reference type (`below_object`), and nothing else above `Object`
(`eq_objectType_of_below`).
-/

namespace LambdaTyping.ClassTable

variable {t : ClassTable} {a b : Ty}

section Shapes

/-- Subtyping relates reference types with each other and primitive types by widening. -/
lemma below_cases (ha : t.RegularType a) (hb : t.RegularType b) (h : t.Below a b) :
    a.isReference = true ∧ b.isReference = true ∨ a = b ∨
      ∃ p q, a = .prim p ∧ b = .prim q ∧ p.widens q = true := by
  by_cases same : a = b
  · exact .inr (.inl same)
  · rw [below_iff] at h
    unfold subtypePlan at h
    rw [if_neg same] at h
    cases a with
    | unknown => exact absurd rfl ha.regular.known.here
    | void =>
      cases b with
      | unknown => exact absurd rfl hb.regular.known.here
      | _ => cases Plan.met_known_iff.1 h
    | prim p =>
      cases b with
      | unknown => exact absurd rfl hb.regular.known.here
      | prim q => exact .inr (.inr ⟨p, q, rfl, rfl, Plan.met_known_iff.1 h⟩)
      | _ => cases Plan.met_known_iff.1 h
    | _ =>
      cases b with
      | unknown => exact absurd rfl hb.regular.known.here
      | void | prim => cases Plan.met_known_iff.1 h
      | _ => exact .inl ⟨rfl, rfl⟩

/-- A primitive type is below those that it widens to. -/
lemma below_prim {p q : Primitive} (h : p.widens q = true) : t.Below (.prim p) (.prim q) := by
  by_cases same : Ty.prim p = .prim q
  · rw [same]
  · rw [below_iff]
    unfold subtypePlan
    rw [if_neg same]
    exact Plan.met_known_iff.2 h

/-- A reference type is below an intersection if it is below each member. -/
lemma below_inter_iff {ms : List Ty} (ha : t.RegularType a) (ref : a.isReference = true)
    (hb : t.RegularArg (.inter ms)) : t.Below a (.inter ms) ↔ ∀ m ∈ ms, t.Below a m := by
  by_cases same : a = .inter ms
  · subst same
    refine iff_of_true (below_self t _) fun m hm => below_iff.2 ?_
    obtain ⟨regular, flat⟩ := hb.member hm
    rw [subtypePlan_inter_left regular.reference flat]
    exact ⟨_, List.mem_map_of_mem hm, below_self t m⟩
  · have each : (Plan.every (ms.map fun m => .subtype a m)).Met t ↔ ∀ m ∈ ms, t.Below a m :=
      List.forall_mem_map
    rw [below_iff]
    unfold subtypePlan
    rw [if_neg same]
    cases a with
    | unknown => exact absurd rfl ha.regular.known.here
    | void | prim => cases ref
    | null =>
      refine iff_of_true (Plan.met_known_iff.2 rfl) fun m hm => ?_
      exact below_null (hb.member hm).1.reference
    | _ => exact each

end Shapes

/-- How a type comes below one that is compared as a whole: by itself, as the type of `null`, by a
member or a bound, by `Object` as the bound of a variable without bounds, or as an array or a class
type. -/
inductive Derived (t : ClassTable) : Ty → Ty → Prop
  | self (a : Ty) : Derived t a a
  | null {b : Ty} : b.isReference = true → Derived t .null b
  | member {m b : Ty} {ms : List Ty} : m ∈ ms → Derived t m b → Derived t (.inter ms) b
  | bound {v : TypeVarId} {u b : Ty} : u ∈ t.upperBounds v → Derived t u b → Derived t (.var v) b
  | unbounded {v : TypeVarId} {b : Ty} : t.upperBounds v = [] → t.isObject b = true →
      Derived t (.var v) b
  | array {d e : Ty} : d.isReference = true → e.isReference = true → t.Below d e →
      Derived t (.array d) (.array e)
  | arrayClass {e : Ty} {c : ClassId} {args : List Ty} : t.isArraySuperclass c = true →
      Derived t (.array e) (.cls c args)
  | cls {c d : ClassId} {as bs : List Ty} : (t.classPlan ⟨c, as⟩ ⟨d, bs⟩).Met t →
      Derived t (.cls c as) (.cls d bs)

section Derived

variable {ms : List Ty} {v : TypeVarId}

/-- An intersection is below what one of its members is below. -/
lemma below_of_member (ref : b.isReference = true) (flat : b.isIntersection = false) {m : Ty}
    (hm : m ∈ ms) (h : t.Below m b) :
    t.Below (.inter ms) b := by
  rw [below_iff, subtypePlan_inter_left ref flat]
  exact ⟨_, List.mem_map_of_mem hm, h⟩

/-- A type variable is below what one of its bounds is below. -/
lemma below_of_bound (ref : b.isReference = true) (flat : b.isIntersection = false) {u : Ty}
    (hu : u ∈ t.upperBounds v) (h : t.Below u b) :
    t.Below (.var v) b := by
  by_cases same : Ty.var v = b
  · rw [same]
  · rw [below_iff, subtypePlan_var_left ref flat same]
    cases bounds : t.upperBounds v with
    | nil =>
      rw [bounds] at hu
      cases hu
    | cons w ws =>
      rw [bounds] at hu
      exact ⟨_, List.mem_map_of_mem hu, h⟩

/-- A type variable without bounds is below `Object`. -/
lemma below_of_unbounded (ref : b.isReference = true) (flat : b.isIntersection = false)
    (none : t.upperBounds v = []) (object : t.isObject b = true) : t.Below (.var v) b := by
  by_cases same : Ty.var v = b
  · rw [same]
  · rw [below_iff, subtypePlan_var_left ref flat same, none]
    exact Plan.met_known_iff.2 object

/-- An array type is below another if its elements are below those of the other. -/
lemma below_array {d e : Ty} (hd : d.isReference = true) (he : e.isReference = true)
    (h : t.Below d e) : t.Below (.array d) (.array e) := by
  by_cases same : Ty.array d = .array e
  · rw [same]
  · rw [below_iff]
    unfold subtypePlan
    rw [if_neg same]
    dsimp only
    rw [hd, he]
    exact Plan.met_one_iff.2 h

/-- An array type is below the classes above all arrays. -/
lemma below_arrayClass {e : Ty} {c : ClassId} {args : List Ty} (h : t.isArraySuperclass c = true) :
    t.Below (.array e) (.cls c args) :=
  below_iff.2 (Plan.met_known_iff.2 h)

/-- A class type is below another if the rule for class types is met. -/
lemma below_cls {c d : ClassId} {as bs : List Ty} (h : (t.classPlan ⟨c, as⟩ ⟨d, bs⟩).Met t) :
    t.Below (.cls c as) (.cls d bs) := by
  by_cases same : Ty.cls c as = .cls d bs
  · rw [same]
  · rw [below_iff]
    unfold subtypePlan
    rwa [if_neg same]

/-- The rules hold. -/
lemma below_of_derived (hb : IsWhole b) (h : t.Derived a b) : t.Below a b := by
  induction h with
  | self a => exact below_self t a
  | null ref => exact below_null ref
  | member hm _ ih => exact below_of_member hb.reference hb.notIntersection hm (ih hb)
  | bound hu _ ih => exact below_of_bound hb.reference hb.notIntersection hu (ih hb)
  | unbounded none object => exact below_of_unbounded hb.reference hb.notIntersection none object
  | array hd he h => exact below_array hd he h
  | arrayClass h => exact below_arrayClass h
  | cls h => exact below_cls h

variable (reg : t.Regular)

include reg

/-- The rules for a type that is neither an intersection nor a variable. -/
lemma derived_of_opened (ha : t.RegularType a) (flat : a.isIntersection = false)
    (notVar : ∀ v, a ≠ .var v) (hb : IsWhole b) (h : t.Below a b) : t.Derived a b := by
  by_cases same : a = b
  · rw [same]
    exact .self b
  · rw [below_iff] at h
    unfold subtypePlan at h
    rw [if_neg same] at h
    -- Regular types exclude some rows and columns of the table of plans, and without lower bounds
    -- none of the types that are left is below a type variable.
    cases a with
    | unknown => exact absurd rfl ha.regular.known.here
    | wild | wildExtends | wildSuper => cases ha.notWildcard
    | inter => cases flat
    | var v => exact absurd rfl (notVar v)
    | null => exact .null hb.reference
    | void | prim =>
      cases b with
      | unknown | prim => cases hb.reference
      | _ => cases Plan.met_known_iff.1 h
    | array d =>
      cases b with
      | void | unknown | prim => cases hb.reference
      | inter => cases hb.notIntersection
      | wild | wildExtends | wildSuper => cases hb.notWildcard
      | array e =>
        dsimp only at h
        split at h
        · rename_i refs
          rw [Bool.and_eq_true] at refs
          exact .array refs.1 refs.2 (Plan.met_one_iff.1 h)
        · rw [of_decide_eq_true (Plan.met_known_iff.1 h)]
          exact .self _
      | var w =>
        dsimp only at h
        rw [reg.lowerBounds w] at h
        cases Plan.met_known_iff.1 h
      | cls c args => exact .arrayClass (Plan.met_known_iff.1 h)
      | null => cases Plan.met_known_iff.1 h
    | cls c args =>
      cases b with
      | void | unknown | prim => cases hb.reference
      | inter => cases hb.notIntersection
      | wild | wildExtends | wildSuper => cases hb.notWildcard
      | cls d args' => exact .cls h
      | var w =>
        dsimp only at h
        rw [reg.lowerBounds w] at h
        cases Plan.met_known_iff.1 h
      | _ => cases Plan.met_known_iff.1 h

/-- There are no other rules for regular types. -/
lemma derived_of_below (ha : t.RegularType a) (hb : IsWhole b) (h : t.Below a b) :
    t.Derived a b := by
  refine below_induction (P := fun a b => t.RegularType a → IsWhole b → t.Derived a b) ?_ h ha hb
  intro a b h ha hb
  by_cases same : a = b
  · rw [same]
    exact .self b
  · -- Intersections and type variables open into types that come below `b` first.
    cases a with
    | inter ms =>
      rw [subtypePlan_inter_left hb.reference hb.notIntersection] at h
      obtain ⟨g, hg, _, ih⟩ := h
      obtain ⟨m, hm, rfl⟩ := List.mem_map.1 hg
      exact .member hm (ih m b rfl (ha.regular.member hm).1.type hb)
    | var v =>
      rw [subtypePlan_var_left hb.reference hb.notIntersection same] at h
      cases bounds : t.upperBounds v with
      | nil =>
        rw [bounds] at h
        exact .unbounded bounds (Goal.met_known_iff.1 (h _ List.mem_cons_self).1)
      | cons u us =>
        rw [bounds] at h
        obtain ⟨g, hg, _, ih⟩ := h
        obtain ⟨w, hw, rfl⟩ := List.mem_map.1 hg
        rw [← bounds] at hw
        exact .bound hw (ih w b rfl (reg.bounds v w hw).type hb)
    | _ =>
      have met : (t.subtypePlan _ b).Met t := h.imp fun g hg => hg.1
      exact derived_of_opened reg ha rfl nofun hb (below_iff.2 met)

end Derived

section Classes

variable (reg : t.Regular)

include reg

/-- The rule for class types: above the first stands the class of the second, with type arguments
that are contained in those of the second. -/
lemma classPlan_met_iff {c d : ClassId} {as bs : List Ty} (hc : t.RegularArg (.cls c as))
    (hd : t.RegularArg (.cls d bs)) :
    (t.classPlan ⟨c, as⟩ ⟨d, bs⟩).Met t ↔ ∃ e, t.Reaches ⟨c, as⟩ e ∧ e.head = d ∧
      ∀ p ∈ bs.zip e.args, (t.argumentGoal p.1 p.2).Met t := by
  obtain ⟨i, hi, _⟩ := hc.declared
  have once := hc.inheritsOnce reg hi
  refine (classPlan_holds_iff fun _ => Goal.met_known_iff).trans ?_
  constructor
  · rintro ⟨e, view, args⟩
    obtain ⟨reach, head⟩ := (classView?_eq_some_iff once).1 view
    refine ⟨e, reach, head, fun p hp => ?_⟩
    rcases args with raw | each
    · obtain ⟨hb, he⟩ := List.of_mem_zip hp
      rw [Bool.or_eq_true, List.isEmpty_iff, List.isEmpty_iff] at raw
      rcases raw with none | none
      · exact absurd hb (List.eq_nil_iff_forall_not_mem.1 none _)
      · exact absurd he (List.eq_nil_iff_forall_not_mem.1 none _)
    · exact (List.forall₂_iff_zip.1 each).2 hp
  · rintro ⟨e, reach, rfl, contained⟩
    obtain ⟨k, hk, arity⟩ := (hc.view reach).declared
    have length : bs.length = e.args.length := (hd.length hk).trans arity.symm
    refine ⟨e, (classView?_eq_some_iff once).2 ⟨reach, rfl⟩, .inr ?_⟩
    exact List.forall₂_iff_zip.2 ⟨length, fun mem => contained _ mem⟩

/-- Above superclasses of arrays stand superclasses of arrays. -/
lemma Regular.isArraySuperclass_of_reaches {c e : ClassTy} (reach : t.Reaches c e)
    (h : t.isArraySuperclass c.head = true) : t.isArraySuperclass e.head = true := by
  induction reach with
  | refl => exact h
  | @tail b e _ he ih =>
    cases hd : t.class? b.head with
    | none =>
      rw [parents_of_undeclared hd] at he
      cases he
    | some d =>
      refine reg.arrays b.head d hd ih e.head ?_
      rw [← map_head_parents reg.wellScoped.isClass hd]
      exact List.mem_map_of_mem he

end Classes

section Object

variable (reg : t.Regular)

include reg

/-- `Object` is a regular type. -/
lemma Regular.regularType_object : t.RegularType t.objectType := by
  refine ⟨regularArg_of_closed (List.mem_singleton_self _) fun y hy => ?_, rfl⟩
  obtain rfl := List.mem_singleton.1 hy
  refine ⟨?_, fun z hz => hz, ?_⟩
  · obtain ⟨o, ho, none⟩ := reg.object
    exact Option.any_eq_true _ _ |>.2 ⟨o, ho, by rw [none]; rfl⟩
  · rintro _ ⟨⟩ e he
    rw [reg.rootless] at he
    cases he

/-- A regular type that is taken for `Object` is `Object`. -/
lemma Regular.eq_objectType (hb : t.RegularType b) (h : t.isObject b = true) :
    b = t.objectType := by
  cases b with
  | cls c args =>
    obtain rfl := of_decide_eq_true h
    obtain ⟨o, ho, none⟩ := reg.object
    have length := hb.regular.length ho
    rw [none] at length
    rw [List.length_eq_zero_iff.1 length]
    rfl
  | _ => cases h

/-- No bounds of a regular table come back to their type variable. -/
lemma Regular.boundCycle?_eq_none (x : Ty) : t.boundCycle? [] x = none := by
  induction x using Ty.rec_members with
  | var v => exact reg.acyclicBounds v
  | array e ih => rwa [boundCycle?]
  | wildExtends b ih => rwa [boundCycle?]
  | inter ms ih =>
    cases ms with
    | nil => simp [boundCycle?]
    | cons m ms =>
      rw [boundCycle?]
      exact ih m List.mem_cons_self
  | _ => simp [boundCycle?]

/-- `Object` stands above each regular class type. -/
lemma RegularArg.reaches_object {c : ClassId} {args : List Ty} (h : t.RegularArg (.cls c args)) :
    ∃ e, t.Reaches ⟨c, args⟩ e ∧ e.head = t.wellKnown.object := by
  obtain ⟨d, hd, _⟩ := h.declared
  obtain ⟨e, reach, head⟩ := reg.rooted c d hd
  rcases Relation.reflTransGen_iff_eq_or_transGen.1 reach with rfl | path
  · exact ⟨_, .refl, head⟩
  · exact ⟨_, (h.reaches_iff reg hd).2 (.inr ⟨e, path, rfl⟩), head⟩

/-- Each regular reference type is below `Object`. -/
lemma below_object {x : Ty} (hx : t.RegularRef x) : t.Below x t.objectType := by
  have ends := reg.boundCycle?_eq_none x
  generalize [] = seen at ends
  -- By induction along the first bounds, as in an erasure; they end because bounds are acyclic.
  fun_induction boundCycle? t seen x with
  | case1 seen e ih =>
    refine below_arrayClass ?_
    simp [isArraySuperclass]
  | case2 seen v met => cases ends
  | case3 seen v fresh b hb ih =>
    have hb : b ∈ t.upperBounds v := List.mem_of_mem_head? hb
    exact below_of_bound rfl rfl hb (ih (reg.bounds v b hb) ends)
  | case4 seen v fresh none =>
    exact below_of_unbounded rfl rfl (List.head?_eq_none_iff.1 none) (decide_eq_true rfl)
  | case5 seen m ms ih =>
    have member := (hx.type.regular.member List.mem_cons_self).1
    exact below_of_member rfl rfl List.mem_cons_self (ih member ends)
  | case6 seen b ih => cases hx.type.notWildcard
  | case7 seen x notArray notVar notInter notExtends =>
    cases x with
    | void | prim | unknown => cases hx.reference
    | wild | wildSuper => cases hx.type.notWildcard
    | array e => exact absurd rfl (notArray e)
    | var v => exact absurd rfl (notVar v)
    | wildExtends b => exact absurd rfl (notExtends b)
    | inter ms =>
      obtain ⟨two, _⟩ := hx.type.regular.members
      obtain ⟨m, rest, rfl⟩ := List.exists_cons_of_length_pos (Nat.lt_of_lt_of_le Nat.two_pos two)
      exact absurd rfl (notInter m rest)
    | null => exact below_null rfl
    | cls c args =>
      obtain ⟨e, reach, head⟩ := hx.type.regular.reaches_object reg
      refine below_cls ?_
      refine (classPlan_met_iff reg hx.type.regular reg.regularType_object.regular).2 ?_
      exact ⟨e, reach, head, fun p hp => nomatch hp⟩

/-- Nothing else stands above `Object`. -/
lemma Regular.eq_of_reaches_object {e : ClassTy}
    (reach : t.Reaches ⟨t.wellKnown.object, []⟩ e) : e = ⟨t.wellKnown.object, []⟩ := by
  induction reach with
  | refl => rfl
  | tail _ he ih =>
    rw [ih, reg.rootless] at he
    cases he

/-- Only `Object` is above `Object`. -/
lemma isObject_of_below (hb : IsWhole b) (regular : t.RegularType b)
    (h : t.Below t.objectType b) : t.isObject b = true := by
  have h := derived_of_below reg reg.regularType_object hb h
  cases h with
  | self => exact decide_eq_true rfl
  | cls met =>
    obtain ⟨e, reach, head, _⟩ :=
      (classPlan_met_iff reg reg.regularType_object.regular regular.regular).1 met
    rw [reg.eq_of_reaches_object reach] at head
    exact decide_eq_true head.symm

/-- Only `Object` is above `Object`. -/
lemma eq_objectType_of_below (hb : t.RegularRef b) (h : t.Below t.objectType b) :
    b = t.objectType := by
  cases b with
  | inter ms =>
    -- Each member would be `Object`, but no two members are equal.
    have each := (below_inter_iff reg.regularType_object rfl hb.type.regular).1 h
    have object (m : Ty) (hm : m ∈ ms) : m = t.objectType := by
      obtain ⟨member, flat⟩ := hb.type.regular.member hm
      refine reg.eq_objectType member.type ?_
      exact isObject_of_below reg ⟨member.reference, flat, member.type.notWildcard⟩ member.type
        (each m hm)
    obtain ⟨two, nodup⟩ := hb.type.regular.members
    rw [List.eq_replicate_of_mem object, List.nodup_replicate] at nodup
    exact absurd two (Nat.not_le_of_lt (Nat.lt_succ_of_le nodup))
  | _ =>
    have whole := isObject_of_below reg ⟨hb.reference, rfl, hb.type.notWildcard⟩ hb.type h
    exact reg.eq_objectType hb.type whole

end Object

end LambdaTyping.ClassTable
