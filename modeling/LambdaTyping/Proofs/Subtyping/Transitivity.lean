import LambdaTyping.Proofs.Subtyping.Answers
import LambdaTyping.Proofs.Subtyping.Inclusion
import LambdaTyping.Table.Platform
import Mathlib

/-!
# Transitivity of subtyping

Subtyping composes at each regular type whose wildcards are handed on (`transAt_of_middle`), so that
it is transitive on regular types through such a type. Wildcards are not captured, and type
arguments are compared by identity: on other types subtyping is not transitive.
-/

namespace LambdaTyping

/-- Widening of primitive types is transitive. -/
lemma Primitive.widens_trans {p q r : Primitive} (pq : p.widens q = true)
    (qr : q.widens r = true) : p.widens r = true := by
  cases p <;> cases q <;> first
    | exact absurd pq (by decide)
    | cases r <;> first | rfl | exact absurd qr (by decide)

namespace ClassTable

variable {t : ClassTable} {a b c : Ty}

/-- Types to go through: wildcards in them are handed on, and other type arguments have no
intersections in them, so that only one type is identical to each. -/
inductive Middle (t : ClassTable) : Ty → Prop
  | void : Middle t .void
  | null : Middle t .null
  | prim (p : Primitive) : Middle t (.prim p)
  | var (v : TypeVarId) : Middle t (.var v)
  | array {e : Ty} : Middle t e → Middle t (.array e)
  | inter {ms : List Ty} : (∀ m ∈ ms, Middle t m) → Middle t (.inter ms)
  | cls {c : ClassId} {args : List Ty} : t.PassesArgs c args →
      (∀ x ∈ args, x.isWildcard = true → Middle t x) → Middle t (.cls c args)
  | wild : Middle t .wild
  | wildExtends {u : Ty} : Middle t u → Middle t (.wildExtends u)
  | wildSuper {l : Ty} : Middle t l → Middle t (.wildSuper l)

section Types

/-- It is enough to go through a type from reference types to types compared as a whole. -/
lemma transAt_of_whole (hb : t.RegularType b)
    (h : ∀ a c, t.RegularType a → a.isReference = true → t.RegularType c → IsWhole c →
      t.Below a b → t.Below b c → t.Below a c) : t.TransAt b := by
  intro a c ha hc hab hbc
  rcases below_cases ha hb hab with ⟨refA, refB⟩ | rfl | ⟨p, q, rfl, rfl, pq⟩
  · rcases below_cases hb hc hbc with ⟨_, refC⟩ | rfl | ⟨p, q, rfl, _⟩
    · cases c with
      | inter ms =>
        refine (below_inter_iff ha refA hc.regular).2 fun m hm => ?_
        obtain ⟨member, flat⟩ := hc.regular.member hm
        exact h a m ha refA member.type ⟨member.reference, flat, member.type.notWildcard⟩ hab
          ((below_inter_iff hb refB hc.regular).1 hbc m hm)
      | _ => exact h a _ ha refA hc ⟨refC, rfl, hc.notWildcard⟩ hab hbc
    · exact hab
    · cases refB
  · exact hbc
  · rcases below_cases hb hc hbc with ⟨refB, _⟩ | rfl | ⟨q, r, e, rfl, qr⟩
    · cases refB
    · exact hab
    · cases e
      exact below_prim (Primitive.widens_trans pq qr)

/-- An intersection is below what one of its members is below. -/
lemma transAt_inter {ms : List Ty} (regular : t.RegularType (.inter ms))
    (through : ∀ m ∈ ms, t.TransAt m) : t.TransAt (.inter ms) := by
  refine transAt_of_whole regular fun a c ha refA hc whole hab hbc => ?_
  rw [below_iff, subtypePlan_inter_left whole.reference whole.notIntersection] at hbc
  obtain ⟨g, hg, met⟩ := hbc
  obtain ⟨m, hm, rfl⟩ := List.mem_map.1 hg
  exact through m hm a c ha hc ((below_inter_iff ha refA regular.regular).1 hab m hm) met

variable (reg : t.Regular)

include reg

/-- The rules compose at a type compared as a whole, if subtyping goes through the element types of
arrays and inclusion through type arguments. -/
lemma derived_trans (hb : IsWhole b) (regular : t.RegularType b)
    (array : ∀ e, b = .array e → t.TransAt e)
    (cls : ∀ k bs, b = .cls k bs → t.PassesArgs k bs ∧ ∀ x ∈ bs, t.IncludesTransAt x)
    (ha : t.RegularType a) (hc : t.RegularType c) (whole : IsWhole c)
    (hab : t.Derived a b) (hbc : t.Below b c) : t.Below a c := by
  -- By how the first type comes below the middle one: it opens into the middle one itself,
  -- `Object`, an array or a class type, and only these two are compared with the last type again.
  induction hab with
  | self b => exact hbc
  | null ref => exact below_null whole.reference
  | member hm _ ih =>
    have hm' := (ha.regular.member hm).1.type
    exact below_of_member whole.reference whole.notIntersection hm (ih hb regular array cls hm' hbc)
  | bound hu _ ih =>
    have hu' := (reg.bounds _ _ hu).type
    exact below_of_bound whole.reference whole.notIntersection hu (ih hb regular array cls hu' hbc)
  | unbounded none object =>
    rw [reg.eq_objectType regular object] at hbc
    rw [eq_objectType_of_below reg ⟨hc, whole.reference⟩ hbc]
    exact below_of_unbounded rfl rfl none (decide_eq_true rfl)
  | array hd he hde =>
    cases derived_of_below reg regular whole hbc with
    | self => exact below_array hd he hde
    | array _ hf hef =>
      exact below_array hd hf (array _ rfl _ _ ha.regular.array hc.regular.array hde hef)
    | arrayClass h => exact below_arrayClass h
  | arrayClass h =>
    cases derived_of_below reg regular whole hbc with
    | self => exact below_arrayClass h
    | cls met =>
      obtain ⟨e, reach, rfl, _⟩ := (classPlan_met_iff reg regular.regular hc.regular).1 met
      exact below_arrayClass (reg.isArraySuperclass_of_reaches reach h)
  | cls hab =>
    cases derived_of_below reg regular whole hbc with
    | self => exact below_cls hab
    | cls met =>
      obtain ⟨passes, through⟩ := cls _ _ rfl
      exact below_cls
        (classPlan_trans reg regular.regular passes through ha.regular hc.regular hab met)

/-- A type compared as a whole. -/
lemma transAt_of_parts (regular : t.RegularType b) (flat : b.isIntersection = false)
    (array : ∀ e, b = .array e → t.TransAt e)
    (cls : ∀ k bs, b = .cls k bs → t.PassesArgs k bs ∧ ∀ x ∈ bs, t.IncludesTransAt x) :
    t.TransAt b := by
  refine transAt_of_whole regular fun a c ha refA hc whole hab hbc => ?_
  have refB : b.isReference = true := by
    rcases below_cases ha regular hab with ⟨_, refB⟩ | rfl | ⟨p, q, rfl, _⟩
    · exact refB
    · exact refA
    · cases refA
  have hb : IsWhole b := ⟨refB, flat, regular.notWildcard⟩
  exact derived_trans reg hb regular array cls ha hc whole (derived_of_below reg ha hb hab) hbc

/-- Subtyping goes through each such type, and inclusion through each such wildcard. -/
lemma transAt_of_middle (hb : t.RegularArg b) (middle : t.Middle b) :
    (b.isWildcard = false → t.TransAt b) ∧ (b.isWildcard = true → t.IncludesTransAt b) := by
  -- Wildcards compose as type arguments, all other types by subtyping.
  induction middle with
  | wild => exact ⟨nofun, fun _ => includesTransAt_wild reg⟩
  | wildExtends _ ih =>
    have hw := hb.wildExtends
    have through := (ih hw.type.regular).1 hw.type.notWildcard
    exact ⟨nofun, fun _ => includesTransAt_wildExtends reg hw through⟩
  | wildSuper _ ih =>
    have hw := hb.wildSuper
    have through := (ih hw.type.regular).1 hw.type.notWildcard
    exact ⟨nofun, fun _ => includesTransAt_wildSuper reg through⟩
  | inter _ ih =>
    refine ⟨fun plain => transAt_inter ⟨hb, plain⟩ fun m hm => ?_, nofun⟩
    have member := (hb.member hm).1.type
    exact (ih m hm member.regular).1 member.notWildcard
  | array _ ih =>
    refine ⟨fun plain => transAt_of_parts reg ⟨hb, plain⟩ rfl ?_ nofun, nofun⟩
    rintro _ ⟨⟩
    exact (ih hb.array.regular).1 hb.array.notWildcard
  | cls passes _ ih =>
    refine ⟨fun plain => transAt_of_parts reg ⟨hb, plain⟩ rfl nofun ?_, nofun⟩
    rintro _ _ ⟨⟩
    refine ⟨passes, fun x hx => ?_⟩
    cases wild : x.isWildcard with
    | true => exact (ih x hx wild (hb.arg hx).1).2 wild
    | false => exact includesTransAt_of_rigid wild (passes.rigid x hx wild)
  | _ => exact ⟨fun plain => transAt_of_parts reg ⟨hb, plain⟩ rfl nofun nofun, nofun⟩

end Types

/-- Subtyping is transitive on regular types, through types whose wildcards are handed on: the
question about the outer types has no other answer, and it has this answer if it never leaves a
choice. -/
theorem subtype_trans (reg : t.Regular) (ha : t.RegularType a) (hb : t.RegularType b)
    (hc : t.RegularType c) (middle : t.Middle b) (hab : (t.subtype a b).Gives true)
    (hbc : (t.subtype b c).Gives true) :
    (∀ r, (t.subtype a c).Gives r → r = true) ∧
      (t.Linear → a.Rigid → c.Rigid → (t.subtype a c).Gives true) := by
  have below : t.Below a c :=
    (transAt_of_middle reg hb.regular middle).1 hb.notWildcard a c ha hc
      ((gives_subtype hab).1 rfl) ((gives_subtype hbc).1 rfl)
  refine ⟨fun r hac => (gives_subtype hac).2 below, fun linear rigidA rigidC => ?_⟩
  exact gives_of_below reg linear ⟨ha, rigidA⟩ ⟨hc, rigidC⟩ below

section Platform

/-- The type parameters of the platform classes have no bounds. -/
lemma param?_platform (v : TypeVarId) :
    platform.param? v = Platform.paramNames[v.raw]?.map fun name => ⟨name, [], none⟩ :=
  Array.getElem?_map

/-- No type parameter of the platform has an upper bound. -/
lemma upperBounds_platform (v : TypeVarId) : platform.upperBounds v = [] := by
  rw [upperBounds, param?_platform]
  cases Platform.paramNames[v.raw]? with
  | none => rfl
  | some name => rfl

/-- No type parameter of the platform has a lower bound. -/
lemma lowerBound?_platform (v : TypeVarId) : platform.lowerBound? v = none := by
  rw [lowerBound?, param?_platform]
  cases Platform.paramNames[v.raw]? with
  | none => rfl
  | some name => rfl

/-- The declarations of the platform are regular. -/
lemma regular_platform : platform.Regular := by
  have wellScoped : platform.WellScoped := by decide +kernel
  have normal : ∀ d ∈ platform.classes, ∀ s ∈ d.supertypes, s.Normal := by decide +kernel
  have arrays : ∀ p ∈ platform.classes.toList.zipIdx, platform.isArraySuperclass ⟨p.2⟩ = true →
      ∀ c ∈ platform.classesAbove p.1, platform.isArraySuperclass c = true := by
    decide +kernel
  refine ⟨wellScoped, normal, ?_, ?_, boundCycle?_of_params (by cbv), ?_, lowerBound?_platform,
    ⟨_, rfl, rfl⟩, by decide +kernel, rooted_of_walksRooted (by cbv), ?_⟩
  · -- `String` and `Number` are declared before their interfaces.
    let rank (c : ClassId) := [0, 6, 5].getD c.raw c.raw
    exact acyclic_of_rank wellScoped.isClass rank (by decide +kernel)
  · exact singleInstantiation_of_walksClosed (by cbv)
  · intro v b hb
    rw [upperBounds_platform] at hb
    cases hb
  · exact fun c d hd => arrays _ (mem_zipIdx_of_class? hd)

/-- The platform declarations leave subtyping no choice. -/
lemma linear_platform : platform.Linear where
  single v := by
    rw [upperBounds_platform]
    exact Nat.zero_le 1
  bounds v b hb := by
    rw [upperBounds_platform] at hb
    cases hb
  supertypes := by decide +kernel

/-- `ArrayList<Integer>`. -/
def integers : Ty := .cls ⟨21⟩ [.cls ⟨6⟩ []]

/-- `List<? extends Number>`. -/
def numbers : Ty := .cls ⟨20⟩ [.wildExtends (.cls ⟨2⟩ [])]

/-- `Collection<? extends Serializable>`. -/
def serializables : Ty := .cls ⟨19⟩ [.wildExtends (.cls ⟨4⟩ [])]

/-- What can be seen from these types. -/
def collections : List Ty :=
  let arguments := [.cls ⟨6⟩ [], .wildExtends (.cls ⟨2⟩ []), .wildExtends (.cls ⟨4⟩ [])]
  let plain := [.cls ⟨0⟩ [], .cls ⟨2⟩ [], .cls ⟨3⟩ [], .cls ⟨4⟩ [], .cls ⟨5⟩ [.cls ⟨6⟩ []]]
  let generic := [18, 19, 20, 21].flatMap fun n => arguments.map fun x => .cls ⟨n⟩ [x]
  arguments ++ plain ++ generic

/-- The collections are regular. -/
lemma regularArg_of_mem_collections {x : Ty} (hx : x ∈ collections) : platform.RegularArg x :=
  regularArg_of_closed hx (by decide +kernel)

/-- The interface `List` hands on its type parameter. -/
lemma handsOn_list : platform.HandsOn ⟨⟨20⟩, [.var ⟨5⟩]⟩ ⟨5⟩ :=
  handsOn_iff.1 (by cbv)

/-- Subtyping composes at `List<? extends Number>`. -/
lemma middle_numbers : platform.Middle numbers := by
  refine .cls ⟨?_, by decide⟩ fun x hx _ => ?_
  · rintro _ ⟨⟩ p hp _
    obtain rfl := List.mem_singleton.1 hp
    exact handsOn_list
  · obtain rfl := List.mem_singleton.1 hx
    refine .wildExtends (.cls ⟨?_, nofun⟩ nofun)
    rintro _ ⟨⟩ p ⟨⟩

/-- Lists of integers are below those of numbers, these below the collections, and so are the first
below the last. -/
theorem subtype_trans_integers :
    platform.Regular ∧ platform.RegularType integers ∧ platform.RegularType numbers ∧
      platform.RegularType serializables ∧ platform.Middle numbers ∧
      (platform.subtype integers numbers).Gives true ∧
      (platform.subtype numbers serializables).Gives true ∧
      platform.Linear ∧ integers.Rigid ∧ serializables.Rigid ∧
      (platform.subtype integers serializables).Gives true := by
  have regularA : platform.RegularType integers :=
    ⟨regularArg_of_mem_collections (by decide +kernel), rfl⟩
  have regularB : platform.RegularType numbers :=
    ⟨regularArg_of_mem_collections (by decide +kernel), rfl⟩
  have regularC : platform.RegularType serializables :=
    ⟨regularArg_of_mem_collections (by decide +kernel), rfl⟩
  have below : (platform.subtype integers numbers).Gives true := ⟨3, [], by cbv⟩
  have above : (platform.subtype numbers serializables).Gives true := ⟨3, [], by cbv⟩
  have rigidA : integers.Rigid := by decide
  have rigidC : serializables.Rigid := by decide
  obtain ⟨_, whole⟩ :=
    subtype_trans regular_platform regularA regularB regularC middle_numbers below above
  exact ⟨regular_platform, regularA, regularB, regularC, middle_numbers, below, above,
    linear_platform, rigidA, rigidC, whole linear_platform rigidA rigidC⟩

end Platform

section Loose

/-- Whether the type is known at its top: a class is declared and has an argument for each type
parameter. -/
def isKnownAt (t : ClassTable) : Ty → Bool
  | .unknown => false
  | .cls c args => (t.class? c).any fun d => args.length = d.typeParams.length
  | _ => true

/-- The type is fully known and no wildcard. -/
def IsKnown (t : ClassTable) (x : Ty) : Prop :=
  x.subterms.all t.isKnownAt = true ∧ x.isWildcard = false

instance (t : ClassTable) (x : Ty) : Decidable (t.IsKnown x) :=
  inferInstanceAs (Decidable (_ ∧ _))

/-- `Object`, `Number`, `Integer`, `List<E>`, `B<X>`, `D<T> extends B<List<T>>`,
`A<U> extends B<U[]>`, a class `Root` that is not below `Object`, a `Marker` above `Cloneable`, and
`C extends N<N<? super C>>`. Of the type variables that belong to no class `W` has no bound, `Y` has
the bounds `Integer` from above and `Object` from below, and `Z` extends `List<int>`. -/
def loose : ClassTable where
  classes := #[
    ⟨"Object", .cls, [], none, [], []⟩,
    ⟨"Number", .cls, [], some (.cls ⟨0⟩ []), [], []⟩,
    ⟨"Integer", .cls, [], some (.cls ⟨1⟩ []), [], []⟩,
    ⟨"List", .interface, [⟨0⟩], none, [], []⟩,
    ⟨"B", .interface, [⟨1⟩], none, [], []⟩,
    ⟨"D", .interface, [⟨2⟩], none, [.cls ⟨4⟩ [.cls ⟨3⟩ [.var ⟨2⟩]]], []⟩,
    ⟨"A", .interface, [⟨3⟩], none, [.cls ⟨4⟩ [.array (.var ⟨3⟩)]], []⟩,
    ⟨"Root", .cls, [], none, [], []⟩,
    ⟨"Marker", .interface, [], none, [], []⟩,
    ⟨"Cloneable", .interface, [], none, [.cls ⟨8⟩ []], []⟩,
    ⟨"N", .interface, [⟨4⟩], none, [], []⟩,
    ⟨"C", .interface, [], none, [.cls ⟨10⟩ [.cls ⟨10⟩ [.wildSuper (.cls ⟨11⟩ [])]]], []⟩]
  params := #[
    ⟨"E", [], none⟩, ⟨"X", [], none⟩, ⟨"T", [], none⟩, ⟨"U", [], none⟩, ⟨"P", [], none⟩,
    ⟨"W", [], none⟩, ⟨"Y", [.cls ⟨2⟩ []], some (.cls ⟨0⟩ [])⟩,
    ⟨"Z", [.cls ⟨3⟩ [.prim .int]], none⟩]
  index := ∅
  wellKnown := ⟨⟨0⟩, ⟨0⟩, ⟨1⟩, ⟨2⟩, ⟨9⟩, ⟨9⟩⟩

namespace Loose

private def object : Ty := .cls ⟨0⟩ []
private def number : Ty := .cls ⟨1⟩ []
private def integer : Ty := .cls ⟨2⟩ []
private def list (arg : Ty) : Ty := .cls ⟨3⟩ [arg]
private def base (arg : Ty) : Ty := .cls ⟨4⟩ [arg]
private def marker : Ty := .cls ⟨8⟩ []
private def node (arg : Ty) : Ty := .cls ⟨10⟩ [arg]

/-- Two orders of one intersection: the types are identical and not equal. -/
private def left : Ty := list (.inter [marker, node integer])
private def right : Ty := list (.inter [node integer, marker])

/-- Types of which each is below the next, and the first is not below the last. -/
def gaps : List (Ty × Ty × Ty) := [
  -- Wildcards that are put below the top are not captured, and may come to stand anywhere.
  (.cls ⟨5⟩ [integer], .cls ⟨5⟩ [.wildExtends number], base (list (.wildExtends number))),
  (.cls ⟨6⟩ [.wild], base (.wildSuper (.array object)), base (.wildSuper (.array (.var ⟨5⟩)))),
  (.array (.var ⟨5⟩), .array object, .array .wild),
  (list (.var ⟨5⟩), list (.wildExtends object), list (.wildExtends .wild)),
  (.var ⟨5⟩, object, .inter [object, .wild]),
  -- The wildcard without a bound includes what is not below `Object`.
  (list (.cls ⟨7⟩ []), list .wild, list (.wildExtends object)),
  (list (.prim .int), list .wild, list (.wildExtends object)),
  (list (.wildExtends (.prim .int)), list .wild, list (.wildExtends object)),
  (list (.inter [.prim .int, .prim .long]), list .wild, list (.wildExtends object)),
  (.var ⟨7⟩, list .wild, list (.wildExtends object)),
  (list .wild, list (.wildExtends object), list (.wildExtends (.inter [object]))),
  -- Arrays are below `Cloneable` only, and a lower bound need not be below the upper one.
  (.array (.prim .int), .cls ⟨9⟩ [], marker),
  (object, .var ⟨6⟩, integer),
  -- Identical types are not equal: the first intersection has only one of the members twice.
  (list (.inter [left, marker]), list (.inter [left, right]),
    list (.wildSuper (.inter [left, right])))]

/-- Types of which each is below the next, but whether the first is below the last is a question
that goes round in circles: it is first asked of the class `C`. -/
def knot : Ty × Ty × Ty :=
  (.inter [.cls ⟨11⟩ [], node object], node object, node (.wildSuper (.cls ⟨11⟩ [])))

end Loose

/-- The question tied in a knot asks itself, so it has no end. -/
lemma not_ends_knot : ¬(loose.subtype Loose.knot.1 Loose.knot.2.2).Ends := by
  have circle : loose.subtypePlan (.cls ⟨11⟩ []) Loose.knot.2.2 =
      .every [.subtype (.cls ⟨11⟩ []) Loose.knot.2.2] := by
    cbv
  rintro ⟨r, h⟩
  rw [gives_subtype_iff, Loose.knot, subtypePlan_inter_left rfl rfl] at h
  obtain ⟨r, h, _⟩ := Query.gives_bind_iff.1 h
  exact not_ends_of_plan circle ⟨r, h⟩

/-- All gaps are answered within nine steps: with yes for both halves and with no for the whole. -/
lemma gives_gaps : Loose.gaps.all (fun (a, b, c) =>
    ((loose.subtype a b).attempt 9).map Prod.fst = some true &&
      ((loose.subtype b c).attempt 9).map Prod.fst = some true &&
        ((loose.subtype a c).attempt 9).map Prod.fst = some false) = true := by
  cbv

/-- Subtyping is not transitive on the types of the gaps and the knot, though all of them are
known. -/
theorem subtype_not_transitive_loose :
    loose.WellScoped ∧ loose.Acyclic ∧ (∀ v, loose.boundCycle? [] (.var v) = none) ∧
      loose.SingleInstantiation ∧
      (∀ d ∈ loose.classes, ∀ s ∈ d.supertypes, loose.IsKnown s ∧
        ∀ c ∈ s.asClass?, ∀ a ∈ c.args, a.isWildcard = false) ∧
      (∀ p ∈ Loose.gaps, loose.IsKnown p.1 ∧ loose.IsKnown p.2.1 ∧ loose.IsKnown p.2.2 ∧
        (loose.subtype p.1 p.2.1).Gives true ∧ (loose.subtype p.2.1 p.2.2).Gives true ∧
          (loose.subtype p.1 p.2.2).Gives false) ∧
      loose.IsKnown Loose.knot.1 ∧ loose.IsKnown Loose.knot.2.1 ∧ loose.IsKnown Loose.knot.2.2 ∧
        (loose.subtype Loose.knot.1 Loose.knot.2.1).Gives true ∧
          (loose.subtype Loose.knot.2.1 Loose.knot.2.2).Gives true ∧
            ¬(loose.subtype Loose.knot.1 Loose.knot.2.2).Ends := by
  have wellScoped : loose.WellScoped := by decide +kernel
  refine ⟨wellScoped, acyclic_of_rank wellScoped.isClass ClassId.raw (by decide +kernel),
    boundCycle?_of_params (by cbv), singleInstantiation_of_walksClosed (by cbv), by decide +kernel,
    fun p hp => ?_, by decide +kernel, by decide +kernel, by decide +kernel,
    ⟨4, [], by cbv⟩, ⟨4, [], by cbv⟩, not_ends_knot⟩
  have known : ∀ p ∈ Loose.gaps, loose.IsKnown p.1 ∧ loose.IsKnown p.2.1 ∧ loose.IsKnown p.2.2 := by
    decide +kernel
  obtain ⟨ha, hb, hc⟩ := known p hp
  have answers := List.all_eq_true.1 gives_gaps p hp
  simp only [Bool.and_eq_true, decide_eq_true_eq] at answers
  exact ⟨ha, hb, hc, Query.gives_of_attempt answers.1.1, Query.gives_of_attempt answers.1.2,
    Query.gives_of_attempt answers.2⟩

end Loose

end ClassTable

end LambdaTyping
