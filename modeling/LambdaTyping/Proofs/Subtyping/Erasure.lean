import LambdaTyping.Proofs.Subtyping.Top
import LambdaTyping.Proofs.Type.Erasure

/-!
# Types below their erasures

Erasure follows the leftmost bound of a variable and stops at a variable that it has passed before;
subtyping follows any bound and does not stop. A variable that was passed on the way to a type opens
into the type, unless an array lies between, and what opens into an array is below `Object`
(`Passed.element`). If bounds are acyclic, no variable opens into itself, so one that is passed a
second time is below `Object`, which is its erasure there (`below_eraseFrom`).
-/

namespace LambdaTyping.ClassTable

variable {t : ClassTable} {x y : Ty} {v w : TypeVarId}

section Erased

/-- A type that is made of reference types as far as it can be opened has a reference type as its
erasure. -/
lemma isReference_eraseFrom (bounds : ∀ v, ∀ u ∈ t.upperBounds v, u.IsReferential)
    (seen : List TypeVarId) (hx : x.IsReferential) : (t.eraseFrom seen x).isReference = true := by
  fun_induction eraseFrom t seen x with
  | case4 seen v fresh b hb ih => exact ih (bounds v b (List.mem_of_mem_head? hb))
  | case7 seen m ms ih => exact ih (isReferential_of_opens bounds hx (.member List.mem_cons_self))
  | case8 seen b ih => exact ih (isReferential_of_opens bounds hx .wildcard)
  | case11 | case13 | case14 => cases hx.reference
  | _ => rfl

/-- A type that is no reference type is its own erasure. -/
lemma eraseFrom_of_not_reference {seen : List TypeVarId} (ref : ¬x.isReference = true) :
    t.eraseFrom seen x = x := by
  cases x with
  | void | unknown | prim => rw [eraseFrom]
  | _ => exact absurd rfl ref

end Erased

section Below

/-- A class type is below the raw use of its class. -/
lemma below_raw (t : ClassTable) (c : ClassId) (args : List Ty) :
    t.Below (.cls c args) (.cls c []) := by
  refine below_cls ((classPlan_holds_iff fun _ => Goal.met_known_iff).2 ?_)
  exact ⟨_, classView?_self t ⟨c, args⟩, .inl rfl⟩

/-- A type is below the erasure of what it opens into, if that is. -/
lemma below_eraseFrom_of_opens (bounds : ∀ v, ∀ u ∈ t.upperBounds v, u.IsReferential)
    {seen : List TypeVarId} (hy : y.IsReferential) (opens : t.Opens x y)
    (h : t.Below y (t.eraseFrom seen y)) : t.Below x (t.eraseFrom seen y) :=
  have erased := t.isErased_eraseFrom seen y
  below_of_opens (isReference_eraseFrom bounds seen hy) erased.isIntersection erased.ne_var opens h

/-- What is known of a variable that was passed on the way to a type: it opens into the type, or it
is below `Object`. -/
def Passed (t : ClassTable) (v : TypeVarId) (x : Ty) : Prop :=
  Relation.TransGen t.Opens (.var v) x ∨ t.Below (.var v) t.objectType

/-- A variable passed on the way to a type was passed on the way to what the type opens into. -/
lemma Passed.opens (h : t.Passed v x) (opens : t.Opens x y) : t.Passed v y :=
  h.imp_left fun path => path.tail opens

/-- A type is below `Object` if it opens into one that is. -/
lemma below_objectType_of_opens (path : Relation.TransGen t.Opens x y)
    (h : t.Below y t.objectType) : t.Below x t.objectType := by
  induction path using Relation.TransGen.head_induction_on with
  | single opens => exact below_of_opens rfl rfl nofun opens h
  | head opens _ ih => exact below_of_opens rfl rfl nofun opens ih

/-- What opens into an array is below `Object`, whatever the elements of the array are. -/
lemma Passed.element {e : Ty} (h : t.Passed v (.array e)) : t.Passed v e := by
  refine .inr ?_
  rcases h with path | below
  · exact below_objectType_of_opens path (below_arrayClass (by simp [isArraySuperclass]))
  · exact below

variable (acyclic : t.AcyclicBounds) (bounds : ∀ v, ∀ u ∈ t.upperBounds v, u.IsReferential)

include acyclic bounds

/-- With acyclic bounds a type is below its erasure, past any variables, by induction along the
erasure. -/
lemma below_eraseFrom {seen : List TypeVarId} (passed : ∀ w ∈ seen, t.Passed w x)
    (parts : x.HasReferenceParts) : t.Below x (t.eraseFrom seen x) := by
  fun_induction eraseFrom t seen x with
  | case1 seen c args => exact below_raw t c args
  | case2 seen e ih =>
    have parts := (Ty.everywhere_array.1 parts).2
    have below := ih (fun w hw => (passed w hw).element) parts
    by_cases ref : e.isReference = true
    · exact below_array ref (isReference_eraseFrom bounds seen ⟨ref, parts⟩) below
    · rw [eraseFrom_of_not_reference ref]
  | case3 seen v again =>
    -- The variable is not opened into itself, so an array lay between.
    exact (passed v again).resolve_left (acyclic v)
  | case4 seen v fresh b hb ih =>
    have hb : b ∈ t.upperBounds v := List.mem_of_mem_head? hb
    have opens : t.Opens (.var v) b := .bound hb
    have referential := bounds v b hb
    have passed : ∀ w ∈ v :: seen, t.Passed w b :=
      List.forall_mem_cons.2 ⟨.inl (.single opens), fun w hw => (passed w hw).opens opens⟩
    exact below_eraseFrom_of_opens bounds referential opens (ih passed referential.parts)
  | case5 seen v fresh none =>
    exact below_of_unbounded rfl rfl (List.head?_eq_none_iff.1 none) (decide_eq_true rfl)
  | case6 => exact absurd rfl (Ty.hasReferenceParts_inter.1 parts).1
  | case7 seen m ms ih =>
    have opens : t.Opens (.inter (m :: ms)) m := .member List.mem_cons_self
    have referential := isReferential_of_opens bounds ⟨rfl, parts⟩ opens
    exact below_eraseFrom_of_opens bounds referential opens
      (ih (fun w hw => (passed w hw).opens opens) referential.parts)
  | case8 seen b ih =>
    have referential := isReferential_of_opens bounds ⟨rfl, parts⟩ .wildcard
    exact below_eraseFrom_of_opens bounds referential .wildcard
      (ih (fun w hw => (passed w hw).opens .wildcard) referential.parts)
  | case9 | case10 => exact below_iff.2 (Plan.met_known_iff.2 (decide_eq_true rfl))
  | _ => exact below_self t _

/-- A type is below its erasure, if bounds are acyclic reference types and what stands in
intersections and under wildcards, in the type and in the bounds, are reference types. -/
theorem subtype_erasure (parts : x.HasReferenceParts) : (t.subtype x (t.erasure x)).Gives true := by
  have below : t.Below x (t.erasure x) := below_eraseFrom acyclic bounds nofun parts
  obtain ⟨r, given⟩ := ends_of_terminates
    (terminates_of_isErased acyclic (t.isErased_erasure x) x)
  rwa [(gives_subtype given).2 below] at given

end Below

/-- `Object`, `Number` and `Comparable<E>`, in this order. Of the other type variables, `T` has the
bounds `Comparable<T>` and `Number`, `U` the bound `T`, and `V` the bound `V[]`. -/
def selfBounded : ClassTable where
  classes := #[
    ⟨"Object", .cls, [], none, [], []⟩,
    ⟨"Number", .cls, [], some (.cls ⟨0⟩ []), [], []⟩,
    ⟨"Comparable", .interface, [⟨0⟩], none, [], []⟩]
  params := #[⟨"E", [], none⟩, ⟨"T", [.cls ⟨2⟩ [.var ⟨1⟩], .cls ⟨1⟩ []], none⟩,
    ⟨"U", [.var ⟨1⟩], none⟩, ⟨"V", [.array (.var ⟨3⟩)], none⟩]
  index := ∅
  wellKnown := ⟨⟨0⟩, ⟨0⟩, ⟨1⟩, ⟨0⟩, ⟨0⟩, ⟨0⟩⟩

/-- Variables, an array and a wildcard of them, and a class and a variable that are not declared,
with their erasures. -/
def selfBoundedErasures : List (Ty × Ty) :=
  [(.var ⟨2⟩, .cls ⟨2⟩ []), (.var ⟨3⟩, .array (.cls ⟨0⟩ [])),
    (.array (.inter [.var ⟨2⟩, .var ⟨3⟩]), .array (.cls ⟨2⟩ [])),
    (.wildExtends (.var ⟨2⟩), .cls ⟨2⟩ []), (.cls ⟨7⟩ [.wild], .cls ⟨7⟩ []),
    (.var ⟨7⟩, .cls ⟨0⟩ [])]

/-- The bounds of the self-bounded table are acyclic, and its types are below their erasures. -/
theorem subtype_erasure_selfBounded :
    selfBounded.AcyclicBounds ∧ (∀ v, ∀ u ∈ selfBounded.upperBounds v, u.IsReferential) ∧
      ∀ p ∈ selfBoundedErasures, p.1.HasReferenceParts ∧ selfBounded.erasure p.1 = p.2 ∧
        (selfBounded.subtype p.1 p.2).Gives true := by
  have acyclic : selfBounded.AcyclicBounds :=
    acyclicBounds_of_exposed TypeVarId.raw (by decide +kernel)
  have bounds (v : TypeVarId) (u : Ty) (hu : u ∈ selfBounded.upperBounds v) : u.IsReferential := by
    obtain ⟨p, hp, hu⟩ := exists_param_of_mem_upperBounds hu
    have all : ∀ p ∈ selfBounded.params, ∀ u ∈ p.upperBounds, u.IsReferential := by
      decide +kernel
    exact all p hp u hu
  have parts : ∀ p ∈ selfBoundedErasures, p.1.HasReferenceParts := by decide +kernel
  have erasures : selfBoundedErasures.all (fun p => selfBounded.erasure p.1 = p.2) = true := by
    cbv
  refine ⟨acyclic, bounds, fun p hp => ?_⟩
  have erased : selfBounded.erasure p.1 = p.2 :=
    of_decide_eq_true (List.all_eq_true.1 erasures p hp)
  exact ⟨parts p hp, erased, erased ▸ subtype_erasure acyclic bounds (parts p hp)⟩

/-- `Object` and `String`, in this order, with `T extends int & String` and, for its bound, the
wildcard `? extends int` of `U`. -/
def primitiveBounded : ClassTable where
  classes := #[
    ⟨"Object", .cls, [], none, [], []⟩,
    ⟨"String", .cls, [], some (.cls ⟨0⟩ []), [], []⟩]
  params := #[⟨"T", [.inter [.prim .int, .cls ⟨1⟩ []]], none⟩,
    ⟨"U", [.wildExtends (.prim .int)], none⟩]
  index := ∅
  wellKnown := ⟨⟨0⟩, ⟨1⟩, ⟨0⟩, ⟨0⟩, ⟨0⟩, ⟨0⟩⟩

/-- The bounds are known reference types in normal form, but what stands in them is not; the
variables are not below their erasures. -/
theorem not_subtype_erasure_primitiveBounded :
    primitiveBounded.AcyclicBounds ∧
      (∀ p ∈ primitiveBounded.params, ∀ u ∈ p.upperBounds,
        u.isReference = true ∧ u.Normal ∧ u.Everywhere (· ≠ .unknown)) ∧
      ∀ v ∈ ([⟨0⟩, ⟨1⟩] : List TypeVarId),
        primitiveBounded.erasure (.var v) = .prim .int ∧
          (primitiveBounded.subtype (.var v) (.prim .int)).Gives false := by
  refine ⟨acyclicBounds_of_exposed TypeVarId.raw (by decide +kernel), by decide +kernel, ?_⟩
  simp only [List.mem_cons, List.not_mem_nil, or_false, forall_eq_or_imp, forall_eq]
  exact ⟨⟨by cbv, 3, [], by cbv⟩, by cbv, 3, [], by cbv⟩

end LambdaTyping.ClassTable
