import LambdaTyping.Proofs.Type.Subterms
import LambdaTyping.Type.Erasure
import Mathlib.Algebra.BigOperators.Group.Finset.Basic

/-!
# What erasures look like

An erased type is a class type without arguments, an array of erased types, or one of the types that
are not built of others (`IsErased`). So it mentions no variable and is normal, no substitution
changes it, and no wildcard stands in it. Erasure leads to erased types and leaves them alone.

A substitution that puts in types of the same erasure does not change the erasure of a type
(`erasure_rebuild`), whatever becomes of the intersections in it.

`Erases` gives the runs of erasure with the number of calls in them. The bound of a variable is
opened once, since the variable is on the way from then on; so the calls are bounded by the spine of
the type and those of the bounds in the table (`Erases.calls_le`).
-/

namespace LambdaTyping

namespace Ty

/-- Nothing is left to erase of the type. -/
inductive IsErased : Ty → Prop
  | void : IsErased .void
  | null : IsErased .null
  | unknown : IsErased .unknown
  | prim (p : Primitive) : IsErased (.prim p)
  | array {e : Ty} : IsErased e → IsErased (.array e)
  | cls (c : ClassId) : IsErased (.cls c [])

namespace IsErased

variable {x : Ty}

/-- An erased type mentions no variable. -/
lemma mentions (h : x.IsErased) (v : TypeVarId) : x.mentions v = false := by
  induction h with
  | array _ ih => exact ih
  | _ => rfl

/-- An erased type is normal. -/
lemma normal (h : x.IsErased) : x.Normal := by
  induction h with
  | array _ ih => exact normal_array.2 ih
  | cls c => exact normal_cls.2 (List.forall_mem_nil _)
  | _ => rfl

/-- An erased type is proper and no wildcard. -/
lemma properType (h : x.IsErased) : x.ProperType := by
  induction h with
  | array _ ih => exact ⟨proper_array.2 ih, rfl⟩
  | _ => exact ⟨proper_of_atom rfl rfl, rfl⟩

/-- An erased type is no intersection. -/
lemma isIntersection (h : x.IsErased) : x.isIntersection = false := by
  cases h with
  | _ => rfl

/-- An erased type is no variable. -/
lemma ne_var (h : x.IsErased) (v : TypeVarId) : x ≠ .var v := by
  rintro rfl
  cases h

end IsErased

end Ty

namespace ClassTable

section Variables

variable {t : ClassTable} {v : TypeVarId} {seen : List TypeVarId} {b : Ty}

/-- A variable erases as its leftmost bound does, with the variable on the way. -/
lemma eraseFrom_of_bound (fresh : v ∉ seen) (hb : t.firstBound? v = some b) :
    t.eraseFrom seen (.var v) = t.eraseFrom (v :: seen) b := by
  rw [eraseFrom, if_neg fresh]
  split
  · rename_i b' hb'
    rw [Option.some_inj.1 (hb'.symm.trans hb)]
  · rename_i none
    cases none.symm.trans hb

/-- A variable without bounds erases to `Object`. -/
lemma eraseFrom_of_unbounded (fresh : v ∉ seen) (none : t.firstBound? v = none) :
    t.eraseFrom seen (.var v) = t.objectType := by
  rw [eraseFrom, if_neg fresh]
  split
  · rename_i b' hb'
    cases none.symm.trans hb'
  · rfl

end Variables

section Projection

/-- Whatever variables are on the way, an erased type comes out. -/
lemma isErased_eraseFrom (t : ClassTable) (seen : List TypeVarId) (x : Ty) :
    (t.eraseFrom seen x).IsErased := by
  fun_induction eraseFrom t seen x with
  | case1 seen c args => exact .cls c
  | case2 seen e ih => exact .array ih
  | case4 seen v fresh b hb ih => exact ih
  | case7 seen m ms ih => exact ih
  | case8 seen b ih => exact ih
  | case11 => exact .void
  | case12 => exact .null
  | case13 => exact .unknown
  | case14 seen p => exact .prim p
  | _ => exact .cls _

/-- An erasure is an erased type. -/
lemma isErased_erasure (t : ClassTable) (ty : Ty) : (t.erasure ty).IsErased :=
  t.isErased_eraseFrom [] ty

/-- An erasure is normal. -/
lemma normal_erasure (t : ClassTable) (ty : Ty) : (t.erasure ty).Normal :=
  (t.isErased_erasure ty).normal

/-- An erasure is proper and no wildcard. -/
lemma properType_erasure (t : ClassTable) (ty : Ty) : (t.erasure ty).ProperType :=
  (t.isErased_erasure ty).properType

/-- An erasure mentions no variable. -/
lemma mentions_erasure (t : ClassTable) (ty : Ty) (v : TypeVarId) :
    (t.erasure ty).mentions v = false :=
  (t.isErased_erasure ty).mentions v

/-- An erasure is no intersection. -/
lemma isIntersection_erasure (t : ClassTable) (ty : Ty) :
    (t.erasure ty).isIntersection = false :=
  (t.isErased_erasure ty).isIntersection

/-- An erased type erases to itself, whatever variables are on the way. -/
lemma eraseFrom_of_isErased (t : ClassTable) (seen : List TypeVarId) {x : Ty} (h : x.IsErased) :
    t.eraseFrom seen x = x := by
  induction h with
  | array _ ih => rw [eraseFrom, ih]
  | _ => rw [eraseFrom]

/-- The types that erasure leaves alone are those of which nothing is left to erase. -/
lemma erasure_eq_self_iff {t : ClassTable} {x : Ty} : t.erasure x = x ↔ x.IsErased := by
  constructor
  · intro h
    rw [← h]
    exact t.isErased_erasure x
  · exact t.eraseFrom_of_isErased []

/-- Nothing is left to erase of an erasure. -/
lemma erasure_erasure (t : ClassTable) (ty : Ty) : t.erasure (t.erasure ty) = t.erasure ty :=
  erasure_eq_self_iff.2 (t.isErased_erasure ty)

end Projection

section Equations

variable (t : ClassTable)

/-- A class type erases to its class. -/
lemma erasure_cls (c : ClassId) (args : List Ty) : t.erasure (.cls c args) = .cls c [] := by
  rw [erasure, eraseFrom]

/-- An array erases to the array of its erased elements. -/
lemma erasure_array (e : Ty) : t.erasure (.array e) = .array (t.erasure e) := by
  rw [erasure, eraseFrom, erasure]

/-- A wildcard erases as its upper bound does. -/
lemma erasure_wildExtends (b : Ty) : t.erasure (.wildExtends b) = t.erasure b := by
  rw [erasure, eraseFrom, erasure]

/-- A wildcard with a lower bound erases to `Object`. -/
lemma erasure_wildSuper (b : Ty) : t.erasure (.wildSuper b) = t.objectType := by
  rw [erasure, eraseFrom]

/-- An intersection erases as its first member does. -/
lemma erasure_inter_cons (m : Ty) (ms : List Ty) :
    t.erasure (.inter (m :: ms)) = t.erasure m := by
  rw [erasure, eraseFrom, erasure]

end Equations

section Substitution

variable {t : ClassTable} {s : Subst} {x : Ty}

/-- A substitution leaves an erasure as it stands. -/
lemma rebuild_erasure (t : ClassTable) (s : Subst) (ty : Ty) :
    s.rebuild (t.erasure ty) = t.erasure ty := by
  refine Subst.rebuild_eq_self (t.normal_erasure ty) fun v hv => ?_
  rw [mentions_erasure] at hv
  cases hv

/-- A type erases as its first member does. -/
lemma erasure_of_members {m : Ty} {ms : List Ty} (h : x.members = m :: ms) :
    t.erasure x = t.erasure m := by
  cases x with
  | inter ms' =>
    obtain rfl : ms' = m :: ms := h
    exact t.erasure_inter_cons m ms
  | _ =>
    obtain ⟨rfl, -⟩ := List.cons_eq_cons.1 h
    rfl

/-- An intersection erases to its first member, which is opened if it is an intersection. -/
lemma erasure_intersection_cons (hx : x.members ≠ []) (xs : List Ty) :
    t.erasure (.intersection (x :: xs)) = t.erasure x := by
  obtain ⟨m, ms, opened⟩ := List.exists_cons_of_ne_nil hx
  rw [erasure_of_members opened, Ty.intersection, List.flatMap_cons, opened, List.cons_append,
    List.eraseDups_cons]
  split
  · rename_i none
    cases none
  · rename_i one
    obtain ⟨rfl, -⟩ := List.cons_eq_cons.1 one
    rfl
  · exact t.erasure_inter_cons m _

/-- A substitution that changes no variable's erasure changes no normal type's. The first member of
an intersection may be opened or be all that is left, but it stays in the first place. -/
lemma erasure_rebuild (normal : s.Normal)
    (image : ∀ v, t.erasure (s.rebuild (.var v)) = t.erasure (.var v)) (hx : x.Normal) :
    t.erasure (s.rebuild x) = t.erasure x := by
  induction x using Ty.rec_members with
  | var v => exact image v
  | array e ih => rw [Subst.rebuild_array, erasure_array, erasure_array, ih hx]
  | cls c args => rw [Subst.rebuild_cls, erasure_cls, erasure_cls]
  | wildExtends b ih =>
    rw [Subst.rebuild_wildExtends, erasure_wildExtends, erasure_wildExtends, ih hx]
  | wildSuper b => rw [Subst.rebuild_wildSuper, erasure_wildSuper, erasure_wildSuper]
  | inter ms ih =>
    obtain ⟨m, ms, rfl⟩ := List.exists_cons_of_ne_nil hx.members_ne_nil
    have first : m ∈ m :: ms := List.mem_cons_self
    rw [Subst.rebuild_inter, List.map_cons,
      erasure_intersection_cons (normal.rebuild m).members_ne_nil, erasure_inter_cons]
    exact ih m first (hx.of_mem_members first).2
  | _ => rfl

end Substitution

end ClassTable

/-! ### Runs -/

/-- How many calls erasure makes in the type before it comes to a variable or to an end. -/
def Ty.spine : Ty → ℕ
  | .array e => e.spine + 1
  | .inter (m :: _) => m.spine + 1
  | .wildExtends b => b.spine + 1
  | _ => 0

namespace ClassTable

/-- The calls that a variable adds to a run that opens its bound. -/
def boundCalls (t : ClassTable) (v : TypeVarId) : ℕ :=
  (t.firstBound? v).elim 0 fun b => b.spine + 1

/-- The calls that the variables which are not in the list can add to a run. -/
def callsOutside (t : ClassTable) (seen : List TypeVarId) : ℕ :=
  ∑ i ∈ Finset.range t.params.size with ⟨i⟩ ∉ seen, t.boundCalls ⟨i⟩

/-- With these variables on the way, erasing a type makes so many calls for other types and comes to
this type. -/
inductive Erases (t : ClassTable) : List TypeVarId → Ty → Ty → ℕ → Prop where
  | cls {seen c args} :
    Erases t seen (.cls c args) (.cls c []) 0
  | array {seen e x n} :
    Erases t seen e x n →
    Erases t seen (.array e) (.array x) (n + 1)
  | again {seen v} :
    v ∈ seen →
    Erases t seen (.var v) t.objectType 0
  | bound {seen v b x n} :
    v ∉ seen →
    t.firstBound? v = some b →
    Erases t (v :: seen) b x n →
    Erases t seen (.var v) x (n + 1)
  | unbounded {seen v} :
    v ∉ seen →
    t.firstBound? v = none →
    Erases t seen (.var v) t.objectType 0
  | member {seen m ms x n} :
    Erases t seen m x n →
    Erases t seen (.inter (m :: ms)) x (n + 1)
  | noMember {seen} :
    Erases t seen (.inter []) t.objectType 0
  | wildExtends {seen b x n} :
    Erases t seen b x n →
    Erases t seen (.wildExtends b) x (n + 1)
  | wildSuper {seen b} :
    Erases t seen (.wildSuper b) t.objectType 0
  | wild {seen} :
    Erases t seen .wild t.objectType 0
  | void {seen} :
    Erases t seen .void .void 0
  | null {seen} :
    Erases t seen .null .null 0
  | unknown {seen} :
    Erases t seen .unknown .unknown 0
  | prim {seen p} :
    Erases t seen (.prim p) (.prim p) 0

variable {t : ClassTable} {seen : List TypeVarId} {x y z : Ty} {v : TypeVarId} {n k : ℕ}

/-- Each erasure is reached by a run with some number of calls. -/
lemma exists_erases (t : ClassTable) (seen : List TypeVarId) (x : Ty) :
    ∃ n, t.Erases seen x (t.eraseFrom seen x) n := by
  fun_induction eraseFrom t seen x with
  | case1 => exact ⟨_, .cls⟩
  | case2 seen e ih =>
    obtain ⟨n, run⟩ := ih
    exact ⟨_, .array run⟩
  | case3 seen v again => exact ⟨_, .again again⟩
  | case4 seen v fresh b hb ih =>
    obtain ⟨n, run⟩ := ih
    exact ⟨_, .bound fresh hb run⟩
  | case5 seen v fresh none => exact ⟨_, .unbounded fresh none⟩
  | case6 => exact ⟨_, .noMember⟩
  | case7 seen m ms ih =>
    obtain ⟨n, run⟩ := ih
    exact ⟨_, .member run⟩
  | case8 seen b ih =>
    obtain ⟨n, run⟩ := ih
    exact ⟨_, .wildExtends run⟩
  | case9 => exact ⟨_, .wild⟩
  | case10 => exact ⟨_, .wildSuper⟩
  | case11 => exact ⟨_, .void⟩
  | case12 => exact ⟨_, .null⟩
  | case13 => exact ⟨_, .unknown⟩
  | case14 => exact ⟨_, .prim⟩

/-- A type has one run of erasure. -/
lemma Erases.unique (h : t.Erases seen x y n) (h' : t.Erases seen x z k) : z = y ∧ k = n := by
  induction h generalizing z k with
  | array _ ih =>
    cases h' with
    | array run =>
      obtain ⟨rfl, rfl⟩ := ih run
      exact ⟨rfl, rfl⟩
  | again again =>
    cases h' with
    | again => exact ⟨rfl, rfl⟩
    | bound fresh | unbounded fresh => exact absurd again fresh
  | bound fresh hb _ ih =>
    cases h' with
    | again again => exact absurd again fresh
    | bound _ hb' run =>
      obtain rfl := Option.some_inj.1 (hb.symm.trans hb')
      obtain ⟨rfl, rfl⟩ := ih run
      exact ⟨rfl, rfl⟩
    | unbounded _ none => cases hb.symm.trans none
  | unbounded fresh none =>
    cases h' with
    | again again => exact absurd again fresh
    | bound _ hb => cases none.symm.trans hb
    | unbounded => exact ⟨rfl, rfl⟩
  | member _ ih =>
    cases h' with
    | member run =>
      obtain ⟨rfl, rfl⟩ := ih run
      exact ⟨rfl, rfl⟩
  | wildExtends _ ih =>
    cases h' with
    | wildExtends run =>
      obtain ⟨rfl, rfl⟩ := ih run
      exact ⟨rfl, rfl⟩
  | _ =>
    cases h'
    exact ⟨rfl, rfl⟩

/-- A variable that comes on the way can add its calls no more. -/
lemma callsOutside_eq_add (declared : (t.param? v).isSome) (fresh : v ∉ seen) :
    t.callsOutside seen = t.boundCalls v + t.callsOutside (v :: seen) := by
  have mem : v.raw ∈ (Finset.range t.params.size).filter (⟨·⟩ ∉ seen) := by
    refine Finset.mem_filter.2 ⟨Finset.mem_range.2 ?_, fresh⟩
    simpa [param?] using declared
  have rest : (Finset.range t.params.size).filter (⟨·⟩ ∉ v :: seen) =
      ((Finset.range t.params.size).filter (⟨·⟩ ∉ seen)).erase v.raw := by
    ext i
    obtain ⟨j⟩ := v
    simp only [Finset.mem_filter, Finset.mem_erase, List.mem_cons, not_or, TypeVarId.mk.injEq]
    tauto
  rw [callsOutside, callsOutside, rest]
  exact (Finset.add_sum_erase _ (fun i => t.boundCalls ⟨i⟩) mem).symm

/-- Erasure makes no more calls than lead down the type and down the first bound of each variable
that is not on the way yet. -/
lemma Erases.calls_le (h : t.Erases seen x y n) : n ≤ x.spine + t.callsOutside seen := by
  induction h with
  | array _ ih | member _ ih | wildExtends _ ih =>
    rw [Ty.spine]
    omega
  | @bound seen v b _ _ fresh hb _ ih =>
    have opened : t.boundCalls v = b.spine + 1 := by rw [boundCalls, hb, Option.elim_some]
    rw [callsOutside_eq_add (isSome_param?_of_firstBound? hb) fresh, opened]
    omega
  | _ => exact Nat.zero_le _

end ClassTable

end LambdaTyping
