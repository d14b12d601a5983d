import LambdaTyping.Event
import LambdaTyping.Table.Basic

/-!
# Erasure

The erasure of a type variable is the erasure of its leftmost bound, that of a class type the class
alone. Bounds may lead back to the variable they bound; a variable met twice erases to `Object`.
-/

namespace LambdaTyping

namespace ClassTable

/-- The leftmost upper bound of a type variable. -/
def firstBound? (t : ClassTable) (v : TypeVarId) : Option Ty :=
  (t.upperBounds v).head?

/-- Only a declared type parameter has a leftmost bound. -/
theorem isSome_param?_of_firstBound? {t : ClassTable} {v : TypeVarId} {b : Ty}
    (h : t.firstBound? v = some b) : (t.param? v).isSome := by
  cases hp : t.param? v with
  | none => simp [firstBound?, upperBounds, hp] at h
  | some p => rfl

/-- The erasure of a type met on the way through the bounds of some variables. -/
def eraseFrom (t : ClassTable) (seen : List TypeVarId) : Ty → Ty
  | .cls c _ => .cls c []
  | .array e => .array (t.eraseFrom seen e)
  | .var v =>
    if v ∈ seen then t.objectType
    else
      match _h : t.firstBound? v with
      | some b => t.eraseFrom (v :: seen) b
      | none => t.objectType
  | .inter [] => t.objectType
  | .inter (m :: _) => t.eraseFrom seen m
  | .wildExtends b => t.eraseFrom seen b
  | .wild | .wildSuper _ => t.objectType
  | .void => .void
  | .null => .null
  | .unknown => .unknown
  | .prim p => .prim p
termination_by ty => (t.paramsOutside seen, sizeOf ty)
decreasing_by
  · decreasing_tactic
  · exact .left _ _ (paramsOutside_cons_lt (isSome_param?_of_firstBound? _h) ‹_›)
  · decreasing_tactic
  · decreasing_tactic

/-- The erasure of a type. -/
def erasure (t : ClassTable) (ty : Ty) : Ty :=
  t.eraseFrom [] ty

/-- The variable at which the erasure of a type comes back to itself. -/
def boundCycle? (t : ClassTable) (seen : List TypeVarId) : Ty → Option TypeVarId
  | .array e => t.boundCycle? seen e
  | .var v =>
    if v ∈ seen then some v
    else
      match _h : t.firstBound? v with
      | some b => t.boundCycle? (v :: seen) b
      | none => none
  | .inter (m :: _) => t.boundCycle? seen m
  | .wildExtends b => t.boundCycle? seen b
  | _ => none
termination_by ty => (t.paramsOutside seen, sizeOf ty)
decreasing_by
  · decreasing_tactic
  · exact .left _ _ (paramsOutside_cons_lt (isSome_param?_of_firstBound? _h) ‹_›)
  · decreasing_tactic
  · decreasing_tactic

/-- What the erasure of a type reports: the variable whose bounds are cyclic. -/
def erasureEvents (t : ClassTable) (ty : Ty) : List Event :=
  (t.boundCycle? [] ty).toList.map .cyclicBound

end ClassTable

end LambdaTyping
