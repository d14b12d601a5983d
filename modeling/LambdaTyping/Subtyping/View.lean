import LambdaTyping.Subtyping.Basic

/-!
# Views

A type viewed as one of its superclasses, with the type arguments that it has there: an
`ArrayList<String>` viewed as a `List` is a `List<String>`. An intersection or a type variable may
be viewed through several of its members; `mergeViews` chooses among the views.
-/

namespace LambdaTyping.ClassTable

/-- Of two views as the same class, the one with fewer unknown parts, then the one that is a
subtype of the other, the first if each is. Views that are unrelated exclude each other. -/
def mergeViews (t : ClassTable) (a b : Ty) : Query (Option Ty) :=
  if a = b then return some a
  else if a.placeholders < b.placeholders then return some a
  else if b.placeholders < a.placeholders then return some b
  else do
    let below ← t.subtype a b
    let above ← t.subtype b a
    return if below then some a else if above then some b else none

/-- The view of a class type as a class. -/
def viewClass (t : ClassTable) (target : ClassId) (c : ClassTy) : Query (Option Ty) := do
  Query.report (t.closureEvents c.toTy)
  return (t.classView? c target).map ClassTy.toTy

mutual

/-- The view of a type as a class, met on the way through the bounds of some variables. -/
def viewFrom (t : ClassTable) (target : ClassId) (seen : List TypeVarId) : Ty → Query (Option Ty)
  | .array _ => return if t.isArraySuperclass target then some (.cls target []) else none
  | .inter ms => t.viewMembers target seen none ms
  | .var v =>
    if v ∈ seen then return none
    else
      match _h : t.upperBounds v with
      | [] => t.viewClass target ⟨t.wellKnown.object, []⟩
      | b :: bs => t.viewMembers target (v :: seen) none (b :: bs)
  | .wildExtends b => t.viewFrom target seen b
  | .cls c args => t.viewClass target ⟨c, args⟩
  | .void | .null | .unknown | .prim _ | .wild | .wildSuper _ => return none
termination_by ty => (t.paramsOutside seen, sizeOf ty)
decreasing_by
  · decreasing_tactic
  · refine .left _ _ (paramsOutside_cons_lt ?_ ‹_›)
    cases hp : t.param? v with
    | none => simp [upperBounds, hp] at _h
    | some p => rfl
  · decreasing_tactic

/-- The view of some types together, given the view of those before them. Types without a view are
passed over. -/
def viewMembers (t : ClassTable) (target : ClassId) (seen : List TypeVarId) (found : Option Ty) :
    List Ty → Query (Option Ty)
  | [] => return found
  | m :: ms => do
    match found, ← t.viewFrom target seen m with
    | found, none => t.viewMembers target seen found ms
    | none, some view => t.viewMembers target seen (some view) ms
    | some before, some view =>
      match ← t.mergeViews before view with
      | none => return none
      | some merged => t.viewMembers target seen (some merged) ms
termination_by ms => (t.paramsOutside seen, sizeOf ms)

end

/-- The view of a type as a class. -/
def view (t : ClassTable) (ty : Ty) (target : ClassId) : Query (Option Ty) :=
  t.viewFrom target [] ty

end LambdaTyping.ClassTable
