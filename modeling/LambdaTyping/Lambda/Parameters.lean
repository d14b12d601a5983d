import LambdaTyping.Lambda.Shape
import LambdaTyping.Method.Signature
import LambdaTyping.Subtyping.Basic
import LambdaTyping.Type.Display

/-!
# Parameter check

The parameters of a lambda against those of the method it implements: as many, written types
identical to the method's, and the method's types assignable to implicit ones.
-/

namespace LambdaTyping

/-- How the parameters of a lambda do not fit. -/
inductive ParameterMismatch where
  | arity (expected found : Nat)
  /-- The first parameter that does not fit, by its place. -/
  | parameter (index : Nat) (expected found : Ty)
  deriving DecidableEq

namespace ParameterMismatch

/-- The mismatch in words. -/
def message (t : ClassTable) : ParameterMismatch → String
  | .arity expected found =>
    "Incompatible parameter types in lambda expression: wrong number of parameters: " ++
      s!"expected {expected} but found {found}"
  | .parameter _ expected found =>
    "Incompatible parameter types in lambda expression: " ++
      s!"expected {t.display expected} but found {t.display found}"

end ParameterMismatch

namespace ClassTable

/-- The type of a parameter declared with a type: the bound of a wildcard, `Object` for `?`. -/
def groundParameter (t : ClassTable) : Ty → Ty
  | .wildExtends b => b
  | .wildSuper b => b
  | .wild => t.objectType
  | ty => ty

/-- Whether a parameter of a lambda, its type written or not, fits the type the method has. -/
def parameterFits (t : ClassTable) (explicit : Bool) (found expected : Ty) : Query Bool :=
  if explicit then return found.identical expected else t.assignable expected found

/-- The first of the parameters, counted from an index, that does not fit its type. -/
def firstMismatch (t : ClassTable) (explicit : Bool) :
    Nat → List (Ty × Ty) → Query (Option ParameterMismatch)
  | _, [] => return none
  | i, (found, expected) :: rest => do
    if ← t.parameterFits explicit found expected then t.firstMismatch explicit (i + 1) rest
    else return some (.parameter i expected found)

/-- Check the parameters of a lambda against a method seen through a substitution. -/
def checkParameters (t : ClassTable) (l : Lambda) (m : Signature) (s : Subst) :
    Query (Option ParameterMismatch) :=
  let found := l.params.toList.map Param.ty
  let expected := m.params.map fun p => t.groundParameter (s.apply p)
  if found.length = expected.length then
    t.firstMismatch l.params.isExplicit 0 (found.zip expected)
  else return some (.arity expected.length found.length)

end ClassTable

end LambdaTyping
