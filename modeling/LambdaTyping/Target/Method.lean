import LambdaTyping.Method.Signature

/-!
# The functional method of a target

What a resolved target asks of a lambda: a method, seen through the type arguments of the target.
A lambda has no wildcard types, so each wildcard argument is grounded first: replaced by its bound
or, without one, by what the type parameter's own bounds say.
-/

namespace LambdaTyping

/-- The method that a lambda for the class `cls` implements, and the type arguments of the target.
-/
structure TargetMethod where
  cls : ClassId
  signature : Signature
  subst : Subst

/-- What a type is as the target of a lambda: still being inferred, or a functional interface. -/
inductive Target where
  | deferred
  | method (m : TargetMethod)

namespace ClassTable

/-- The type parameters of a class, none for a class the table does not hold. -/
def typeParamsOf (t : ClassTable) (c : ClassId) : List TypeVarId :=
  match t.class? c with
  | some d => d.typeParams
  | none => []

/-- The type that stands for the argument `?` of a type parameter of the class: the intersection of
the parameter's bounds, its erasure if a bound mentions a parameter of the class. -/
def groundUnbounded (t : ClassTable) (c : ClassId) (v : TypeVarId) : Ty :=
  let bounds := t.upperBounds v
  if bounds.isEmpty then t.objectType
  else if bounds.any fun b => (t.typeParamsOf c).any fun p => b.mentions p then
    t.erasure (.var v)
  else .intersection bounds

/-- The type that stands for an argument of a type parameter of the class. -/
def groundArgument (t : ClassTable) (c : ClassId) (v : TypeVarId) : Ty → Ty
  | .wildExtends b => b
  | .wildSuper b => b
  | .wild => t.groundUnbounded c v
  | arg => arg

end ClassTable

namespace TargetMethod

/-- The type arguments of the target with each wildcard grounded. -/
def groundSubst (m : TargetMethod) (t : ClassTable) : Subst :=
  m.subst.mapTypes (t.groundArgument m.cls)

/-- The parameter types a lambda for the target has. -/
def parameterTypes (m : TargetMethod) (t : ClassTable) : List Ty :=
  m.signature.params.map (m.groundSubst t).apply

/-- The type of the values a lambda for the target returns. -/
def returnType (m : TargetMethod) (t : ClassTable) : Ty :=
  (m.groundSubst t).apply m.signature.returnType

end TargetMethod

end LambdaTyping
