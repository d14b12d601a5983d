import LambdaTyping.Hierarchy.Instantiation

/-!
# Method signatures

A method as it is seen from some class, and the sameness of signatures by name and erased
parameters.
-/

namespace LambdaTyping

/-- A method of the class `owner`, its types expressed in the type parameters of the class it is
seen from. -/
structure Signature where
  owner : ClassId
  name : String
  params : List Ty
  typeParams : List TypeVarId
  returnType : Ty
  deriving DecidableEq

namespace Signature

/-- The signature of a declared method under a substitution of its owner's type parameters. -/
def ofMethod (owner : ClassId) (m : MethodDecl) (s : Subst) : Signature where
  owner := owner
  name := m.name
  params := m.params.map s.apply
  typeParams := m.typeParams
  returnType := s.apply m.returnType

/-- Whether the method has type parameters of its own. -/
def isGeneric (m : Signature) : Bool :=
  !m.typeParams.isEmpty

/-- The erasures of the parameter types. -/
def erasedParams (m : Signature) (t : ClassTable) : List Ty :=
  m.params.map t.erasure

/-- What the erasure of the parameter types reports. -/
def erasedParamsEvents (m : Signature) (t : ClassTable) : List Event :=
  m.params.flatMap t.erasureEvents

/-- Two methods have the same signature: one name, equally many parameters, and the same parameter
types after erasure. -/
def sameAs (m : Signature) (t : ClassTable) (other : Signature) : Bool :=
  m.name = other.name && m.params.length = other.params.length &&
    m.erasedParams t = other.erasedParams t

/-- What the comparison of two signatures reports. -/
def sameAsEvents (m : Signature) (t : ClassTable) (other : Signature) : List Event :=
  if m.name = other.name ∧ m.params.length = other.params.length then
    m.erasedParamsEvents t ++ other.erasedParamsEvents t
  else []

end Signature

end LambdaTyping
