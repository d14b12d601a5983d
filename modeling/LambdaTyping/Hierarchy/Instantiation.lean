import LambdaTyping.Type.Erasure
import LambdaTyping.Type.Substitution

/-!
# Instantiation of classes

The substitution through which the members and supertypes of a class are seen at given type
arguments.
-/

namespace LambdaTyping.ClassTable

/-- The substitution of a class's type parameters at the type arguments of a use of the class. In a
raw use each parameter stands for its erasure; arguments that are missing are unknown. -/
def instantiate (t : ClassTable) (d : ClassDecl) (args : List Ty) : Subst :=
  if d.isRawUse args then .ofList (d.typeParams.map fun v => (v, t.erasure (.var v)))
  else .ofList (d.typeParams.zip (args ++ List.replicate d.typeParams.length .unknown))

/-- What an instantiation reports: the cyclic bounds met by the erasures of a raw use. -/
def instantiationEvents (t : ClassTable) (d : ClassDecl) (args : List Ty) : List Event :=
  if d.isRawUse args then d.typeParams.flatMap fun v => t.erasureEvents (.var v) else []

end LambdaTyping.ClassTable
