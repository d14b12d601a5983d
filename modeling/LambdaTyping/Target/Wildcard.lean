import LambdaTyping.Method.Signature
import LambdaTyping.Type.Display

/-!
# Unconstrained wildcards

A target such as `Container<?>` leaves its functional method open if the parameter is bounded and
no parameter of the method mentions it: then no single type can stand for the wildcard.
-/

namespace LambdaTyping.ClassTable

/-- Whether an argument leaves a type parameter open: the parameter declares a bound, the argument
is `?`, and no parameter of the method mentions the parameter. -/
def leavesOpen (t : ClassTable) (m : Signature) (s : Subst) (v : TypeVarId) : Bool :=
  !(t.upperBounds v).isEmpty && (s.apply (.var v)).isUnboundedWildcard &&
    !(m.params.any fun p => p.mentions v)

/-- The first type parameter of a class that its argument leaves open. -/
def unconstrainedParam? (t : ClassTable) (d : ClassDecl) (m : Signature) (s : Subst) :
    Option TypeVarId :=
  d.typeParams.find? (t.leavesOpen m s)

/-- Whether some wildcard argument leaves the method open. -/
def hasUnconstrainedWildcard (t : ClassTable) (d : ClassDecl) (m : Signature) (s : Subst) : Bool :=
  (t.unconstrainedParam? d m s).isSome

/-- What the search for an open wildcard argument reports. -/
def unconstrainedEvents (t : ClassTable) (d : ClassDecl) (m : Signature) (s : Subst) : List Event :=
  (t.unconstrainedParam? d m s).toList.map fun v =>
    .unconstrainedWildcard d.name (t.paramName v) m.name

end LambdaTyping.ClassTable
