import LambdaTyping.Hierarchy.Closure
import LambdaTyping.Type.Identity

/-!
# One step of subtyping

A subtype question is settled by a `Plan`: it is known at once, or comes down to questions about
other types, all or some of which have to hold. `subtypePlan` is the table of rules.
-/

namespace LambdaTyping

/-- A part of a plan: settled, or another subtype question. -/
inductive Goal where
  | known (holds : Bool)
  | subtype (sub sup : Ty)
  deriving DecidableEq

/-- What a subtype question comes down to. The goals are pursued in order, until one decides. -/
inductive Plan where
  | every (goals : List Goal)
  | any (goals : List Goal)
  deriving DecidableEq

namespace Plan

/-- The plan of one goal. -/
def one (g : Goal) : Plan :=
  .every [g]

/-- The plan that is settled. -/
def known (holds : Bool) : Plan :=
  .one (.known holds)

/-- The goals of the plan. -/
def goals : Plan → List Goal
  | .every gs => gs
  | .any gs => gs

end Plan

namespace ClassTable

/-- Whether a type argument contains another: a wildcard contains the types within its bound, any
other argument what is identical to it. -/
def argumentGoal (t : ClassTable) : Ty → Ty → Goal
  | .wild, _ => .known true
  | .wildExtends u, .wildExtends a => .subtype a u
  | .wildExtends u, .wild | .wildExtends u, .wildSuper _ => .known (t.isObject u)
  | .wildExtends u, a => .subtype a u
  | .wildSuper l, .wildSuper a => .subtype l a
  | .wildSuper _, .wild | .wildSuper _, .wildExtends _ => .known false
  | .wildSuper l, a => .subtype l a
  | formal, actual => .known (formal.identical actual)

/-- The plan for two class types: the first viewed as the class of the second has arguments that
the second's contain. A raw use on either side allows any arguments. -/
def classPlan (t : ClassTable) (sub sup : ClassTy) : Plan :=
  match t.classView? sub sup.head with
  | none => .known false
  | some view =>
    if sup.args.isEmpty || view.args.isEmpty then .known true
    else if sup.args.length = view.args.length then
      .every (List.zipWith t.argumentGoal sup.args view.args)
    else .known false

/-- The plan for a subtype question; the first rule that fits applies. An unknown type is below and
above everything. -/
def subtypePlan (t : ClassTable) (sub sup : Ty) : Plan :=
  if sub = sup then .known true
  else
    match sub, sup with
    | .unknown, _ | _, .unknown => .known true
    | .void, _ | _, .void => .known false
    | .null, b => .known b.isReference
    | .prim p, .prim q => .known (p.widens q)
    | .prim _, _ | _, .prim _ => .known false
    | a, .inter ms => .every (ms.map fun m => .subtype a m)
    | .inter ms, b => .any (ms.map fun m => .subtype m b)
    | .var v, b =>
      match t.upperBounds v with
      | [] => .known (t.isObject b)
      | bounds => .any (bounds.map fun u => .subtype u b)
    | a, .var v =>
      match t.lowerBound? v with
      | none => .known false
      | some l => .one (.subtype a l)
    | .wildExtends u, b => .one (.subtype u b)
    | .wild, b | .wildSuper _, b => .known (t.isObject b)
    | a, .wild => .one (t.argumentGoal .wild a)
    | a, .wildExtends u => .one (t.argumentGoal (.wildExtends u) a)
    | a, .wildSuper l => .one (t.argumentGoal (.wildSuper l) a)
    | _, .null => .known false
    | .array a, .array b =>
      if a.isReference && b.isReference then .one (.subtype a b) else .known (a = b)
    | .array _, .cls c _ => .known (t.isArraySuperclass c)
    | .cls _ _, .array _ => .known false
    | .cls c as, .cls d bs => t.classPlan ⟨c, as⟩ ⟨d, bs⟩

/-- What a step reports: the closure of a class type that is viewed as another class. -/
def planEvents (t : ClassTable) : Ty → Ty → List Event
  | .cls c as, .cls d bs => if c = d ∧ as = bs then [] else t.closureEvents (.cls c as)
  | _, _ => []

end ClassTable

end LambdaTyping
