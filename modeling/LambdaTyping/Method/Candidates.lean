import LambdaTyping.Method.Signature
import LambdaTyping.Subtyping.Basic

/-!
# Functional method candidates

The methods that a lambda for an interface could implement: its abstract methods, inherited ones
included, less those that `Object` has and those overridden further down. Of methods with the same
signature one stands for all, the one with the most specific return type.
-/

namespace LambdaTyping

/-- A method that a class has, declared there or inherited. -/
structure Member where
  signature : Signature
  kind : MethodKind
  deriving DecidableEq

namespace ClassTable

/-- The type of a class within its own declaration. -/
def selfType (c : ClassId) (d : ClassDecl) : Ty :=
  .cls c (d.typeParams.map .var)

/-- The methods that a class type brings to the classes below it: those its class declares, unless
that is `Object`. -/
def membersOf (t : ClassTable) (c : ClassTy) : List Member :=
  if c.head = t.wellKnown.object then []
  else
    match t.class? c.head with
    | none => []
    | some d =>
      let s := t.instantiate d c.args
      d.methods.map fun m => ⟨.ofMethod c.head m s, m.kind⟩

/-- The methods of a class and all classes above it but `Object`, in the order of the closure, as
they are seen from the class. -/
def members (t : ClassTable) (c : ClassId) (d : ClassDecl) : List Member :=
  (t.closure (selfType c d)).flatMap t.membersOf

/-- The methods that every object has. -/
def objectMethods (t : ClassTable) : List Signature :=
  match t.class? t.wellKnown.object with
  | none => []
  | some d =>
    (d.methods.filter fun m => !m.isStatic).map fun m => .ofMethod t.wellKnown.object m .empty

/-- Whether a class stands properly below another. -/
def isBelow (t : ClassTable) (sub sup : ClassId) : Bool :=
  sub ≠ sup && (t.classClosure ⟨sub, []⟩).any fun c => c.head = sup

/-- Whether some of these members overrides a method: one of the same signature that is not static,
of a class below the method's owner. -/
def overridden (t : ClassTable) (ms : List Member) (m : Signature) : Bool :=
  ms.any fun other =>
    other.kind ≠ .static && other.signature.sameAs t m && t.isBelow other.signature.owner m.owner

/-- Whether a member is left to be implemented: it is abstract, no method of `Object`, and not
overridden among these members. -/
def isOpen (t : ClassTable) (ms : List Member) (m : Member) : Bool :=
  m.kind = .abstract && !(t.objectMethods.any fun o => o.sameAs t m.signature) &&
    !t.overridden ms m.signature

/-- The abstract methods of a class that are left to be implemented. -/
def openMethods (t : ClassTable) (c : ClassId) (d : ClassDecl) : List Signature :=
  let ms := t.members c d
  (ms.filter (t.isOpen ms)).map Member.signature

/-- Whether a type is a subtype of another and not the other way round. -/
def strictSubtype (t : ClassTable) (a b : Ty) : Query Bool := do
  if ← t.subtype a b then return !(← t.subtype b a) else return false

/-- Put a method among the candidates: last, or in place of the one with the same signature if its
return type is more specific. -/
def addCandidate (t : ClassTable) (m : Signature) : List Signature → Query (List Signature)
  | [] => return [m]
  | c :: cs => do
    if c.sameAs t m then
      if ← t.strictSubtype m.returnType c.returnType then return m :: cs else return c :: cs
    else return c :: (← t.addCandidate m cs)

/-- The functional method candidates of a class; `none` unless the table has it as an interface. -/
def candidates (t : ClassTable) (c : ClassId) : Query (Option (List Signature)) :=
  match t.class? c with
  | none => return none
  | some d =>
    if d.isInterface then do
      let found ← (t.openMethods c d).foldlM (fun cs m => t.addCandidate m cs) []
      return some found
    else return none

end ClassTable

end LambdaTyping
