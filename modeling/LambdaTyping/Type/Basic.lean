import LambdaTyping.Identifier
import LambdaTyping.Type.Primitive

/-!
# Types

Types over numbered classes and type parameters, with decidable equality, an induction principle
that reaches into type arguments, and intersections in normal form.
-/

namespace LambdaTyping

/-- A type. `unknown` stands for a type that could not be computed; `wild`, `wildExtends` and
`wildSuper` are the three forms of a wildcard type argument. -/
inductive Ty where
  | void
  | null
  | unknown
  | prim (p : Primitive)
  | array (elem : Ty)
  | cls (head : ClassId) (args : List Ty)
  | var (v : TypeVarId)
  | wild
  | wildExtends (bound : Ty)
  | wildSuper (bound : Ty)
  | inter (members : List Ty)
  deriving Inhabited

/-- A class type: a class and its type arguments, none for a raw use or a class without
parameters. -/
structure ClassTy where
  head : ClassId
  args : List Ty

namespace Ty

/-- Induction over types that reaches every type argument and every intersection member. -/
theorem rec_members {P : Ty → Prop} (void : P .void) (null : P .null) (unknown : P .unknown)
    (prim : ∀ p, P (.prim p)) (array : ∀ e, P e → P (.array e))
    (cls : ∀ c args, (∀ a ∈ args, P a) → P (.cls c args)) (var : ∀ v, P (.var v))
    (wild : P .wild) (wildExtends : ∀ b, P b → P (.wildExtends b))
    (wildSuper : ∀ b, P b → P (.wildSuper b))
    (inter : ∀ ms, (∀ m ∈ ms, P m) → P (.inter ms)) (t : Ty) : P t :=
  @Ty.rec P (fun ts => ∀ t ∈ ts, P t) void null unknown prim array cls var wild wildExtends
    wildSuper inter (fun _ h => nomatch h)
    (fun _ _ hd tl => List.forall_mem_cons.2 ⟨hd, tl⟩) t

mutual

/-- Equality test on types. -/
def beq : Ty → Ty → Bool
  | .void, .void | .null, .null | .unknown, .unknown | .wild, .wild => true
  | .prim p, .prim q => p = q
  | .array a, .array b => beq a b
  | .cls c as, .cls d bs => c = d && beqList as bs
  | .var v, .var w => v = w
  | .wildExtends a, .wildExtends b => beq a b
  | .wildSuper a, .wildSuper b => beq a b
  | .inter as, .inter bs => beqList as bs
  | _, _ => false

/-- Equality test on lists of types. -/
def beqList : List Ty → List Ty → Bool
  | [], [] => true
  | a :: as, b :: bs => beq a b && beqList as bs
  | _, _ => false

end

/-- The equality test on lists decides equality if the test on their elements does. -/
theorem beqList_iff {as : List Ty} (ih : ∀ a ∈ as, ∀ b, beq a b = true ↔ a = b) :
    ∀ bs, beqList as bs = true ↔ as = bs := by
  induction as with
  | nil => intro bs; cases bs <;> simp [beqList]
  | cons a as tail =>
    intro bs
    cases bs with
    | nil => simp [beqList]
    | cons b bs =>
      simp [beqList, ih a (by simp) b, tail (fun x hx => ih x (by simp [hx])) bs]

/-- The equality test decides equality. -/
theorem beq_iff (a : Ty) : ∀ b, beq a b = true ↔ a = b := by
  induction a using rec_members with
  | array e ih => intro b; cases b <;> simp [beq, ih]
  | cls c args ih => intro b; cases b <;> simp [beq, beqList_iff ih]
  | wildExtends e ih => intro b; cases b <;> simp [beq, ih]
  | wildSuper e ih => intro b; cases b <;> simp [beq, ih]
  | inter ms ih => intro b; cases b <;> simp [beq, beqList_iff ih]
  | _ => intro b; cases b <;> simp [beq]

instance : DecidableEq Ty := fun a b => decidable_of_iff _ (beq_iff a b)

end Ty

deriving instance DecidableEq for ClassTy

/-- The type a class type is. -/
def ClassTy.toTy (c : ClassTy) : Ty := .cls c.head c.args

namespace Ty

/-- Whether the type is primitive. -/
def isPrimitive : Ty → Bool
  | .prim _ => true
  | _ => false

/-- Whether the type is a reference type; the type of `null` is one, `unknown` is not. -/
def isReference : Ty → Bool
  | .void | .unknown | .prim _ => false
  | _ => true

/-- Whether the type is the wildcard `?` without a bound. -/
def isUnboundedWildcard : Ty → Bool
  | .wild => true
  | _ => false

/-- The members an intersection is made of; any other type is its own only member. -/
def members : Ty → List Ty
  | .inter ms => ms
  | t => [t]

/-- The intersection of some types in normal form: intersections among them are opened one level,
repeated members are kept once, at their first place. The intersection of nothing is `unknown`,
that of one type is the type itself. -/
def intersection (ts : List Ty) : Ty :=
  match (ts.flatMap members).eraseDups with
  | [] => .unknown
  | [t] => t
  | ts => .inter ts

mutual

/-- Whether a type variable occurs in the type, at any depth. -/
def mentions (v : TypeVarId) : Ty → Bool
  | .var w => w = v
  | .cls _ args => mentionsAny v args
  | .array e => mentions v e
  | .wildExtends b => mentions v b
  | .wildSuper b => mentions v b
  | .inter ms => mentionsAny v ms
  | .void | .null | .unknown | .prim _ | .wild => false

/-- Whether a type variable occurs in some type of a list. -/
def mentionsAny (v : TypeVarId) : List Ty → Bool
  | [] => false
  | t :: ts => mentions v t || mentionsAny v ts

end

/-- A variable occurs in a list of types if it occurs in one of them. -/
@[simp] theorem mentionsAny_eq (v : TypeVarId) (ts : List Ty) :
    mentionsAny v ts = ts.any (mentions v) := by
  induction ts with
  | nil => rfl
  | cons t ts ih => simp [mentionsAny, ih]

mutual

/-- How many places of the type are left unknown, not looking into type variables. -/
def placeholders : Ty → Nat
  | .unknown => 1
  | .array e => placeholders e
  | .cls _ args => placeholdersIn args
  | .wildExtends b => placeholders b
  | .wildSuper b => placeholders b
  | .inter ms => placeholdersIn ms
  | .void | .null | .prim _ | .var _ | .wild => 0

/-- How many places of the types of a list are left unknown. -/
def placeholdersIn : List Ty → Nat
  | [] => 0
  | t :: ts => placeholders t + placeholdersIn ts

end

end Ty

end LambdaTyping
