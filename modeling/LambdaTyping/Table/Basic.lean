import LambdaTyping.Type.Basic
import Std.Data.TreeMap

/-!
# Declaration tables

Classes with their supertypes and methods, type parameters with their bounds, and the questions
that a table answers at once: what stands at a number, and which number a name has.
-/

namespace LambdaTyping

/-- What a class declaration declares. -/
inductive ClassKind where
  | cls | interface | enum | annotation
  deriving DecidableEq

/-- How a method is declared. -/
inductive MethodKind where
  | abstract | default | static | concrete
  deriving DecidableEq

/-- A method declaration. `typeParams` are the type parameters of the method itself. -/
structure MethodDecl where
  name : String
  typeParams : List TypeVarId
  params : List Ty
  returnType : Ty
  kind : MethodKind
  deriving DecidableEq

/-- A class declaration under its binary name. -/
structure ClassDecl where
  name : String
  kind : ClassKind
  typeParams : List TypeVarId
  superClass : Option Ty
  interfaces : List Ty
  methods : List MethodDecl
  deriving DecidableEq

/-- A type parameter. Without upper bounds it is bounded by the class `Object`. -/
structure TypeParam where
  name : String
  upperBounds : List Ty
  lowerBound : Option Ty
  deriving DecidableEq

namespace MethodDecl

/-- Whether the method has no body and is to be implemented. -/
def isAbstract (m : MethodDecl) : Bool :=
  m.kind = .abstract

/-- Whether the method belongs to the class and not to its instances. -/
def isStatic (m : MethodDecl) : Bool :=
  m.kind = .static

end MethodDecl

namespace ClassDecl

/-- Whether the class is an interface; annotation types do not count. -/
def isInterface (d : ClassDecl) : Bool :=
  d.kind = .interface

/-- The declared supertypes: the superclass, then the interfaces. -/
def supertypes (d : ClassDecl) : List Ty :=
  d.superClass.toList ++ d.interfaces

/-- Whether a use of the class with these type arguments is raw: the class has type parameters and
no arguments are given. -/
def isRawUse (d : ClassDecl) (args : List Ty) : Bool :=
  args.isEmpty && !d.typeParams.isEmpty

end ClassDecl

/-- The classes that the rules of the language refer to. -/
structure WellKnown where
  object : ClassId
  string : ClassId
  number : ClassId
  integer : ClassId
  cloneable : ClassId
  serializable : ClassId
  deriving DecidableEq

/-- A declaration table. `index` finds the classes by name. -/
structure ClassTable where
  classes : Array ClassDecl
  params : Array TypeParam
  index : Std.TreeMap String ClassId
  wellKnown : WellKnown

namespace ClassTable

/-- The declaration of a class. -/
def class? (t : ClassTable) (c : ClassId) : Option ClassDecl :=
  t.classes[c.raw]?

/-- The declaration of a type parameter. -/
def param? (t : ClassTable) (v : TypeVarId) : Option TypeParam :=
  t.params[v.raw]?

/-- Whether the table declares the class. -/
def declares (t : ClassTable) (c : ClassId) : Bool :=
  (t.class? c).isSome

/-- The class of exactly this name. -/
def classNamed? (t : ClassTable) (name : String) : Option ClassId :=
  t.index[name]?

/-- The class a name refers to: the class of that name or, for a simple name, the class of that
name in the package `java.lang`. -/
def lookup? (t : ClassTable) (name : String) : Option ClassId :=
  match t.classNamed? name with
  | some c => some c
  | none => if '.' ∈ name.toList then none else t.classNamed? ("java.lang." ++ name)

/-- The declared upper bounds of a type variable, none for one the table does not hold. -/
def upperBounds (t : ClassTable) (v : TypeVarId) : List Ty :=
  match t.param? v with
  | some p => p.upperBounds
  | none => []

/-- The lower bound of a type variable. -/
def lowerBound? (t : ClassTable) (v : TypeVarId) : Option Ty :=
  (t.param? v).bind TypeParam.lowerBound

/-- The class type `Object`. -/
def objectType (t : ClassTable) : Ty :=
  .cls t.wellKnown.object []

/-- Whether the type is the class `Object`. -/
def isObject (t : ClassTable) : Ty → Bool
  | .cls c _ => c = t.wellKnown.object
  | _ => false

/-- Whether arrays are subtypes of the class. -/
def isArraySuperclass (t : ClassTable) (c : ClassId) : Bool :=
  c = t.wellKnown.object || c = t.wellKnown.cloneable || c = t.wellKnown.serializable

/-- How many type parameters of the table are not in the list. -/
def paramsOutside (t : ClassTable) (seen : List TypeVarId) : Nat :=
  (List.range t.params.size).countP fun i => ⟨i⟩ ∉ seen

/-- How many classes of the table are not in the list. -/
def classesOutside (t : ClassTable) (seen : List ClassId) : Nat :=
  (List.range t.classes.size).countP fun i => ⟨i⟩ ∉ seen

/-- A count goes down when the test fails one more element. -/
private theorem countP_lt {p q : Nat → Bool} {l : List Nat} {a : Nat}
    (qp : ∀ x, q x = true → p x = true) (al : a ∈ l) (pa : p a = true) (qa : q a = false) :
    l.countP q < l.countP p := by
  induction l with
  | nil => simp at al
  | cons b l ih =>
    have le : l.countP q ≤ l.countP p := List.countP_mono_left fun x _ => qp x
    grind

/-- A declared type parameter that enters the list is outside it no more. -/
theorem paramsOutside_cons_lt {t : ClassTable} {seen : List TypeVarId} {v : TypeVarId}
    (hv : (t.param? v).isSome) (fresh : v ∉ seen) :
    t.paramsOutside (v :: seen) < t.paramsOutside seen := by
  have size : v.raw < t.params.size := by simpa [param?] using hv
  refine countP_lt (a := v.raw) ?_ (List.mem_range.2 size) (by simpa using fresh) (by simp)
  intro x hx
  simp only [List.mem_cons, not_or, decide_eq_true_eq] at hx ⊢
  exact hx.2

/-- A declared class that enters the list is outside it no more. -/
theorem classesOutside_cons_lt {t : ClassTable} {seen : List ClassId} {c : ClassId}
    (hc : (t.class? c).isSome) (fresh : c ∉ seen) :
    t.classesOutside (c :: seen) < t.classesOutside seen := by
  have size : c.raw < t.classes.size := by simpa [class?] using hc
  refine countP_lt (a := c.raw) ?_ (List.mem_range.2 size) (by simpa using fresh) (by simp)
  intro x hx
  simp only [List.mem_cons, not_or, decide_eq_true_eq] at hx ⊢
  exact hx.2

/-- Entering a class into the list, declared or not, leaves no more classes outside. -/
theorem classesOutside_cons_le (t : ClassTable) (seen : List ClassId) (c : ClassId) :
    t.classesOutside (c :: seen) ≤ t.classesOutside seen := by
  refine List.countP_mono_left fun x _ hx => ?_
  simp only [List.mem_cons, not_or, decide_eq_true_eq] at hx ⊢
  exact hx.2

end ClassTable

end LambdaTyping
