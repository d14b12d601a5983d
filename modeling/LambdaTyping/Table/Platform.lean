import LambdaTyping.Table.Basic

/-!
# The platform's classes

The declarations every table starts from: the root class and its companions, the boxes of the
primitive types, the collections and the function interfaces, each cut down to what the rules of
the language and their everyday use need.
-/

namespace LambdaTyping

namespace Platform

/-- The class type without arguments at a number. -/
private def plain (n : Nat) : Ty := .cls ⟨n⟩ []

/-- The type variable of a number. -/
private def tv (n : Nat) : Ty := .var ⟨n⟩

private def object : Ty := plain 0
private def string : Ty := plain 1
private def number : Ty := plain 2
private def cloneable : Ty := plain 3
private def serializable : Ty := plain 4
private def comparable (arg : Ty) : Ty := .cls ⟨5⟩ [arg]
private def iterator (arg : Ty) : Ty := .cls ⟨16⟩ [arg]
private def consumer (arg : Ty) : Ty := .cls ⟨17⟩ [arg]
private def iterable (arg : Ty) : Ty := .cls ⟨18⟩ [arg]
private def collection (arg : Ty) : Ty := .cls ⟨19⟩ [arg]
private def list (arg : Ty) : Ty := .cls ⟨20⟩ [arg]
private def function (arg result : Ty) : Ty := .cls ⟨23⟩ [arg, result]
private def predicate (arg : Ty) : Ty := .cls ⟨26⟩ [arg]
private def comparator (arg : Ty) : Ty := .cls ⟨27⟩ [arg]

/-- A method that has no type parameters of its own. -/
private def method (name : String) (params : List Ty) (returnType : Ty) (kind : MethodKind) :
    MethodDecl :=
  ⟨name, [], params, returnType, kind⟩

/-- A class with type parameters numbered so. -/
private def classDecl (name : String) (params : List Nat) (superClass : Option Ty)
    (interfaces : List Ty) (methods : List MethodDecl) : ClassDecl :=
  ⟨name, .cls, params.map TypeVarId.mk, superClass, interfaces, methods⟩

/-- An interface with type parameters numbered so. -/
private def interfaceDecl (name : String) (params : List Nat) (interfaces : List Ty)
    (methods : List MethodDecl) : ClassDecl :=
  ⟨name, .interface, params.map TypeVarId.mk, none, interfaces, methods⟩

/-- The class that boxes a primitive type, at that number. -/
private def boxDecl (p : Primitive) (n : Nat) : ClassDecl :=
  classDecl p.boxName [] (some (if p.boxIsNumber then number else object))
    [serializable, comparable (plain n)] []

/-- The platform's classes. -/
def classes : Array ClassDecl := #[
  classDecl "java.lang.Object" [] none [] [
    method "equals" [object] (.prim .boolean) .concrete,
    method "hashCode" [] (.prim .int) .concrete,
    method "toString" [] string .concrete,
    method "getClass" [] .unknown .concrete,
    method "notify" [] .void .concrete,
    method "notifyAll" [] .void .concrete,
    method "wait" [] .void .concrete],
  classDecl "java.lang.String" [] (some object) [serializable, comparable string] [
    method "length" [] (.prim .int) .concrete,
    method "isEmpty" [] (.prim .boolean) .concrete],
  classDecl "java.lang.Number" [] (some object) [serializable] [
    method "intValue" [] (.prim .int) .abstract,
    method "longValue" [] (.prim .long) .abstract],
  interfaceDecl "java.lang.Cloneable" [] [] [],
  interfaceDecl "java.io.Serializable" [] [] [],
  interfaceDecl "java.lang.Comparable" [0] [] [
    method "compareTo" [tv 0] (.prim .int) .abstract],
  boxDecl .int 6,
  boxDecl .boolean 7,
  boxDecl .byte 8,
  boxDecl .short 9,
  boxDecl .char 10,
  boxDecl .long 11,
  boxDecl .float 12,
  boxDecl .double 13,
  interfaceDecl "java.lang.Runnable" [] [] [method "run" [] .void .abstract],
  interfaceDecl "java.util.concurrent.Callable" [1] [] [method "call" [] (tv 1) .abstract],
  interfaceDecl "java.util.Iterator" [2] [] [
    method "hasNext" [] (.prim .boolean) .abstract,
    method "next" [] (tv 2) .abstract],
  interfaceDecl "java.util.function.Consumer" [8] [] [
    method "accept" [tv 8] .void .abstract,
    method "andThen" [consumer (.wildSuper (tv 8))] (consumer (tv 8)) .default],
  interfaceDecl "java.lang.Iterable" [3] [] [
    method "iterator" [] (iterator (tv 3)) .abstract,
    method "forEach" [consumer (.wildSuper (tv 3))] .void .default],
  interfaceDecl "java.util.Collection" [4] [iterable (tv 4)] [
    method "size" [] (.prim .int) .abstract,
    method "isEmpty" [] (.prim .boolean) .abstract,
    method "add" [tv 4] (.prim .boolean) .abstract],
  interfaceDecl "java.util.List" [5] [collection (tv 5)] [
    method "get" [.prim .int] (tv 5) .abstract],
  classDecl "java.util.ArrayList" [6] (some object) [list (tv 6), cloneable, serializable] [
    method "size" [] (.prim .int) .concrete,
    method "isEmpty" [] (.prim .boolean) .concrete,
    method "add" [tv 6] (.prim .boolean) .concrete,
    method "get" [.prim .int] (tv 6) .concrete,
    method "iterator" [] (iterator (tv 6)) .concrete],
  interfaceDecl "java.util.function.Supplier" [7] [] [method "get" [] (tv 7) .abstract],
  interfaceDecl "java.util.function.Function" [9, 10] [] [
    method "apply" [tv 9] (tv 10) .abstract,
    ⟨"identity", [⟨11⟩], [], function (tv 11) (tv 11), .static⟩],
  interfaceDecl "java.util.function.BiFunction" [12, 13, 14] [] [
    method "apply" [tv 12, tv 13] (tv 14) .abstract],
  interfaceDecl "java.util.function.UnaryOperator" [15] [function (tv 15) (tv 15)] [],
  interfaceDecl "java.util.function.Predicate" [16] [] [
    method "test" [tv 16] (.prim .boolean) .abstract,
    method "negate" [] (predicate (tv 16)) .default],
  interfaceDecl "java.util.Comparator" [17] [] [
    method "compare" [tv 17, tv 17] (.prim .int) .abstract,
    method "equals" [object] (.prim .boolean) .abstract,
    method "reversed" [] (comparator (tv 17)) .default]]

/-- The names of the platform's type parameters, which have no bounds. -/
def paramNames : Array String :=
  #["T", "V", "E", "T", "E", "E", "E", "T", "T", "T", "R", "T", "T", "U", "R", "T", "T", "T"]

/-- The classes that the rules of the language refer to. -/
def wellKnown : WellKnown where
  object := ⟨0⟩
  string := ⟨1⟩
  number := ⟨2⟩
  integer := ⟨6⟩
  cloneable := ⟨3⟩
  serializable := ⟨4⟩

end Platform

/-- The table of the platform's classes. -/
def ClassTable.platform : ClassTable where
  classes := Platform.classes
  params := Platform.paramNames.map fun name => ⟨name, [], none⟩
  index := .ofList (Platform.classes.toList.zipIdx.map fun (d, i) => (d.name, ClassId.mk i))
  wellKnown := Platform.wellKnown

end LambdaTyping
