/-!
# Primitive types

The eight primitive types, their keywords, the classes that box them, and widening conversion.
-/

namespace LambdaTyping

/-- A primitive type. -/
inductive Primitive where
  | boolean | byte | short | char | int | long | float | double
  deriving DecidableEq

namespace Primitive

/-- Every primitive type, in the order of declaration. -/
def all : List Primitive :=
  [boolean, byte, short, char, int, long, float, double]

/-- The keyword that names the type. -/
def keyword : Primitive → String
  | boolean => "boolean"
  | byte => "byte"
  | short => "short"
  | char => "char"
  | int => "int"
  | long => "long"
  | float => "float"
  | double => "double"

/-- The primitive type a keyword names. -/
def ofKeyword? (word : String) : Option Primitive :=
  all.find? fun p => p.keyword = word

/-- The binary name of the class that boxes the type. -/
def boxName : Primitive → String
  | boolean => "java.lang.Boolean"
  | byte => "java.lang.Byte"
  | short => "java.lang.Short"
  | char => "java.lang.Character"
  | int => "java.lang.Integer"
  | long => "java.lang.Long"
  | float => "java.lang.Float"
  | double => "java.lang.Double"

/-- The primitive type boxed by the class of that binary name. -/
def ofBoxName? (name : String) : Option Primitive :=
  all.find? fun p => p.boxName = name

/-- Each primitive type is found by the name of the class that boxes it. -/
theorem ofBoxName?_boxName (p : Primitive) : ofBoxName? p.boxName = some p := by
  cases p <;> decide

/-- Whether the box of the type is a number: all are but those of `boolean` and `char`. -/
def boxIsNumber : Primitive → Bool
  | boolean | char => false
  | _ => true

/-- Widening primitive conversion, identity included. -/
def widens : Primitive → Primitive → Bool
  | byte, byte | byte, short | byte, int | byte, long | byte, float | byte, double => true
  | short, short | short, int | short, long | short, float | short, double => true
  | char, char | char, int | char, long | char, float | char, double => true
  | int, int | int, long | int, float | int, double => true
  | long, long | long, float | long, double => true
  | float, float | float, double => true
  | double, double => true
  | boolean, boolean => true
  | _, _ => false

/-- Every primitive type widens to itself. -/
theorem widens_refl (p : Primitive) : p.widens p = true := by
  cases p <;> rfl

end Primitive

end LambdaTyping
