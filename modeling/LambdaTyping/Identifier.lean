import Std.Data.TreeMap

/-!
# Identifiers

Declarations and expressions are referred to by number. Classes and type parameters are ordered by
it, so that they can be the keys of maps.
-/

namespace LambdaTyping

/-- A class, interface, enum or annotation type, by its place in the declaration table. -/
structure ClassId where
  raw : Nat
  deriving DecidableEq

/-- A type parameter, by its place in the declaration table. -/
structure TypeVarId where
  raw : Nat
  deriving DecidableEq

/-- An expression of the program text whose lambdas are checked. -/
structure ExprId where
  raw : Nat
  deriving DecidableEq

instance : Ord ClassId := ⟨compareOn ClassId.raw⟩

instance : Std.TransOrd ClassId := inferInstanceAs (Std.TransCmp (compareOn ClassId.raw))

instance : Std.LawfulEqOrd ClassId where
  eq_of_compare {a b} h := by
    have e : compare a.raw b.raw = .eq := h
    cases a
    cases b
    simpa using e

instance : Ord TypeVarId := ⟨compareOn TypeVarId.raw⟩

instance : Std.TransOrd TypeVarId := inferInstanceAs (Std.TransCmp (compareOn TypeVarId.raw))

instance : Std.LawfulEqOrd TypeVarId where
  eq_of_compare {a b} h := by
    have e : compare a.raw b.raw = .eq := h
    cases a
    cases b
    simpa using e

end LambdaTyping
