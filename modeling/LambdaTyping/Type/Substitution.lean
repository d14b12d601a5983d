import LambdaTyping.Type.Basic

/-!
# Substitutions

A substitution maps finitely many type variables to types. `Subst.apply` puts the types in, with
intersections brought to normal form, and `Subst.andThen` composes.
-/

namespace LambdaTyping

/-- A finite map from type variables to types. -/
structure Subst where
  map : Std.TreeMap TypeVarId Ty

namespace Subst

/-- The substitution that maps nothing. -/
def empty : Subst := ⟨∅⟩

/-- The type a variable is mapped to. -/
def get? (s : Subst) (v : TypeVarId) : Option Ty :=
  s.map[v]?

/-- The substitution with a variable mapped to another type. -/
def insert (s : Subst) (v : TypeVarId) (t : Ty) : Subst :=
  ⟨s.map.insert v t⟩

/-- The substitution of these pairs; of two pairs for one variable the later one counts. -/
def ofList (pairs : List (TypeVarId × Ty)) : Subst :=
  pairs.foldl (fun s p => s.insert p.1 p.2) empty

/-- The pairs of the substitution, by the number of the variable. -/
def toList (s : Subst) : List (TypeVarId × Ty) :=
  s.map.toList

/-- How many variables are mapped. -/
def size (s : Subst) : Nat :=
  s.map.size

/-- Whether no variable is mapped. -/
def isEmpty (s : Subst) : Bool :=
  s.map.isEmpty

/-- The substitution with each type replaced, by its variable and the type itself. -/
def mapTypes (s : Subst) (f : TypeVarId → Ty → Ty) : Subst :=
  ⟨s.map.map f⟩

/-- The empty substitution maps no variable. -/
@[simp] theorem get?_empty (v : TypeVarId) : empty.get? v = none := by
  simp [empty, get?]

/-- After an insertion the variable has its new image and every other the one it had. -/
theorem get?_insert (s : Subst) (v w : TypeVarId) (t : Ty) :
    (s.insert v t).get? w = if v = w then some t else s.get? w := by
  simp [insert, get?, Std.TreeMap.getElem?_insert]

/-- Replacing the types of a substitution replaces the image of each variable. -/
@[simp] theorem get?_mapTypes (s : Subst) (f : TypeVarId → Ty → Ty) (v : TypeVarId) :
    (s.mapTypes f).get? v = (s.get? v).map (f v) := by
  simp [mapTypes, get?]

mutual

/-- The type with every mapped variable replaced and every intersection on the way brought to
normal form. -/
def rebuild (s : Subst) : Ty → Ty
  | .var v => (s.get? v).getD (.var v)
  | .cls c args => .cls c (s.rebuildAll args)
  | .array e => .array (s.rebuild e)
  | .wildExtends b => .wildExtends (s.rebuild b)
  | .wildSuper b => .wildSuper (s.rebuild b)
  | .inter ms => .intersection (s.rebuildAll ms)
  | .void => .void
  | .null => .null
  | .unknown => .unknown
  | .prim p => .prim p
  | .wild => .wild

/-- Each type of a list, rebuilt. -/
def rebuildAll (s : Subst) : List Ty → List Ty
  | [] => []
  | t :: ts => s.rebuild t :: s.rebuildAll ts

end

/-- A list is rebuilt element by element. -/
@[simp] theorem rebuildAll_eq (s : Subst) (ts : List Ty) : s.rebuildAll ts = ts.map s.rebuild := by
  induction ts with
  | nil => rfl
  | cons t ts ih => simp [rebuildAll, ih]

/-- Apply the substitution to a type. The one that maps nothing leaves the type as it stands. -/
def apply (s : Subst) (t : Ty) : Ty :=
  if s.isEmpty then t else s.rebuild t

/-- First one substitution, then another. -/
def andThen (s u : Subst) : Subst :=
  ⟨u.map ∪ (s.mapTypes fun _ => u.apply).map⟩

/-- A composition maps a variable to its first image, changed by the second substitution, or else to
its second image. -/
theorem get?_andThen (s u : Subst) (v : TypeVarId) :
    (s.andThen u).get? v = ((s.get? v).map u.apply).or (u.get? v) := by
  simp [andThen, get?, mapTypes, Std.TreeMap.getElem?_union]

end Subst

end LambdaTyping
