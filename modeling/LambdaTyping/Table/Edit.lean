import LambdaTyping.Event
import LambdaTyping.Table.Basic

/-!
# Changing a declaration table

Numbers are given out in order and never taken back. The name index follows every operation but
`modify?`, which edits a declaration where it stands.
-/

namespace LambdaTyping

namespace ClassDecl

/-- What stands for a class that has been named and not declared yet. -/
def placeholder (name : String) : ClassDecl where
  name := name
  kind := .cls
  typeParams := []
  superClass := none
  interfaces := []
  methods := []

end ClassDecl

namespace ClassTable

/-- The number the next new class will have. -/
def nextClass (t : ClassTable) : ClassId := ⟨t.classes.size⟩

/-- The number the next new type parameter will have. -/
def nextParam (t : ClassTable) : TypeVarId := ⟨t.params.size⟩

/-- The table with a new class at the end, found under its name. -/
def allocate (t : ClassTable) (d : ClassDecl) : ClassTable :=
  { t with classes := t.classes.push d, index := t.index.insert d.name t.nextClass }

/-- The class of a name, and the table in which it has one: an unknown name gets a new class. -/
def intern (t : ClassTable) (name : String) : ClassId × ClassTable :=
  match t.classNamed? name with
  | some c => (c, t)
  | none => (t.nextClass, t.allocate (.placeholder name))

/-- The table with another declaration at a class, and the index moved from the old name to the new
one if they differ; `none` if the table does not hold the class. -/
def define? (t : ClassTable) (c : ClassId) (d : ClassDecl) : Option ClassTable :=
  match t.class? c with
  | none => none
  | some old =>
    some { t with
      classes := t.classes.setIfInBounds c.raw d
      index := if old.name = d.name then t.index else (t.index.erase old.name).insert d.name c }

/-- What a definition reports: that the class is foreign to the table. -/
def defineEvents (t : ClassTable) (c : ClassId) (d : ClassDecl) : List Event :=
  if t.declares c then [] else [.foreignDefinition c d.name]

/-- The class of the declaration's name, declared so. -/
def upsert (t : ClassTable) (d : ClassDecl) : ClassId × ClassTable :=
  let (c, t) := t.intern d.name
  (c, (t.define? c d).getD t)

/-- What `upsert` reports. -/
def upsertEvents (t : ClassTable) (d : ClassDecl) : List Event :=
  let (c, t) := t.intern d.name
  t.defineEvents c d

/-- The table with a declaration edited where it stands, under the name it is indexed by; `none` if
the table does not hold the class. -/
def modify? (t : ClassTable) (c : ClassId) (edit : ClassDecl → ClassDecl) : Option ClassTable :=
  match t.class? c with
  | none => none
  | some d => some { t with classes := t.classes.setIfInBounds c.raw (edit d) }

/-- A new type parameter with these upper bounds. -/
def addParam (t : ClassTable) (name : String) (bounds : List Ty) : TypeVarId × ClassTable :=
  (t.nextParam, { t with params := t.params.push ⟨name, bounds, none⟩ })

/-- The table with a type parameter edited; an unknown one stays unknown. -/
def modifyParam (t : ClassTable) (v : TypeVarId) (edit : TypeParam → TypeParam) : ClassTable :=
  match t.param? v with
  | none => t
  | some p => { t with params := t.params.setIfInBounds v.raw (edit p) }

/-- The table with other upper bounds for a type parameter. -/
def setUpperBounds (t : ClassTable) (v : TypeVarId) (bounds : List Ty) : ClassTable :=
  t.modifyParam v fun p => { p with upperBounds := bounds }

/-- The table with another lower bound for a type parameter, or none. -/
def setLowerBound (t : ClassTable) (v : TypeVarId) (bound : Option Ty) : ClassTable :=
  t.modifyParam v fun p => { p with lowerBound := bound }

end ClassTable

end LambdaTyping
