import LambdaTyping.Table.Edit
import LambdaTyping.Table.Platform
import Mathlib.Tactic.Lemma

/-!
# Runs of edits

The operations on a table as data, so that runs of them can be spoken of, and what one operation
does to the declarations and to the name index.
-/

namespace LambdaTyping

/-- An operation that names a class or declares it. -/
inductive Declaration where
  | intern (name : String)
  | define (c : ClassId) (d : ClassDecl)
  | upsert (d : ClassDecl)
  deriving DecidableEq

/-- An operation on a table. -/
inductive TableEdit where
  | declare (e : Declaration)
  | modify (c : ClassId) (change : ClassDecl → ClassDecl)
  | addParam (name : String) (bounds : List Ty)
  | setUpperBounds (v : TypeVarId) (bounds : List Ty)
  | setLowerBound (v : TypeVarId) (bound : Option Ty)

namespace ClassTable

/-- The table after a declaration; one for a class that the table does not hold is ignored. -/
def declare (t : ClassTable) : Declaration → ClassTable
  | .intern name => (t.intern name).2
  | .define c d => (t.define? c d).getD t
  | .upsert d => (t.upsert d).2

/-- The table after a run of declarations. -/
def declareAll (t : ClassTable) (es : List Declaration) : ClassTable :=
  es.foldl declare t

/-- The table after an edit; one of what the table does not hold is ignored. -/
def edit (t : ClassTable) : TableEdit → ClassTable
  | .declare e => t.declare e
  | .modify c change => (t.modify? c change).getD t
  | .addParam name bounds => (t.addParam name bounds).2
  | .setUpperBounds v bounds => t.setUpperBounds v bounds
  | .setLowerBound v bound => t.setLowerBound v bound

/-- The table after a run of edits. -/
def editAll (t : ClassTable) (es : List TableEdit) : ClassTable :=
  es.foldl edit t

variable {t t' : ClassTable} {c : ClassId} {d old : ClassDecl}

/-- A run of declarations with one more at its end makes that one on the table the run leads to. -/
lemma declareAll_append (t : ClassTable) (es : List Declaration) (e : Declaration) :
    t.declareAll (es ++ [e]) = (t.declareAll es).declare e := by
  rw [declareAll, List.foldl_append]
  rfl

/-- A run of edits with one more at its end makes that one on the table the run leads to. -/
lemma editAll_append (t : ClassTable) (es : List TableEdit) (e : TableEdit) :
    t.editAll (es ++ [e]) = (t.editAll es).edit e := by
  rw [editAll, List.foldl_append]
  rfl

/-- The number of the next class is free: no class stands there yet. -/
lemma class?_nextClass (t : ClassTable) : t.class? t.nextClass = none := by
  simp [class?, nextClass]

/-- Allocating a class adds it under the next number and leaves all other classes as they are. -/
lemma class?_allocate (t : ClassTable) (d : ClassDecl) (c : ClassId) :
    (t.allocate d).class? c = if c = t.nextClass then some d else t.class? c := by
  cases c with
  | mk i => simp [class?, allocate, nextClass, Array.getElem?_push]

/-- Allocating a class points its name at the next number and leaves all other names as they are. -/
lemma classNamed?_allocate (t : ClassTable) (d : ClassDecl) (name : String) :
    (t.allocate d).classNamed? name =
      if name = d.name then some t.nextClass else t.classNamed? name := by
  simp [classNamed?, allocate, Std.TreeMap.getElem?_insert, @eq_comm _ name]

/-- A class of the table can be declared anew. -/
lemma define?_of_class? (h : t.class? c = some old) (d : ClassDecl) :
    ∃ t', t.define? c d = some t' := by
  rw [define?, h]
  exact ⟨_, rfl⟩

/-- What stands at a class after another declaration has been put there. -/
lemma getElem?_put (hc : t.class? c = some old) (d : ClassDecl) (e : ClassId) :
    (t.classes.setIfInBounds c.raw d)[e.raw]? = if e = c then some d else t.class? e := by
  obtain ⟨i⟩ := c
  obtain ⟨j⟩ := e
  have bound : i < t.classes.size := (Array.getElem?_eq_some_iff.1 hc).1
  by_cases same : i = j
  · subst same
    simp [bound]
  · simp [class?, same, Ne.symm same]

/-- Declaring a class anew replaces its declaration and no other. -/
lemma class?_of_define? (h : t.define? c d = some t') (e : ClassId) :
    t'.class? e = if e = c then some d else t.class? e := by
  cases hc : t.class? c with
  | none => simp [define?, hc] at h
  | some old =>
    simp only [define?, hc, Option.some.injEq] at h
    subst h
    exact getElem?_put hc d e

/-- What a name leads to after a class is declared anew: with its old name kept nothing moves, else
its new name leads to it and its old name nowhere. -/
lemma classNamed?_of_define? (hc : t.class? c = some old) (h : t.define? c d = some t')
    (name : String) :
    t'.classNamed? name =
      if old.name = d.name then t.classNamed? name
      else if name = d.name then some c
      else if name = old.name then none
      else t.classNamed? name := by
  simp only [define?, hc, Option.some.injEq] at h
  subst h
  rw [classNamed?]
  split
  · rfl
  · simp [classNamed?, Std.TreeMap.getElem?_insert, Std.TreeMap.getElem?_erase, @eq_comm _ name]

section Intern

/-- Naming a class leaves all other classes as they are. -/
lemma class?_intern (t : ClassTable) (name : String) {e : ClassId} (other : e ≠ (t.intern name).1) :
    (t.intern name).2.class? e = t.class? e := by
  rw [intern] at other ⊢
  split at other
  · rfl
  · rw [class?_allocate, if_neg other]

/-- A name leads to its class once it is interned, and all other names lead where they did. -/
lemma classNamed?_intern (t : ClassTable) (name other : String) :
    (t.intern name).2.classNamed? other =
      if other = name then some (t.intern name).1 else t.classNamed? other := by
  rw [intern]
  split
  · rename_i c known
    split
    · rename_i same
      rw [same, known]
    · rfl
  · rw [classNamed?_allocate]
    rfl

end Intern

/-- A change of a declaration where it stands concerns no other class. -/
lemma class?_of_modify? {change : ClassDecl → ClassDecl} (hc : t.class? c = some old)
    (h : t.modify? c change = some t') (e : ClassId) :
    t'.class? e = if e = c then some (change old) else t.class? e := by
  simp only [modify?, hc, Option.some.injEq] at h
  subst h
  exact getElem?_put hc (change old) e

end ClassTable

end LambdaTyping
