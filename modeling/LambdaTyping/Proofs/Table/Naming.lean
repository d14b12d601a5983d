import LambdaTyping.Proofs.Table.Editing
import Mathlib.Data.List.Induction
import Mathlib.Tactic.ByContra

/-!
# Classes and their names

A table should find every class by the name it declares. A new class never gets in the way of
another one, but a definition does if it gives its class the name that another class has: the index
then moves to the defined class, and renaming that one again leaves the name with no class at all.
-/

namespace LambdaTyping.ClassTable

/-- Every class is found by its name. -/
def FindsEach (t : ClassTable) : Prop :=
  ∀ c d, t.class? c = some d → t.classNamed? d.name = some c

/-- The declaration gives a class of the table the name of another one. -/
def TakesName (t : ClassTable) : Declaration → Prop
  | .define c d => t.declares c = true ∧ ∃ e d', t.class? e = some d' ∧ d'.name = d.name ∧ e ≠ c
  | .intern _ | .upsert _ => False

variable {t : ClassTable}

namespace FindsEach

variable (h : t.FindsEach)

include h

/-- Classes that are found have names of their own. -/
lemma eq_of_name {c e : ClassId} {d d' : ClassDecl} (hc : t.class? c = some d)
    (he : t.class? e = some d') (same : d'.name = d.name) : e = c := by
  have found := h e d' he
  rw [same, h c d hc] at found
  exact (Option.some_inj.1 found).symm

/-- A class allocated under a new name is found, and all others still are. -/
lemma allocate {d : ClassDecl} (new : t.classNamed? d.name = none) : (t.allocate d).FindsEach := by
  intro c d' hc
  rw [class?_allocate] at hc
  rw [classNamed?_allocate]
  split at hc
  · rename_i last
    cases hc
    rw [if_pos rfl, last]
  · have found := h c d' hc
    rw [if_neg, found]
    intro same
    rw [same, new] at found
    cases found

/-- Naming a class keeps every class found by its name. -/
lemma intern (name : String) : (t.intern name).2.FindsEach := by
  rw [ClassTable.intern]
  split
  · exact h
  · rename_i new
    exact h.allocate new

/-- A definition under a name that no other class has leaves every class found. -/
lemma define {t' : ClassTable} {c : ClassId} {d : ClassDecl} (hd : t.define? c d = some t')
    (free : ∀ e d', t.class? e = some d' → d'.name = d.name → e = c) : t'.FindsEach := by
  cases hc : t.class? c with
  | none => simp [define?, hc] at hd
  | some old =>
    intro e d' he
    rw [class?_of_define? hd] at he
    rw [classNamed?_of_define? hc hd]
    split at he
    · rename_i this
      cases he
      subst this
      split
      · rename_i kept
        rw [← kept]
        exact h e old hc
      · exact if_pos rfl
    · rename_i other
      have found := h e d' he
      split
      · exact found
      · rw [if_neg fun same => other (free e d' he same),
          if_neg fun same => other (h.eq_of_name hc he same)]
        exact found

/-- A name that has just been looked up, or given to a new class, is the name of no other class. -/
lemma upsert (d : ClassDecl) : (t.upsert d).2.FindsEach := by
  have named : (t.intern d.name).2.classNamed? d.name = some (t.intern d.name).1 := by
    rw [ClassTable.intern]
    split
    · assumption
    · rw [classNamed?_allocate]
      exact if_pos rfl
  have found := h.intern d.name
  rw [ClassTable.upsert]
  generalize t.intern d.name = p at named found
  obtain ⟨c, t₁⟩ := p
  show ((t₁.define? c d).getD t₁).FindsEach
  cases hd : t₁.define? c d with
  | none => exact found
  | some t' =>
    refine found.define hd fun e d' he same => ?_
    have found' := found e d' he
    rw [same, named] at found'
    exact (Option.some_inj.1 found').symm

/-- A declaration leaves every class found exactly if it does not take a name from another one. -/
lemma declare_iff (e : Declaration) : (t.declare e).FindsEach ↔ ¬ t.TakesName e := by
  cases e with
  | intern name => exact iff_of_true (h.intern name) id
  | upsert d => exact iff_of_true (h.upsert d) id
  | define c d =>
    cases hc : t.class? c with
    | none =>
      refine iff_of_true ?_ ?_
      · simpa [declare, define?, hc] using h
      · simp [TakesName, declares, hc]
    | some old =>
      obtain ⟨t', ht⟩ := define?_of_class? hc d
      rw [show t.declare (.define c d) = t' by rw [declare, ht]; rfl]
      constructor
      · rintro found ⟨-, e, d', he, same, other⟩
        have hc' : t'.class? c = some d := by rw [class?_of_define? ht, if_pos rfl]
        have he' : t'.class? e = some d' := by rw [class?_of_define? ht, if_neg other, he]
        exact other (found.eq_of_name hc' he' same)
      · intro kept
        refine h.define ht fun e d' he same => ?_
        by_contra other
        exact kept ⟨by simp [declares, hc], e, d', he, same, other⟩

end FindsEach

/-- The platform classes are all found by their names. -/
lemma findsEach_platform : platform.FindsEach := by
  have found : ∀ i : Fin platform.classes.size,
      platform.classNamed? platform.classes[i].name = some ⟨i⟩ := by decide +kernel
  rintro ⟨i⟩ d hd
  obtain ⟨size, rfl⟩ := Array.getElem?_eq_some_iff.1 hd
  exact found ⟨i, size⟩

/-- Along a run of declarations every class stays found by its name exactly as long as no
declaration gives a class the name of another one. -/
theorem findsEach_declareAll_iff (es : List Declaration) :
    (∀ past, past <+: es → (platform.declareAll past).FindsEach) ↔
      ∀ past e, past ++ [e] <+: es → ¬ (platform.declareAll past).TakesName e := by
  constructor
  · intro found past e h
    have before := found past ((List.prefix_append past [e]).trans h)
    have after := found (past ++ [e]) h
    rw [declareAll_append] at after
    exact (before.declare_iff e).1 after
  · intro kept past h
    -- By induction on the declarations made so far: none of them has taken the name of another
    -- class.
    induction past using List.reverseRecOn with
    | nil => exact findsEach_platform
    | append_singleton past e ih =>
      have before := ih ((List.prefix_append past [e]).trans h)
      rw [declareAll_append]
      exact (before.declare_iff e).2 (kept past e h)

/-- Two new classes, of which the second is given the name of the first and the first then another
name. -/
def nameTaken : List Declaration :=
  [.upsert (.placeholder "A"), .upsert (.placeholder "B"), .define ⟨29⟩ (.placeholder "A"),
    .define ⟨28⟩ (.placeholder "C")]

/-- The second class still declares its name, which finds no class any more: renaming the first one
took the name out of the index, whoever it stood for. -/
theorem not_findsEach_nameTaken :
    (platform.declareAll nameTaken).class? ⟨29⟩ = some (.placeholder "A") ∧
      (platform.declareAll nameTaken).classNamed? "A" = none := by
  decide +kernel

end LambdaTyping.ClassTable
