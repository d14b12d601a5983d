import LambdaTyping.Proofs.Table.Editing
import Mathlib.Data.List.Induction

/-!
# The name index

As long as a table changes by declarations alone, what its index holds is true: a name leads to a
class that declares it (`IndexSound`). An edit of a declaration where it stands can make the index
lie, but a name that it holds still leads to some class of the table (`IndexClosed`), and so an
upsert can mend it: `class?_upsert` and `classNamed?_upsert` say what is found afterwards.
-/

namespace LambdaTyping.ClassTable

/-- A name that the index holds leads to a class that declares it. -/
def IndexSound (t : ClassTable) : Prop :=
  ∀ name c, t.classNamed? name = some c → ∃ d, t.class? c = some d ∧ d.name = name

/-- A name that the index holds leads to a class of the table. -/
def IndexClosed (t : ClassTable) : Prop :=
  ∀ name c, t.classNamed? name = some c → t.declares c = true

variable {t t' : ClassTable} {c : ClassId} {d old : ClassDecl}

/-- A table declares the numbers under which it has a class. -/
lemma declares_iff : t.declares c = true ↔ ∃ d, t.class? c = some d :=
  Option.isSome_iff_exists

section Sound

/-- A sound index is closed. -/
lemma IndexSound.closed (h : t.IndexSound) : t.IndexClosed := by
  intro name c found
  obtain ⟨d, hd, -⟩ := h name c found
  exact declares_iff.2 ⟨d, hd⟩

/-- Allocating a class keeps the index sound. -/
lemma IndexSound.allocate (h : t.IndexSound) (d : ClassDecl) : (t.allocate d).IndexSound := by
  intro name c found
  rw [classNamed?_allocate] at found
  split at found
  · rename_i this
    cases found
    exact ⟨d, by rw [class?_allocate, if_pos rfl], this.symm⟩
  · obtain ⟨d', hd, named⟩ := h name c found
    refine ⟨d', ?_, named⟩
    rw [class?_allocate, if_neg, hd]
    rintro rfl
    rw [class?_nextClass] at hd
    cases hd

/-- Naming a class keeps the index sound. -/
lemma IndexSound.intern (h : t.IndexSound) (name : String) : (t.intern name).2.IndexSound := by
  rw [ClassTable.intern]
  split
  · exact h
  · exact h.allocate _

/-- A definition takes the old name of its class out of the index and puts the new one in, so what
the index holds of other names is about other classes. -/
lemma IndexSound.define (h : t.IndexSound) (hd : t.define? c d = some t') : t'.IndexSound := by
  cases hc : t.class? c with
  | none => simp [define?, hc] at hd
  | some old =>
    intro name e found
    rw [classNamed?_of_define? hc hd] at found
    rw [class?_of_define? hd]
    -- A name leads where it led before, to the class itself by its new name, or nowhere.
    split at found
    · rename_i kept
      obtain ⟨d', he, named⟩ := h name e found
      by_cases this : e = c
      · subst this
        rw [hc] at he
        cases he
        exact ⟨d, if_pos rfl, kept.symm.trans named⟩
      · exact ⟨d', by rw [if_neg this, he], named⟩
    · split at found
      · rename_i new
        cases found
        exact ⟨d, if_pos rfl, new.symm⟩
      · split at found
        · cases found
        · rename_i notOld
          obtain ⟨d', he, named⟩ := h name e found
          refine ⟨d', ?_, named⟩
          rw [if_neg, he]
          rintro rfl
          rw [hc] at he
          cases he
          exact notOld named.symm

/-- No declaration makes a sound index lie. -/
lemma IndexSound.declare (h : t.IndexSound) (e : Declaration) : (t.declare e).IndexSound := by
  have defined {t : ClassTable} (h : t.IndexSound) (c : ClassId) (d : ClassDecl) :
      ((t.define? c d).getD t).IndexSound := by
    cases hd : t.define? c d with
    | none => exact h
    | some t' => exact h.define hd
  cases e with
  | intern name => exact h.intern name
  | define c d => exact defined h c d
  | upsert d => exact defined (h.intern d.name) _ d

/-- The index of the platform classes is sound. -/
lemma indexSound_platform : platform.IndexSound := by
  have sound : ∀ p ∈ platform.index.toList,
      (platform.class? p.2).map ClassDecl.name = some p.1 := by
    decide +kernel
  intro name c found
  have named := sound (name, c) (Std.TreeMap.mem_toList_iff_getElem?_eq_some.2 found)
  exact Option.map_eq_some_iff.1 named

/-- After every run of declarations the index holds nothing that is not so. -/
lemma indexSound_declareAll (es : List Declaration) : (platform.declareAll es).IndexSound := by
  induction es using List.reverseRecOn with
  | nil => exact indexSound_platform
  | append_singleton es e ih =>
    rw [declareAll_append]
    exact ih.declare e

end Sound

section Upsert

/-- The class of a name is in the table once it is interned: it was before, or it stands for a class
to be declared. -/
lemma exists_class?_intern (closed : t.IndexClosed) (name : String) :
    ∃ old, (t.intern name).2.class? (t.intern name).1 = some old ∧
      (t.class? (t.intern name).1 = some old ∨
        t.class? (t.intern name).1 = none ∧ old.name = name) := by
  rw [ClassTable.intern]
  split
  · rename_i c known
    obtain ⟨old, hc⟩ := declares_iff.1 (closed name c known)
    exact ⟨old, hc, .inl hc⟩
  · refine ⟨.placeholder name, ?_, .inr ⟨t.class?_nextClass, rfl⟩⟩
    rw [class?_allocate, if_pos rfl]

/-- An upsert gives back the class that interning the name would. -/
lemma upsert_fst (t : ClassTable) (d : ClassDecl) : (t.upsert d).1 = (t.intern d.name).1 := rfl

/-- An upsert interns the name and then defines the class it has found. -/
lemma define?_intern (closed : t.IndexClosed) (d : ClassDecl) :
    (t.intern d.name).2.define? (t.upsert d).1 d = some (t.upsert d).2 := by
  obtain ⟨old, hc, -⟩ := exists_class?_intern closed d.name
  obtain ⟨t', ht⟩ := define?_of_class? hc d
  have upserted : (t.upsert d).2 = t' := by
    rw [upsert]
    simp only [ht, Option.getD_some]
  rw [upsert_fst, upserted, ht]

/-- After an upsert the class of the name is declared so, and the other classes as before. -/
lemma class?_upsert (closed : t.IndexClosed) (d : ClassDecl) (e : ClassId) :
    (t.upsert d).2.class? e = if e = (t.upsert d).1 then some d else t.class? e := by
  rw [class?_of_define? (define?_intern closed d)]
  split
  · rfl
  · rename_i other
    exact t.class?_intern d.name other

/-- After an upsert the name leads to its class, the name that the class had before leads nowhere,
and all other names lead where they did. -/
lemma classNamed?_upsert (closed : t.IndexClosed) (d : ClassDecl) (name : String) :
    (t.upsert d).2.classNamed? name =
      if name = d.name then some (t.upsert d).1
      else if (t.class? (t.upsert d).1).map ClassDecl.name = some name then none
      else t.classNamed? name := by
  obtain ⟨old, hc, before⟩ := exists_class?_intern closed d.name
  rw [classNamed?_of_define? hc (define?_intern closed d), classNamed?_intern, ← upsert_fst]
  rw [← upsert_fst] at before
  by_cases this : name = d.name
  · simp only [if_pos this, ite_self]
  · simp only [if_neg this]
    rcases before with known | ⟨new, named⟩
    · rw [known, Option.map_some]
      by_cases same : name = old.name
      · have renamed : old.name ≠ d.name := fun kept => this (same.trans kept)
        rw [if_neg renamed, if_pos same, if_pos (congrArg some same.symm)]
      · have other : some old.name ≠ some name := fun e => same (Option.some_inj.1 e).symm
        rw [if_neg same, ite_self, if_neg other]
    · rw [if_pos named, new, Option.map_none, if_neg (Option.some_ne_none _).symm]

end Upsert

section Closed

/-- The index stays closed if the table keeps its classes and each name leads where it did or to a
class of the table. -/
lemma IndexClosed.imp (h : t.IndexClosed)
    (kept : ∀ c, t.declares c = true → t'.declares c = true)
    (named : ∀ name c, t'.classNamed? name = some c →
      t.classNamed? name = some c ∨ t'.declares c = true) : t'.IndexClosed := by
  intro name c found
  rcases named name c found with before | declared
  · exact kept c (h name c before)
  · exact declared

/-- Naming a class keeps the index closed. -/
lemma IndexClosed.intern (h : t.IndexClosed) (name : String) : (t.intern name).2.IndexClosed := by
  obtain ⟨old, hc, -⟩ := exists_class?_intern h name
  have here : (t.intern name).2.declares (t.intern name).1 = true := declares_iff.2 ⟨old, hc⟩
  refine h.imp (fun e declared => ?_) fun other e found => ?_
  · by_cases this : e = (t.intern name).1
    · rwa [this]
    · rwa [declares, class?_intern t name this]
  · rw [classNamed?_intern] at found
    split at found
    · cases found
      exact .inr here
    · exact .inl found

/-- Declaring a class anew keeps the index closed. -/
lemma IndexClosed.define (h : t.IndexClosed) (hd : t.define? c d = some t') : t'.IndexClosed := by
  cases hc : t.class? c with
  | none => simp [define?, hc] at hd
  | some old =>
    have here : t'.declares c = true := declares_iff.2 ⟨d, by rw [class?_of_define? hd, if_pos rfl]⟩
    refine h.imp (fun e declared => ?_) fun name e found => ?_
    · by_cases this : e = c
      · rwa [this]
      · rwa [declares, class?_of_define? hd, if_neg this]
    · rw [classNamed?_of_define? hc hd] at found
      split at found
      · exact .inl found
      · split at found
        · cases found
          exact .inr here
        · split at found
          · cases found
          · exact .inl found

/-- A change of a declaration where it stands keeps the index closed, though it can make it lie. -/
lemma IndexClosed.modify (h : t.IndexClosed) {change : ClassDecl → ClassDecl}
    (hd : t.modify? c change = some t') : t'.IndexClosed := by
  cases hc : t.class? c with
  | none => simp [modify?, hc] at hd
  | some old =>
    refine h.imp (fun e declared => ?_) fun name e found => .inl ?_
    · rw [declares, class?_of_modify? hc hd]
      split
      · rfl
      · exact declared
    · simp only [modify?, hc, Option.some.injEq] at hd
      subst hd
      exact found

/-- A change of a type parameter does not touch the index. -/
lemma IndexClosed.modifyParam (h : t.IndexClosed) (v : TypeVarId)
    (change : TypeParam → TypeParam) : (t.modifyParam v change).IndexClosed := by
  rw [ClassTable.modifyParam]
  split
  · exact h
  · exact h

/-- No edit makes a name lead out of the table. -/
lemma IndexClosed.edit (h : t.IndexClosed) (e : TableEdit) : (t.edit e).IndexClosed := by
  have defined {t : ClassTable} (h : t.IndexClosed) (c : ClassId) (d : ClassDecl) :
      ((t.define? c d).getD t).IndexClosed := by
    cases hd : t.define? c d with
    | none => exact h
    | some t' => exact h.define hd
  cases e with
  | declare e =>
    cases e with
    | intern name => exact h.intern name
    | define c d => exact defined h c d
    | upsert d => exact defined (h.intern d.name) _ d
  | modify c change =>
    rw [ClassTable.edit]
    cases hd : t.modify? c change with
    | none => exact h
    | some t' => exact h.modify hd
  | addParam name bounds => exact h
  | setUpperBounds v bounds => exact h.modifyParam v _
  | setLowerBound v bound => exact h.modifyParam v _

/-- In every table that edits lead to a name leads to a class of the table. -/
lemma indexClosed_editAll (es : List TableEdit) : (platform.editAll es).IndexClosed := by
  induction es using List.reverseRecOn with
  | nil => exact indexSound_platform.closed
  | append_singleton es e ih =>
    rw [editAll_append]
    exact ih.edit e

end Closed

/-- Declarations keep the index true. After any edits, renamings in place included, an upsert makes
the name lead to a class that is declared so; it changes no other class, and of the names it changes
only where this one leads and the one that the class had before. -/
theorem index_sound_and_upsert_mends :
    (∀ es name c, (platform.declareAll es).classNamed? name = some c →
      ∃ d, (platform.declareAll es).class? c = some d ∧ d.name = name) ∧
    ∀ es d c t', (platform.editAll es).upsert d = (c, t') →
      t'.classNamed? d.name = some c ∧ t'.class? c = some d ∧
        (∀ e, e ≠ c → t'.class? e = (platform.editAll es).class? e) ∧
        ∀ name, t'.classNamed? name ≠ (platform.editAll es).classNamed? name →
          name = d.name ∨ ∃ old, (platform.editAll es).class? c = some old ∧ old.name = name := by
  refine ⟨indexSound_declareAll, fun es d c t' upserted => ?_⟩
  have closed := indexClosed_editAll es
  have declared := class?_upsert closed d
  have named := classNamed?_upsert closed d
  simp only [upserted] at declared named
  refine ⟨?_, ?_, fun e other => ?_, fun name changed => ?_⟩
  · rw [named, if_pos rfl]
  · rw [declared, if_pos rfl]
  · rw [declared, if_neg other]
  · by_contra others
    obtain ⟨notNew, notOld⟩ := not_or.1 others
    refine changed ?_
    rw [named, if_neg notNew, if_neg fun old => notOld (Option.map_eq_some_iff.1 old)]

/-- Two new classes, of which the first is then renamed where it stands, to the name of the second.
-/
def renamedInPlace : List TableEdit :=
  [.declare (.upsert (.placeholder "A")), .declare (.upsert (.placeholder "B")),
    .modify ⟨28⟩ fun d => { d with name := "B" }]

/-- The name of the first class, which the index still holds, is mended, at the cost of that of the
second. -/
theorem index_sound_and_upsert_mends_renamedInPlace :
    (platform.declareAll [.upsert (.placeholder "A"), .upsert (.placeholder "B")]).classNamed? "B" =
        some ⟨29⟩ ∧
      (∃ d, (platform.declareAll [.upsert (.placeholder "A"), .upsert (.placeholder "B")]).class?
        ⟨29⟩ = some d ∧ d.name = "B") ∧
      ∃ t', (platform.editAll renamedInPlace).upsert (.placeholder "A") = (⟨28⟩, t') ∧
        t'.classNamed? "A" = some ⟨28⟩ ∧ t'.class? ⟨28⟩ = some (.placeholder "A") ∧
        t'.class? ⟨29⟩ = (platform.editAll renamedInPlace).class? ⟨29⟩ ∧
        t'.classNamed? "B" ≠ (platform.editAll renamedInPlace).classNamed? "B" ∧
        ∃ old, (platform.editAll renamedInPlace).class? ⟨28⟩ = some old ∧ old.name = "B" := by
  have found : (platform.declareAll [.upsert (.placeholder "A"),
      .upsert (.placeholder "B")]).classNamed? "B" = some ⟨29⟩ := by decide +kernel
  have upserted : (platform.editAll renamedInPlace).upsert (.placeholder "A") =
      (⟨28⟩, ((platform.editAll renamedInPlace).upsert (.placeholder "A")).2) :=
    Prod.ext (by decide +kernel) rfl
  have lost : ((platform.editAll renamedInPlace).upsert (.placeholder "A")).2.classNamed? "B" ≠
      (platform.editAll renamedInPlace).classNamed? "B" := by decide +kernel
  obtain ⟨sound, mends⟩ := index_sound_and_upsert_mends
  obtain ⟨named, declared, others, changed⟩ := mends _ _ _ _ upserted
  refine ⟨found, sound _ _ _ found, _, upserted, named, declared, others ⟨29⟩ (by decide), lost, ?_⟩
  exact (changed "B" lost).resolve_left (by decide)

end LambdaTyping.ClassTable
