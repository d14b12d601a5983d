import LambdaTyping.Query
import Mathlib.Tactic.Lemma

/-!
# Answers of composed queries

A query that asks whether all or some of several questions hold stops at the first that decides,
and its answer is one that the questions have.
-/

namespace LambdaTyping.Query

/-- A query answered at once ends. -/
lemma ends_pure {α : Type} (a : α) : (pure a : Query α).Ends :=
  ⟨a, gives_pure_iff.2 rfl⟩

/-- An attempt that comes to an answer, whatever it reports, gives it. -/
lemma gives_of_attempt {α : Type} {x : Query α} {n : Nat} {a : α}
    (h : (x.attempt n).map Prod.fst = some a) : x.Gives a := by
  obtain ⟨p, hp, rfl⟩ := Option.map_eq_some_iff.1 h
  exact ⟨n, p.2, hp⟩

/-- A sequence of two queries ends if the first does, and the second on each of its answers. -/
lemma Ends.bind {α β : Type} {x : Query α} {f : α → Query β} (hx : x.Ends)
    (hf : ∀ a, x.Gives a → (f a).Ends) : (x >>= f).Ends := by
  obtain ⟨a, ha⟩ := hx
  obtain ⟨b, hb⟩ := hf a ha
  exact ⟨b, gives_bind_iff.2 ⟨a, ha, hb⟩⟩

/-- After a query with this answer comes what follows on the answer. -/
lemma gives_bind_of_gives {α β : Type} {x : Query α} {f : α → Query β} {a : α} {b : β}
    (h : x.Gives a) : (x >>= f).Gives b ↔ (f a).Gives b := by
  rw [gives_bind_iff]
  constructor
  · rintro ⟨a', ha', hb⟩
    cases h.unique ha'
    exact hb
  · intro hb
    exact ⟨a, h, hb⟩

/-- Queries are the same if every attempt is. -/
lemma eq_of_attempt {α : Type} {x y : Query α} (h : ∀ n, x.attempt n = y.attempt n) : x = y := by
  cases x
  cases y
  cases funext h
  rfl

/-- Two sequences are the same if they are after each answer that the first query has. -/
lemma bind_congr {α β : Type} {x : Query α} {f g : α → Query β}
    (h : ∀ a, x.Gives a → f a = g a) : x >>= f = x >>= g := by
  refine eq_of_attempt fun n => ?_
  change (x.andThen f).attempt n = (x.andThen g).attempt n
  cases hx : x.attempt n with
  | none => simp [andThen, hx]
  | some p => simp [andThen, hx, h p.1 ⟨n, p.2, hx⟩]

variable {α : Type} {f : α → Query Bool} {as : List α}

/-- Whether all hold depends on the questions about the elements only. -/
lemma allM_congr {g : α → Query Bool} (h : ∀ a ∈ as, f a = g a) : as.allM f = as.allM g := by
  induction as with
  | nil => rfl
  | cons a as ih =>
    obtain ⟨ha, has⟩ := List.forall_mem_cons.1 h
    rw [List.allM_cons, List.allM_cons, ha, ih has]

/-- Whether some hold depends on the questions about the elements only. -/
lemma anyM_congr {g : α → Query Bool} (h : ∀ a ∈ as, f a = g a) : as.anyM f = as.anyM g := by
  induction as with
  | nil => rfl
  | cons a as ih =>
    obtain ⟨ha, has⟩ := List.forall_mem_cons.1 h
    rw [List.anyM_cons, List.anyM_cons, ha, ih has]

/-- All hold if each question has the answer yes. -/
lemma gives_allM_true_iff : (as.allM f).Gives true ↔ ∀ a ∈ as, (f a).Gives true := by
  induction as with
  | nil => exact iff_of_true (gives_pure_iff.2 rfl) fun a ha => absurd ha List.not_mem_nil
  | cons a as ih =>
    rw [List.allM_cons, gives_bind_iff, List.forall_mem_cons, ← ih]
    constructor
    · rintro ⟨b, hb, h⟩
      cases b with
      | false => cases gives_pure_iff.1 h
      | true => exact ⟨hb, h⟩
    · rintro ⟨ha, h⟩
      exact ⟨true, ha, h⟩

/-- Not all hold only if some question has the answer no. -/
lemma exists_of_allM_false (h : (as.allM f).Gives false) : ∃ a ∈ as, (f a).Gives false := by
  induction as with
  | nil => cases gives_pure_iff.1 h
  | cons a as ih =>
    obtain ⟨b, hb, h⟩ := gives_bind_iff.1 h
    cases b with
    | false => exact ⟨a, List.mem_cons_self, hb⟩
    | true =>
      obtain ⟨c, hc, no⟩ := ih h
      exact ⟨c, List.mem_cons_of_mem _ hc, no⟩

/-- Some hold only if one question has the answer yes. -/
lemma exists_of_anyM_true (h : (as.anyM f).Gives true) : ∃ a ∈ as, (f a).Gives true := by
  induction as with
  | nil => cases gives_pure_iff.1 h
  | cons a as ih =>
    obtain ⟨b, hb, h⟩ := gives_bind_iff.1 h
    cases b with
    | false =>
      obtain ⟨c, hc, yes⟩ := ih h
      exact ⟨c, List.mem_cons_of_mem _ hc, yes⟩
    | true => exact ⟨a, List.mem_cons_self, hb⟩

/-- None hold only if each question has the answer no. -/
lemma forall_of_anyM_false (h : (as.anyM f).Gives false) : ∀ a ∈ as, (f a).Gives false := by
  induction as with
  | nil => exact fun a ha => absurd ha List.not_mem_nil
  | cons a as ih =>
    obtain ⟨b, hb, h⟩ := gives_bind_iff.1 h
    cases b with
    | false => exact List.forall_mem_cons.2 ⟨hb, ih h⟩
    | true => cases gives_pure_iff.1 h

/-- Whether all hold is answered if each question is. -/
lemma allM_ends (h : ∀ a ∈ as, (f a).Ends) : (as.allM f).Ends := by
  induction as with
  | nil => exact ends_pure true
  | cons a as ih =>
    obtain ⟨head, tail⟩ := List.forall_mem_cons.1 h
    refine head.bind fun b _ => ?_
    cases b with
    | false => exact ends_pure false
    | true => exact ih tail

/-- Whether some hold is answered if each question is. -/
lemma anyM_ends (h : ∀ a ∈ as, (f a).Ends) : (as.anyM f).Ends := by
  induction as with
  | nil => exact ends_pure false
  | cons a as ih =>
    obtain ⟨head, tail⟩ := List.forall_mem_cons.1 h
    refine head.bind fun b _ => ?_
    cases b with
    | false => exact ih tail
    | true => exact ends_pure true

end LambdaTyping.Query
