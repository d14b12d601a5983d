import LambdaTyping.Event

/-!
# Queries

A question about a declaration table may have no answer, because the declarations send it round in
circles. A `Query` is such a question: it can be attempted within any depth of recursion, an
attempt that is deep enough gives the answer and the events reported on the way, and a deeper one
gives the same. `Query.Gives` states that a query has an answer; `gives_bind_iff` takes a query
apart into its steps.
-/

namespace LambdaTyping

/-- A question that is answered, if at all, by every deep enough attempt. -/
structure Query (α : Type) where
  attempt : Nat → Option (α × List Event)
  attempt_mono : ∀ {n m r}, n ≤ m → attempt n = some r → attempt m = some r

namespace Query

variable {α β : Type}

/-- The query has this answer. -/
def Gives (x : Query α) (a : α) : Prop :=
  ∃ n es, x.attempt n = some (a, es)

/-- The query has an answer. -/
def Ends (x : Query α) : Prop :=
  ∃ a, x.Gives a

/-- A query has at most one answer. -/
theorem Gives.unique {x : Query α} {a b : α} (ha : x.Gives a) (hb : x.Gives b) : a = b := by
  obtain ⟨n, es, hn⟩ := ha
  obtain ⟨m, fs, hm⟩ := hb
  have hn' := x.attempt_mono (Nat.le_max_left n m) hn
  have hm' := x.attempt_mono (Nat.le_max_right n m) hm
  rw [hn'] at hm'
  cases hm'
  rfl

/-- The query without an answer. -/
def never : Query α where
  attempt _ := none
  attempt_mono _ h := nomatch h

/-- The query that reports some events. -/
def report (es : List Event) : Query Unit where
  attempt _ := some ((), es)
  attempt_mono _ h := h

/-- The query answered at once. -/
def answer (a : α) : Query α where
  attempt _ := some (a, [])
  attempt_mono _ h := h

/-- One query after another, which may depend on the first one's answer. -/
def andThen (x : Query α) (f : α → Query β) : Query β where
  attempt n :=
    match x.attempt n with
    | none => none
    | some (a, es) => ((f a).attempt n).map fun r => (r.1, es ++ r.2)
  attempt_mono := by
    intro n m r le h
    cases hx : x.attempt n with
    | none => simp [hx] at h
    | some p =>
      simp only [hx, Option.map_eq_some_iff] at h
      obtain ⟨q, hq, rfl⟩ := h
      simp [x.attempt_mono le hx, (f p.1).attempt_mono le hq]

instance : Monad Query where
  pure := answer
  bind := andThen

/-- A query answered at once has that answer and no other. -/
@[simp] theorem gives_pure_iff {a b : α} : (pure a : Query α).Gives b ↔ a = b := by
  constructor
  · rintro ⟨_, _, h⟩
    cases h
    rfl
  · rintro rfl
    exact ⟨0, [], rfl⟩

/-- Reporting events always ends. -/
@[simp] theorem gives_report_iff {es : List Event} {u : Unit} : (report es).Gives u ↔ True :=
  iff_true_intro ⟨0, es, rfl⟩

/-- A sequence of two queries gives what the second gives on the first one's answer. -/
theorem gives_bind_iff {x : Query α} {f : α → Query β} {b : β} :
    (x >>= f).Gives b ↔ ∃ a, x.Gives a ∧ (f a).Gives b := by
  constructor
  · rintro ⟨n, es, h⟩
    change (x.andThen f).attempt n = _ at h
    cases hx : x.attempt n with
    | none => simp [andThen, hx] at h
    | some p =>
      simp only [andThen, hx, Option.map_eq_some_iff] at h
      obtain ⟨q, hq, e⟩ := h
      cases e
      exact ⟨p.1, ⟨n, p.2, hx⟩, n, q.2, hq⟩
  · rintro ⟨a, ⟨n, es, hn⟩, m, fs, hm⟩
    refine ⟨max n m, es ++ fs, ?_⟩
    change (x.andThen f).attempt _ = _
    simp [andThen, x.attempt_mono (Nat.le_max_left n m) hn,
      (f a).attempt_mono (Nat.le_max_right n m) hm]

/-- Within this depth, what the first query answers the second answers alike. -/
def LeAt (n : Nat) (x y : Query α) : Prop :=
  ∀ r, x.attempt n = some r → y.attempt n = some r

/-- A query agrees with itself. -/
theorem LeAt.refl {n : Nat} (x : Query α) : x.LeAt n x := fun _ h => h

/-- Agreement up to a depth is transitive. -/
theorem LeAt.trans {n : Nat} {x y z : Query α} (xy : x.LeAt n y) (yz : y.LeAt n z) : x.LeAt n z :=
  fun r h => yz r (xy r h)

/-- The query without an answer agrees with every other, since it answers nothing. -/
theorem never_leAt (n : Nat) (x : Query α) : never.LeAt n x := fun _ h => nomatch h

/-- Two sequences of queries agree if their first parts and their second parts do. -/
theorem bind_leAt {n : Nat} {x y : Query α} {f g : α → Query β} (xy : x.LeAt n y)
    (fg : ∀ a, (f a).LeAt n (g a)) : (x >>= f).LeAt n (y >>= g) := by
  intro r h
  change (x.andThen f).attempt n = _ at h
  change (y.andThen g).attempt n = _
  cases hx : x.attempt n with
  | none => simp [andThen, hx] at h
  | some p =>
    simp only [andThen, hx, Option.map_eq_some_iff] at h
    obtain ⟨q, hq, rfl⟩ := h
    simp [andThen, xy p hx, fg p.1 q hq]

/-- Whether all hold is answered alike if each question is. -/
theorem allM_leAt {n : Nat} {f g : α → Query Bool} (le : ∀ a, (f a).LeAt n (g a)) (as : List α) :
    (as.allM f).LeAt n (as.allM g) := by
  induction as with
  | nil => exact .refl _
  | cons a as ih =>
    refine bind_leAt (le a) fun b => ?_
    cases b
    · exact .refl _
    · exact ih

/-- Whether some hold is answered alike if each question is. -/
theorem anyM_leAt {n : Nat} {f g : α → Query Bool} (le : ∀ a, (f a).LeAt n (g a)) (as : List α) :
    (as.anyM f).LeAt n (as.anyM g) := by
  induction as with
  | nil => exact .refl _
  | cons a as ih =>
    refine bind_leAt (le a) fun b => ?_
    cases b
    · exact ih
    · exact .refl _

end Query

end LambdaTyping
