import LambdaTyping.Proofs.Lambda.Returns
import Mathlib.Data.Finset.Card

/-!
# The guard of ongoing typings

Entries of a typing table may refer to each other in circles. The guard keeps an expression from
being typed within its own typing, so that every typing by a table ends. `TypingTable.Types` gives
the runs of a typing with the depth to which computations run inside one another. Each computation
takes one more expression of the table out of those that are still to be typed, so the depth is
bounded by their number (`Types.depth_le`), and what a computation puts into the guard it takes out
again (`Types.guard_eq`). A check of returned values may therefore type each value as if it were the
first (`typing_balanced`).
-/

namespace LambdaTyping

namespace TypingTable

variable {table : TypingTable}

mutual

/-- Typing the expression under the first guard comes to this type and leaves the second guard, with
computations running so many deep inside one another. -/
inductive Types (table : TypingTable) :
    RecursionGuard → ExprId → Option Ty → RecursionGuard → Nat → Prop where
  | active {g e} :
    g.isActive e = true →
    Types table g e none g 0
  | compute {g e ty g' d} :
    g.isActive e = false →
    Follows table (g.enter e) (table.source? e) ty g' d →
    Types table g e ty (g'.leave e) (d + 1)

/-- Following an entry of the table, or none, under the first guard comes to this type and leaves
the second guard, with computations running so many deep inside one another. -/
inductive Follows (table : TypingTable) :
    RecursionGuard → Option TypeSource → Option Ty → RecursionGuard → Nat → Prop where
  | absent {g} :
    Follows table g none none g 0
  | fixed {g ty} :
    Follows table g (some (.fixed ty)) (some ty) g 0
  | sameAs {g e ty g' d} :
    Types table g e ty g' d →
    Follows table g (some (.sameAs e)) ty g' d
  | noneOf {g} :
    Follows table g (some (.firstOf [])) none g 0
  | firstOf {g e es ty g' d} :
    Types table g e (some ty) g' d →
    Follows table g (some (.firstOf (e :: es))) (some ty) g' d
  | nextOf {g e es ty g' g'' d d'} :
    Types table g e none g' d →
    Follows table g' (some (.firstOf es)) ty g'' d' →
    Follows table g (some (.firstOf (e :: es))) ty g'' (max d d')

end

/-- Leaving an expression just entered gives back the guard. -/
lemma leave_enter (g : RecursionGuard) (e : ExprId) : (g.enter e).leave e = g := by
  simp [RecursionGuard.enter, RecursionGuard.leave]

mutual

/-- A typing leaves the guard as it was. -/
lemma Types.guard_eq {g g' : RecursionGuard} {e : ExprId} {ty : Option Ty} {d : Nat}
    (h : Types table g e ty g' d) : g' = g := by
  match h with
  | .active _ => rfl
  | .compute _ h => rw [h.guard_eq, leave_enter]

/-- Following an entry leaves the guard as it was. -/
lemma Follows.guard_eq {g g' : RecursionGuard} {source : Option TypeSource} {ty : Option Ty}
    {d : Nat} (h : Follows table g source ty g' d) : g' = g := by
  match h with
  | .absent => rfl
  | .fixed => rfl
  | .sameAs h => exact h.guard_eq
  | .noneOf => rfl
  | .firstOf h => exact h.guard_eq
  | .nextOf first rest => exact rest.guard_eq.trans first.guard_eq

end

/-- An expression with an entry is one of those in the table. -/
lemma mem_entries_of_source? {e : ExprId} {source : TypeSource}
    (h : table.source? e = some source) : e ∈ table.entries.map Prod.fst := by
  obtain ⟨entry, found, -⟩ := Option.map_eq_some_iff.1 h
  have same : entry.1 = e := by simpa using List.find?_some found
  exact same ▸ List.mem_map_of_mem (List.mem_reverse.1 (List.mem_of_find?_eq_some found))

/-- How many expressions of the table are not being typed. -/
def inactive (table : TypingTable) (g : RecursionGuard) : Nat :=
  ((table.entries.map Prod.fst).toFinset \ g.active.toFinset).card

/-- One expression of the table less is left to type once its typing has begun. -/
lemma inactive_enter_lt {g : RecursionGuard} {e : ExprId} {source : TypeSource}
    (fresh : g.isActive e = false) (h : table.source? e = some source) :
    table.inactive (g.enter e) < table.inactive g := by
  have inactive : e ∉ g.active.toFinset := by simpa [RecursionGuard.isActive] using fresh
  rw [TypingTable.inactive, RecursionGuard.enter, List.toFinset_cons, Finset.sdiff_insert]
  refine Finset.card_erase_lt_of_mem (Finset.mem_sdiff.2 ⟨?_, inactive⟩)
  exact List.mem_toFinset.2 (mem_entries_of_source? h)

mutual

/-- Computations run inside one another at most one deeper than the table has expressions that are
not being typed. -/
lemma Types.depth_le {g g' : RecursionGuard} {e : ExprId} {ty : Option Ty} {d : Nat}
    (h : Types table g e ty g' d) : d ≤ table.inactive g + 1 := by
  match h with
  | .active _ => exact Nat.zero_le _
  | .compute fresh h =>
    cases hs : table.source? e with
    | none =>
      rw [hs] at h
      cases h
      exact Nat.succ_le_succ (Nat.zero_le _)
    | some source => exact Nat.succ_le_succ (h.depth_le.trans (inactive_enter_lt fresh hs))

/-- Following an entry goes at most one level deeper than there are expressions to be typed. -/
lemma Follows.depth_le {g g' : RecursionGuard} {source : Option TypeSource} {ty : Option Ty}
    {d : Nat} (h : Follows table g source ty g' d) : d ≤ table.inactive g + 1 := by
  match h with
  | .absent => exact Nat.zero_le _
  | .fixed => exact Nat.zero_le _
  | .sameAs h => exact h.depth_le
  | .noneOf => exact Nat.zero_le _
  | .firstOf h => exact h.depth_le
  | .nextOf first rest =>
    exact Nat.max_le.2 ⟨first.depth_le, first.guard_eq ▸ rest.depth_le⟩

end

/-- The typing of the table follows the table. -/
lemma gives_typing_of_compute {e : ExprId} {g : RecursionGuard} {r : Option Ty × RecursionGuard}
    (h : (RecursionGuard.compute e (follow table.typing (table.source? e)) g).Gives r) :
    (table.typing e g).Gives r := by
  obtain ⟨n, es, h⟩ := h
  refine ⟨n + 1, es, ?_⟩
  have within : (RecursionGuard.compute e (follow table.typing (table.source? e)) g).LeAt n
      (table.typingWithin (n + 1) e g) := by
    unfold typingWithin RecursionGuard.compute
    split
    · exact .refl _
    · refine Query.bind_leAt (follow_leAt (fun _ _ => ?_) _ _) fun _ => .refl _
      exact fun _ h => h
  exact (table.typingWithin (n + 1) e g).attempt_mono (Nat.le_succ n) (within _ h)

mutual

/-- What a run of a typing comes to is the answer of the typing. -/
lemma Types.gives {g g' : RecursionGuard} {e : ExprId} {ty : Option Ty} {d : Nat}
    (h : Types table g e ty g' d) : (table.typing e g).Gives (ty, g') := by
  match h with
  | .active running =>
    refine gives_typing_of_compute ?_
    rw [RecursionGuard.compute, if_pos running]
    exact Query.gives_bind_iff.2 ⟨(), Query.gives_report_iff.2 trivial, Query.gives_pure_iff.2 rfl⟩
  | .compute fresh h =>
    refine gives_typing_of_compute ?_
    rw [RecursionGuard.compute, if_neg (Bool.eq_false_iff.1 fresh)]
    exact Query.gives_bind_iff.2 ⟨_, h.gives, Query.gives_pure_iff.2 rfl⟩

/-- What following an entry comes to is what the typing computes. -/
lemma Follows.gives {g g' : RecursionGuard} {source : Option TypeSource} {ty : Option Ty} {d : Nat}
    (h : Follows table g source ty g' d) : (follow table.typing source g).Gives (ty, g') := by
  match h with
  | .absent => exact Query.gives_pure_iff.2 rfl
  | .fixed => exact Query.gives_pure_iff.2 rfl
  | .sameAs h => exact h.gives
  | .noneOf => exact Query.gives_pure_iff.2 rfl
  | .firstOf h => exact Query.gives_bind_iff.2 ⟨_, h.gives, Query.gives_pure_iff.2 rfl⟩
  | .nextOf first rest => exact Query.gives_bind_iff.2 ⟨_, first.gives, rest.gives⟩

end

/-- Every entry can be followed where every expression can be typed. -/
lemma exists_follows {g : RecursionGuard} (typed : ∀ e, ∃ ty d, Types table g e ty g d)
    (source : Option TypeSource) : ∃ ty d, Follows table g source ty g d := by
  match source with
  | none => exact ⟨_, _, .absent⟩
  | some (.fixed ty) => exact ⟨_, _, .fixed⟩
  | some (.sameAs e) =>
    obtain ⟨ty, d, h⟩ := typed e
    exact ⟨_, _, .sameAs h⟩
  | some (.firstOf es) =>
    induction es with
    | nil => exact ⟨_, _, .noneOf⟩
    | cons e es ih =>
      obtain ⟨ty, d, first⟩ := typed e
      cases ty with
      | some ty => exact ⟨_, _, .firstOf first⟩
      | none =>
        obtain ⟨ty, d', rest⟩ := ih
        exact ⟨_, _, .nextOf first rest⟩

/-- Every typing by a table comes to an end. -/
lemma exists_types (table : TypingTable) (g : RecursionGuard) (e : ExprId) :
    ∃ ty d, Types table g e ty g d := by
  -- By induction on the expressions of the table that are not being typed.
  generalize hn : table.inactive g = n
  induction n using Nat.strong_induction_on generalizing e g with
  | _ n fewer =>
    subst hn
    cases active : g.isActive e with
    | true => exact ⟨_, _, .active active⟩
    | false =>
      have body : ∃ ty d, Follows table (g.enter e) (table.source? e) ty (g.enter e) d := by
        cases hs : table.source? e with
        | none => exact ⟨_, _, .absent⟩
        | some source =>
          exact exists_follows (fun e' => fewer _ (inactive_enter_lt active hs) _ e' rfl) _
      obtain ⟨ty, d, h⟩ := body
      have run := Types.compute active h
      rw [leave_enter] at run
      exact ⟨_, _, run⟩

/-- Every typing by a table ends, and leaves the guard as it was. -/
lemma gives_typing (table : TypingTable) (e : ExprId) (g : RecursionGuard) :
    ∃ ty, (table.typing e g).Gives (ty, g) := by
  obtain ⟨ty, d, run⟩ := exists_types table g e
  exact ⟨ty, run.gives⟩

/-- A typing by a table ends with any guard, leaves the guard as it was, has no type for an
expression that is being typed, and runs computations inside one another at most one deeper than the
table has expressions that are not being typed. A check of returned values leaves the guard as it
was, too, and finds what it would find if each value had the type that it has when it is the first
to be typed. -/
theorem typing_balanced (table : TypingTable) (g : RecursionGuard) :
    ∃ types : ExprId → Option Ty,
      (∀ e, (∀ r, (table.typing e g).Gives r ↔ r = (types e, g)) ∧
        (∃ d, Types table g e (types e) g d) ∧
        (∀ ty g' d, Types table g e ty g' d →
          ty = types e ∧ g' = g ∧ d ≤ table.inactive g + 1) ∧
        (g.isActive e = true → types e = none)) ∧
      ∀ (t : ClassTable) l target m g',
        (t.checkReturnGuarded l target table.typing g).Gives (m, g') ↔
          g' = g ∧ (t.checkReturnGuarded l target (fun e => return types e) g).Gives (m, g) := by
  -- Typing by a table ends and leaves the guard alone, so the types can be chosen beforehand.
  choose types depth run using exists_types table g
  have answers : ExprTyping.Answers table.typing g types := fun e => (run e).gives
  have answers' : ExprTyping.Answers (fun e => return types e) g types :=
    fun e => Query.gives_pure_iff.2 rfl
  have same {e : ExprId} {ty : Option Ty} {g' : RecursionGuard} {d : Nat}
      (h : Types table g e ty g' d) : ty = types e :=
    congrArg Prod.fst (h.gives.unique (answers e))
  refine ⟨types, fun e => ⟨fun r => ⟨fun h => h.unique (answers e), ?_⟩, ⟨depth e, run e⟩,
    fun ty g' d h => ⟨same h, h.guard_eq, h.depth_le⟩, fun active => (same (.active active)).symm⟩,
    fun t l target m g' => ?_⟩
  · rintro rfl
    exact answers e
  · rw [t.gives_checkReturnGuarded_congr answers answers']
    constructor
    · intro h
      obtain rfl := ClassTable.guard_eq_of_checkReturnGuarded answers' h
      exact ⟨rfl, h⟩
    · rintro ⟨rfl, h⟩
      exact h

end TypingTable

end LambdaTyping
