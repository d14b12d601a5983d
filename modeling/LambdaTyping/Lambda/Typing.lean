import LambdaTyping.Query
import LambdaTyping.Type.Basic

/-!
# Typing of expressions

The types of expressions are supplied from outside. Typing an expression may ask for the types of
others; a guard of the expressions being typed turns a question that comes back to one of them into
an unknown type. `TypingTable` is a typing given by a finite table.
-/

namespace LambdaTyping

/-- The expressions whose types are being computed, the innermost first. -/
structure RecursionGuard where
  active : List ExprId
  deriving DecidableEq

/-- A query that types expressions under a guard. -/
abbrev GuardedQuery := StateT RecursionGuard Query

namespace RecursionGuard

/-- The guard while no type is being computed. -/
def empty : RecursionGuard := ⟨[]⟩

/-- Whether the type of an expression is being computed. -/
def isActive (g : RecursionGuard) (e : ExprId) : Bool :=
  g.active.contains e

/-- The guard with one more expression being typed. -/
def enter (g : RecursionGuard) (e : ExprId) : RecursionGuard :=
  ⟨e :: g.active⟩

/-- The guard with the typing of an expression at its end. -/
def leave (g : RecursionGuard) (e : ExprId) : RecursionGuard :=
  ⟨g.active.erase e⟩

/-- Run a computation for an expression while the expression counts as being typed. If it is being
typed already nothing is run, and nothing comes of it. -/
def compute {α : Type} (e : ExprId) (body : GuardedQuery (Option α)) : GuardedQuery (Option α) :=
  fun g =>
    if g.isActive e then do
      Query.report [.recursiveTyping e]
      return (none, g)
    else do
      let (result, after) ← body (g.enter e)
      return (result, after.leave e)

end RecursionGuard

/-- The types of expressions, where they can be computed. -/
abbrev ExprTyping := ExprId → GuardedQuery (Option Ty)

/-- Where the type of an expression comes from. -/
inductive TypeSource where
  | fixed (ty : Ty)
  | sameAs (e : ExprId)
  | firstOf (es : List ExprId)

/-- A finite table of types. Of several entries for an expression the last one counts. -/
structure TypingTable where
  entries : List (ExprId × TypeSource)

namespace TypingTable

/-- The source of an expression's type. -/
def source? (table : TypingTable) (e : ExprId) : Option TypeSource :=
  (table.entries.reverse.find? fun entry => entry.1 = e).map Prod.snd

/-- What a source gives, with this answer for other expressions. -/
def follow (typing : ExprTyping) : Option TypeSource → GuardedQuery (Option Ty)
  | none => return none
  | some (.fixed ty) => return some ty
  | some (.sameAs e) => typing e
  | some (.firstOf es) => es.findSomeM? typing

/-- The typing of the table, followed so many expressions deep. -/
def typingWithin (table : TypingTable) : Nat → ExprTyping
  | 0 => fun _ _ => .never
  | n + 1 => fun e => RecursionGuard.compute e (follow (table.typingWithin n) (table.source? e))

/-- The first type found is the same if each typing is followed alike. -/
theorem findSomeM?_leAt {n : Nat} {f g : ExprTyping} (le : ∀ e s, (f e s).LeAt n (g e s))
    (es : List ExprId) (s : RecursionGuard) : (es.findSomeM? f s).LeAt n (es.findSomeM? g s) := by
  induction es generalizing s with
  | nil => exact .refl _
  | cons e es ih =>
    refine Query.bind_leAt (le e s) fun r => ?_
    obtain ⟨ty, s'⟩ := r
    cases ty with
    | none => exact ih s'
    | some ty => exact .refl _

/-- A source gives the same if the other expressions are typed alike. -/
theorem follow_leAt {n : Nat} {f g : ExprTyping} (le : ∀ e s, (f e s).LeAt n (g e s))
    (source : Option TypeSource) (s : RecursionGuard) :
    (follow f source s).LeAt n (follow g source s) := by
  match source with
  | none => exact .refl _
  | some (.fixed ty) => exact .refl _
  | some (.sameAs e) => exact le e s
  | some (.firstOf es) => exact findSomeM?_leAt le es s

/-- Following the table one expression deeper changes no answer. -/
theorem typingWithin_leAt_succ (table : TypingTable) (n k : Nat) :
    ∀ e s, (table.typingWithin k e s).LeAt n (table.typingWithin (k + 1) e s) := by
  induction k with
  | zero => exact fun _ _ => Query.never_leAt _ _
  | succ k ih =>
    intro e s
    unfold typingWithin RecursionGuard.compute
    split
    · exact .refl _
    · exact Query.bind_leAt (follow_leAt ih _ _) fun _ => .refl _

/-- Following the table deeper changes no answer. -/
theorem typingWithin_leAt (table : TypingTable) (n : Nat) {k m : Nat} (le : k ≤ m) (e : ExprId)
    (s : RecursionGuard) : (table.typingWithin k e s).LeAt n (table.typingWithin m e s) := by
  induction le with
  | refl => exact .refl _
  | step _ ih => exact ih.trans (table.typingWithin_leAt_succ n _ e s)

/-- The typing of the table. -/
def typing (table : TypingTable) : ExprTyping := fun e s =>
  { attempt n := (table.typingWithin n e s).attempt n
    attempt_mono le h :=
      table.typingWithin_leAt _ le e s _ ((table.typingWithin _ e s).attempt_mono le h) }

end TypingTable

end LambdaTyping
