import LambdaTyping.Query
import LambdaTyping.Subtyping.Plan

/-!
# Subtyping and assignability

Subtyping pursues the plan of each question in turn. Bounds and hierarchies may send it round in
circles, so it is a `Query`. `gives_subtype_iff` says that a question has the answer of its plan.
-/

namespace LambdaTyping

/-- Pursue a goal, with this answer to subtype questions. -/
def Goal.pursue (subtype : Ty → Ty → Query Bool) : Goal → Query Bool
  | .known b => pure b
  | .subtype a b => subtype a b

/-- Pursue a plan, with this answer to subtype questions. -/
def Plan.pursue (subtype : Ty → Ty → Query Bool) : Plan → Query Bool
  | .every gs => gs.allM (Goal.pursue subtype)
  | .any gs => gs.anyM (Goal.pursue subtype)

/-- A goal is pursued alike if the subtype questions are answered alike. -/
theorem Goal.pursue_leAt {n : Nat} {f g : Ty → Ty → Query Bool}
    (le : ∀ a b, (f a b).LeAt n (g a b)) (x : Goal) : (x.pursue f).LeAt n (x.pursue g) := by
  cases x with
  | known b => exact .refl _
  | subtype a b => exact le a b

/-- A plan is pursued alike if the subtype questions are answered alike. -/
theorem Plan.pursue_leAt {n : Nat} {f g : Ty → Ty → Query Bool}
    (le : ∀ a b, (f a b).LeAt n (g a b)) (p : Plan) : (p.pursue f).LeAt n (p.pursue g) := by
  cases p with
  | every gs => exact Query.allM_leAt (Goal.pursue_leAt le) gs
  | any gs => exact Query.anyM_leAt (Goal.pursue_leAt le) gs

namespace ClassTable

/-- One step of subtyping, with this answer to the questions it comes down to. -/
def subtypeStep (t : ClassTable) (subtype : Ty → Ty → Query Bool) (a b : Ty) : Query Bool := do
  Query.report (t.planEvents a b)
  (t.subtypePlan a b).pursue subtype

/-- Subtyping, pursued so many steps deep. -/
def subtypeWithin (t : ClassTable) : Nat → Ty → Ty → Query Bool
  | 0 => fun _ _ => .never
  | n + 1 => t.subtypeStep (t.subtypeWithin n)

/-- A step of subtyping has the same answer if the questions it comes down to have. -/
theorem subtypeStep_leAt (t : ClassTable) {n : Nat} {f g : Ty → Ty → Query Bool}
    (le : ∀ a b, (f a b).LeAt n (g a b)) (a b : Ty) :
    (t.subtypeStep f a b).LeAt n (t.subtypeStep g a b) :=
  Query.bind_leAt (.refl _) fun _ => Plan.pursue_leAt le _

/-- Pursuing subtyping one step deeper changes no answer. -/
theorem subtypeWithin_leAt_succ (t : ClassTable) (n k : Nat) :
    ∀ a b, (t.subtypeWithin k a b).LeAt n (t.subtypeWithin (k + 1) a b) := by
  induction k with
  | zero => exact fun _ _ => Query.never_leAt _ _
  | succ k ih => exact t.subtypeStep_leAt ih

/-- Pursuing subtyping deeper changes no answer. -/
theorem subtypeWithin_leAt (t : ClassTable) (n : Nat) {k m : Nat} (le : k ≤ m) (a b : Ty) :
    (t.subtypeWithin k a b).LeAt n (t.subtypeWithin m a b) := by
  induction le with
  | refl => exact .refl _
  | step _ ih => exact ih.trans (t.subtypeWithin_leAt_succ n _ a b)

/-- Whether a type is a subtype of another. -/
def subtype (t : ClassTable) (a b : Ty) : Query Bool where
  attempt n := (t.subtypeWithin n a b).attempt n
  attempt_mono le h :=
    t.subtypeWithin_leAt _ le a b _ ((t.subtypeWithin _ a b).attempt_mono le h)

/-- A subtype question has the answer of its plan. -/
theorem gives_subtype_iff {t : ClassTable} {a b : Ty} {r : Bool} :
    (t.subtype a b).Gives r ↔ ((t.subtypePlan a b).pursue t.subtype).Gives r := by
  have step : (t.subtype a b).Gives r ↔ (t.subtypeStep t.subtype a b).Gives r := by
    constructor
    · rintro ⟨n, es, h⟩
      cases n with
      | zero => exact nomatch h
      | succ n =>
        have le : ∀ a b, (t.subtypeWithin n a b).LeAt (n + 1) (t.subtype a b) :=
          t.subtypeWithin_leAt_succ (n + 1) n
        exact ⟨n + 1, es, t.subtypeStep_leAt le a b _ h⟩
    · rintro ⟨n, es, h⟩
      have le : ∀ a b, (t.subtype a b).LeAt n (t.subtypeWithin n a b) := fun _ _ => .refl _
      have h' := t.subtypeStep_leAt le a b _ h
      exact ⟨n + 1, es, (t.subtypeWithin (n + 1) a b).attempt_mono (Nat.le_succ n) h'⟩
  simp [step, subtypeStep, Query.gives_bind_iff]

/-- Unboxing: the primitive type that a class type boxes. -/
def unboxed? (t : ClassTable) : Ty → Option Primitive
  | .cls c _ => (t.class? c).bind fun d => Primitive.ofBoxName? d.name
  | _ => none

/-- Whether a value of one type can be assigned to a variable of another: by subtyping, by boxing
and then subtyping, or by unboxing and then widening. -/
def assignable (t : ClassTable) (source target : Ty) : Query Bool := do
  if ← t.subtype source target then return true
  match source, target with
  | .prim p, target =>
    if target.isReference then
      match t.lookup? p.boxName with
      | some box => t.subtype (.cls box []) target
      | none => return false
    else return false
  | source, .prim q => return (t.unboxed? source).any fun p => p.widens q
  | _, _ => return false

end ClassTable

end LambdaTyping
