import LambdaTyping.Proofs.Lambda.Checker
import LambdaTyping.Proofs.Lambda.Guard
import LambdaTyping.Proofs.Lambda.Memoization
import LambdaTyping.Proofs.Subtyping.Weight
import Mathlib

/-!
# Checks of lambdas end

A check of a lambda asks subtype questions and types expressions. It ends if all of these do
(`check_ends`); typings given by tables always do, since the guard keeps each expression from being
typed within itself (`TypingTable.gives_typing`). Subtype questions end where no type reverses
itself for ever (`subtype_and_check_end`). The condition is needed: with
`class C extends N<N<? super C>>` it is a question about itself whether `C` is a subtype of
`N<? super C>` (`subtype_recurs_for_ever`).
-/

namespace LambdaTyping

namespace ClassTable

variable {t : ClassTable}

section Checks

variable (subtypes : ∀ a b, (t.subtype a b).Ends)

include subtypes

/-- Assignability is decided where subtype questions end. -/
lemma assignable_ends (a b : Ty) : (t.assignable a b).Ends := by
  refine (subtypes a b).bind fun below _ => ?_
  cases below with
  | true => exact Query.ends_pure true
  | false =>
    simp only [Bool.false_eq_true, if_false]
    split
    · split
      · split
        · exact subtypes _ _
        · exact Query.ends_pure _
      · exact Query.ends_pure _
    · exact Query.ends_pure _
    · exact Query.ends_pure _

/-- Candidates are found where subtype questions end. -/
lemma candidates_ends (c : ClassId) : (t.candidates c).Ends := by
  unfold candidates
  split
  · exact Query.ends_pure none
  · split
    · refine Query.Ends.bind (collapse_ends fun a b _ => ?_) fun found _ => Query.ends_pure _
      refine (subtypes _ _).bind fun below _ => ?_
      cases below with
      | true => exact (subtypes _ _).bind fun _ _ => Query.ends_pure _
      | false => exact Query.ends_pure false
    · exact Query.ends_pure none

/-- Parameters are checked to the end where subtype questions end. -/
lemma checkParameters_ends_of_subtype (l : Lambda) (m : Signature) (s : Subst) :
    (t.checkParameters l m s).Ends := by
  rw [checkParameters]
  split
  · refine firstMismatch_ends (fun p _ => ?_) 0
    cases l.params.isExplicit with
    | true => exact Query.ends_pure _
    | false => exact assignable_ends subtypes p.2 p.1
  · exact Query.ends_pure _

variable {typing : ExprTyping} (typed : ∀ e g, (typing e g).Ends)

include typed

/-- A bad result is found, or none, where subtype questions and typings end. -/
lemma firstBadResult_ends (expected : Ty) (es : List Expr) (g : RecursionGuard) :
    (t.firstBadResult typing expected es g).Ends := by
  induction es generalizing g with
  | nil => exact Query.ends_pure _
  | cons e es ih =>
    refine (typed e.id g).bind fun ⟨ty, g'⟩ _ => ?_
    cases ty with
    | none => exact ih g'
    | some found =>
      refine ((assignable_ends subtypes found expected).bind fun fits _ =>
        Query.ends_pure (fits, g')).bind fun ⟨fits, g''⟩ _ => ?_
      cases fits with
      | true => exact ih g''
      | false => exact Query.ends_pure _

/-- Returned values are checked to the end where subtype questions and typings end. -/
lemma checkReturn_ends (l : Lambda) (target : Option Ty) :
    (t.checkReturn l target typing).Ends := by
  suffices ends : (t.checkReturnGuarded l target typing .empty).Ends from
    ends.bind fun _ _ => Query.ends_pure _
  unfold checkReturnGuarded
  split
  · exact Query.ends_pure _
  · unfold Lambda.checkVoid
    cases l.body with
    | block => exact Query.ends_pure _
    | expression e =>
      dsimp only
      split
      · exact Query.ends_pure _
      · exact (typed _ _).bind fun _ _ => Query.ends_pure _
  · refine (firstBadResult_ends subtypes typed _ _ _).bind fun ⟨mismatch, g⟩ _ => ?_
    cases mismatch with
    | some mismatch => exact Query.ends_pure _
    | none => exact Query.ends_pure _

/-- A check ends if all subtype questions do, and the typing of all expressions. -/
lemma check_ends (checker : Checker) (target : Ty) (l : Lambda) (span : Option Span) :
    (checker.check t target l typing span).Ends := by
  have resolves : (checker.resolve t target).Ends := by
    refine Query.Ends.bind ?_ fun _ _ => Query.ends_pure _
    refine (collectCandidates_ends _ fun c _ =>
      CandidateCache.candidates_ends _ (candidates_ends subtypes c.head)).bind fun cache _ => ?_
    exact Query.Ends.bind ⟨(), Query.gives_report_iff.2 trivial⟩ fun _ _ => Query.ends_pure _
  refine resolves.bind fun ⟨result, checker'⟩ _ => ?_
  match result with
  | .ok .deferred => exact Query.ends_pure _
  | .ok (.method m) =>
    refine Query.Ends.bind ?_ fun _ _ => Query.ends_pure _
    refine (checkParameters_ends_of_subtype subtypes l _ _).bind fun mismatch _ => ?_
    cases mismatch with
    | some mismatch => exact Query.ends_pure _
    | none =>
      refine (checkReturn_ends subtypes typed l _).bind fun found _ => ?_
      exact Query.Ends.bind ⟨(), Query.gives_report_iff.2 trivial⟩ fun _ _ => Query.ends_pure _
  | .error e =>
    dsimp only
    split
    · exact Query.ends_pure _
    · exact Query.ends_pure _

end Checks

/-- In a table without lower bounds, whose bounds do not come back to the variable they bound, and
in which no type reverses itself for ever, no subtype question recurs for ever, and every lambda
check ends whose typing does. -/
theorem subtype_and_check_end (t : ClassTable) (acyclicBounds : t.AcyclicBounds)
    (lowerBounds : ∀ v, t.lowerBound? v = none)
    (reverses : WellFounded fun l x => t.Reverses x l) :
    (∀ a b, ¬t.RecursForever a b ∧ (t.subtype a b).Ends) ∧
      ∀ config target l (typing : ExprTyping), (∀ e g, (typing e g).Ends) →
        (t.checkLambda config target l typing).Ends := by
  have all (a b : Ty) : t.Terminates a b := terminates acyclicBounds lowerBounds reverses a b
  have subtypes (a b : Ty) : (t.subtype a b).Ends := ends_of_terminates (all a b)
  refine ⟨fun a b => ⟨not_recursForever_of_terminates (all a b), subtypes a b⟩, ?_⟩
  intro config target l typing typed
  exact (check_ends subtypes typed _ target l none).bind fun _ _ => Query.ends_pure _

/-- `Object`, `String implements Comparable<String>`, `Comparable<X>`,
`Action<Y> { void call(Y y); }`, `Subscriber<Z>` and
`OnSubscribe<T> extends Action<Subscriber<? super T>>`, in this order, and a type variable
`U extends Comparable<? super U>`. -/
def reactive : ClassTable where
  classes := #[
    ⟨"Object", .cls, [], none, [], []⟩,
    ⟨"String", .cls, [], some (.cls ⟨0⟩ []), [.cls ⟨2⟩ [.cls ⟨1⟩ []]], []⟩,
    ⟨"Comparable", .interface, [⟨0⟩], none, [], []⟩,
    ⟨"Action", .interface, [⟨1⟩], none, [], [⟨"call", [], [.var ⟨1⟩], .void, .abstract⟩]⟩,
    ⟨"Subscriber", .interface, [⟨2⟩], none, [], []⟩,
    ⟨"OnSubscribe", .interface, [⟨3⟩], none,
      [.cls ⟨3⟩ [.cls ⟨4⟩ [.wildSuper (.var ⟨3⟩)]]], []⟩]
  params := #[⟨"X", [], none⟩, ⟨"Y", [], none⟩, ⟨"Z", [], none⟩, ⟨"T", [], none⟩,
    ⟨"U", [.cls ⟨2⟩ [.wildSuper (.var ⟨4⟩)]], none⟩]
  index := ∅
  wellKnown := ⟨⟨0⟩, ⟨1⟩, ⟨0⟩, ⟨0⟩, ⟨0⟩, ⟨0⟩⟩

/-- No type of the reactive table reverses itself for ever, so its lambdas are checked to the
end. -/
theorem subtype_and_check_end_reactive :
    reactive.AcyclicBounds ∧ (∀ v, reactive.lowerBound? v = none) ∧
      WellFounded (fun l x => reactive.Reverses x l) ∧
      ¬reactive.RecursForever (.var ⟨4⟩) (.cls ⟨2⟩ [.wildSuper (.cls ⟨1⟩ [])]) ∧
      ∀ target l (table : TypingTable),
        (reactive.checkLambda .default target l table.typing).Ends := by
  have acyclicBounds : reactive.AcyclicBounds := acyclicBounds_of_classes (by decide +kernel)
  have lowerBounds : ∀ v, reactive.lowerBound? v = none := lowerBound?_of_params (by decide +kernel)
  have weighted : reactive.Weighted fun c => if c = ⟨5⟩ then 1 else 0 :=
    ⟨by decide +kernel, rfl⟩
  -- Above the one bound of `U` stands `Object` alone.
  let uncovered : List Ty :=
    [.var ⟨4⟩, .cls ⟨2⟩ [.wildSuper (.var ⟨4⟩)], .wildSuper (.var ⟨4⟩), .cls ⟨0⟩ []]
  have quiet : reactive.quiet uncovered = true := by cbv
  have reverses : WellFounded fun l x => reactive.Reverses x l :=
    reverses_wf weighted (tidy_of_params quiet (by decide +kernel))
  obtain ⟨questions, checks⟩ := subtype_and_check_end reactive acyclicBounds lowerBounds reverses
  refine ⟨acyclicBounds, lowerBounds, reverses, (questions _ _).1, fun target l table => ?_⟩
  refine checks .default target l table.typing fun e g => ?_
  obtain ⟨ty, given⟩ := table.gives_typing e g
  exact ⟨_, given⟩

/-- `Object`, `N<X>`, `C extends N<N<? super C>>` and `Supplier<T> { T get(); }`, in this order. -/
def reversing : ClassTable where
  classes := #[
    ⟨"Object", .cls, [], none, [], []⟩,
    ⟨"N", .interface, [⟨0⟩], none, [], []⟩,
    ⟨"C", .interface, [], none, [.cls ⟨1⟩ [.cls ⟨1⟩ [.wildSuper (.cls ⟨2⟩ [])]]], []⟩,
    ⟨"Supplier", .interface, [⟨1⟩], none, [], [⟨"get", [], [], .var ⟨1⟩, .abstract⟩]⟩]
  params := #[⟨"X", [], none⟩, ⟨"T", [], none⟩]
  index := ∅
  wellKnown := ⟨⟨0⟩, ⟨0⟩, ⟨0⟩, ⟨0⟩, ⟨0⟩, ⟨0⟩⟩

namespace Reversing

/-- The class `C`. -/
def sub : Ty := .cls ⟨2⟩ []

/-- `N<? super C>`. -/
def sup : Ty := .cls ⟨1⟩ [.wildSuper sub]

/-- `() -> e`. -/
def supply : Lambda := .ofExpression (.implicit []) ⟨⟨0⟩, false⟩

/-- `e` has the type `C`. -/
def typing : ExprTyping := TypingTable.typing ⟨[(⟨0⟩, .fixed sub)]⟩

end Reversing

open Reversing in
/-- In the reversing table a subtype question asks itself, and neither it nor the check of a lambda
ends. -/
theorem subtype_recurs_for_ever :
    reversing.WellScoped ∧ reversing.Acyclic ∧ reversing.AcyclicBounds ∧
      (∀ v, reversing.lowerBound? v = none) ∧ sub.ProperType ∧ sup.ProperType ∧
      reversing.RecursForever sub sup ∧ ¬(reversing.subtype sub sup).Ends ∧
      ¬(reversing.checkLambda .default (.cls ⟨3⟩ [sup]) supply typing).Ends := by
  have wellScoped : reversing.WellScoped := by decide +kernel
  have circle : reversing.subtypePlan sub sup = .every [.subtype sub sup] := by cbv
  have never : ¬(reversing.subtype sub sup).Ends := not_ends_of_plan circle
  have issues : reversing.Issues (sub, sup) (sub, sup) := by
    rw [Issues, circle]
    exact List.mem_singleton_self _
  refine ⟨wellScoped, acyclic_of_rank wellScoped.isClass ClassId.raw (by decide +kernel),
    acyclicBounds_of_classes (by decide +kernel), lowerBound?_of_params (by decide +kernel),
    by decide +kernel, by decide +kernel, ⟨fun _ => (sub, sup), rfl, fun _ => issues⟩, never, ?_⟩
  rintro ⟨_, h⟩
  obtain ⟨⟨ds, _⟩, h, -⟩ := Query.gives_bind_iff.1 h
  -- The lambda is checked against `get`, which returns `N<? super C>`.
  let m : TargetMethod := ⟨⟨3⟩, ⟨⟨3⟩, "get", [], [], .var ⟨1⟩⟩, .ofList [(⟨1⟩, sup)]⟩
  let checker := Checker.ofConfig { Config.default with memoizeCandidates := false }
  have resolved : (checker.resolve reversing (.cls ⟨3⟩ [sup])).Gives (.ok (.method m), checker) :=
    Query.gives_of_attempt (n := 4) (by cbv)
  have parameters : (reversing.checkParameters supply m.signature (m.groundSubst reversing)).Gives
      none :=
    Query.gives_of_attempt (n := 1) (by cbv)
  have returns : (m.groundSubst reversing).apply m.signature.returnType = sup := by cbv
  have typed : (typing ⟨0⟩ .empty).Gives (some sub, .empty) := ⟨1, [], rfl⟩
  obtain ⟨mismatch, found, h⟩ := Query.gives_bind_iff.1 ((Checker.gives_check_iff resolved).1 h).1
  cases found.unique parameters
  obtain ⟨_, h, -⟩ := Query.gives_bind_iff.1 h
  obtain ⟨_, h⟩ := gives_checkReturn_iff.1 h
  have value : sup ≠ .void := by decide
  rw [returns, checkReturnGuarded_of_ne_void value] at h
  -- The first thing asked of the body is whether its type is assignable.
  obtain ⟨_, h, -⟩ := Query.gives_bind_iff.1 h
  obtain ⟨_, found, h⟩ := Query.gives_bind_iff.1 h
  cases found.unique typed
  obtain ⟨_, h, -⟩ := Query.gives_bind_iff.1 h
  obtain ⟨_, h, -⟩ := Query.gives_bind_iff.1 h
  obtain ⟨below, h, -⟩ := Query.gives_bind_iff.1 h
  exact never ⟨below, h⟩

end ClassTable

end LambdaTyping
