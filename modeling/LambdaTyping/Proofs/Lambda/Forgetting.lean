import LambdaTyping.Proofs.Lambda.Memoization
import LambdaTyping.Proofs.Subtyping.Basic
import Mathlib

/-!
# Lambdas of which less is known

Parameter types and the types of returned expressions may be unknown, and an unknown type fits
everywhere. So when nothing is found about a lambda, nothing is found either after any of its
parameter types is forgotten and any of its results is typed as unknown or not at all.
-/

namespace LambdaTyping

/-- The types with those at the hidden places unknown. -/
def Ty.hideAt (hidden : Nat → Bool) (tys : List Ty) : List Ty :=
  tys.mapIdx fun i ty => if hidden i then .unknown else ty

/-- The parameters with the types at the hidden places unknown. -/
def ParamList.forget (hidden : Nat → Bool) : ParamList → ParamList
  | .explicit ps =>
    .explicit (ps.mapIdx fun i p => if hidden i then { p with ty := .unknown } else p)
  | .implicit ps =>
    .implicit (ps.mapIdx fun i p => if hidden i then { p with ty := .unknown } else p)

/-- The lambda with the parameter types at the hidden places unknown. -/
def Lambda.forget (hidden : Nat → Bool) (l : Lambda) : Lambda :=
  { l with params := l.params.forget hidden }

/-- When the expressions are typed one after another under the guard, the second typing answers as
the first, or that the type is unknown, or nothing. -/
def ExprTyping.Forgets (typing typing' : ExprTyping) : List Expr → RecursionGuard → Prop
  | [], _ => True
  | e :: es, g => ∀ ty g', (typing e.id g).Gives (ty, g') →
      (∃ ty', (typing' e.id g).Gives (ty', g') ∧ (ty' = ty ∨ ty' = none ∨ ty' = some .unknown)) ∧
        Forgets typing typing' es g'

namespace ClassTable

variable {t : ClassTable}

section Parameters

variable {hidden : Nat → Bool}

/-- Hiding places of a list starts with its first place. -/
lemma hideAt_cons (hidden : Nat → Bool) (ty : Ty) (tys : List Ty) :
    Ty.hideAt hidden (ty :: tys) =
      (if hidden 0 then .unknown else ty) :: Ty.hideAt (fun i => hidden (i + 1)) tys := by
  rw [Ty.hideAt, List.mapIdx_cons]
  rfl

/-- Forgetting parameter types hides them at the same places. -/
lemma types_forget (ps : ParamList) :
    (ps.forget hidden).toList.map Param.ty = Ty.hideAt hidden (ps.toList.map Param.ty) := by
  have types (l : List Param) :
      (l.mapIdx fun i p => if hidden i then { p with ty := .unknown } else p).map Param.ty =
        Ty.hideAt hidden (l.map Param.ty) := by
    induction l generalizing hidden with
    | nil => rfl
    | cons p l ih =>
      rw [List.mapIdx_cons, List.map_cons, List.map_cons, hideAt_cons, ← ih]
      split
      · rfl
      · rfl
  cases ps with
  | explicit l => exact types l
  | implicit l => exact types l

/-- Parameters stay explicit when their types are forgotten. -/
lemma isExplicit_forget (ps : ParamList) : (ps.forget hidden).isExplicit = ps.isExplicit := by
  cases ps with
  | _ => rfl

/-- A parameter of unknown type fits every type expected. -/
lemma parameterFits_unknown (t : ClassTable) (explicit : Bool) (expected : Ty) :
    (t.parameterFits explicit .unknown expected).Gives true := by
  cases explicit with
  | true => exact Query.gives_pure_iff.2 (Ty.unknown_identical expected)
  | false => exact assignable_of_subtype (subtype_unknown t expected)

/-- Parameters that fit still do with some of their types forgotten. -/
lemma firstMismatch_hideAt {explicit : Bool} {i : Nat} {found expected : List Ty}
    (h : (t.firstMismatch explicit i (found.zip expected)).Gives none) :
    (t.firstMismatch explicit i ((Ty.hideAt hidden found).zip expected)).Gives none := by
  induction found generalizing hidden i expected with
  | nil => exact h
  | cons ty found ih =>
    cases expected with
    | nil =>
      rw [List.zip_nil_right]
      exact Query.gives_pure_iff.2 rfl
    | cons e expected =>
      obtain ⟨fits, hfits, h⟩ := Query.gives_bind_iff.1 h
      cases fits with
      | false => cases Query.gives_pure_iff.1 h
      | true =>
        rw [hideAt_cons]
        refine Query.gives_bind_iff.2 ⟨true, ?_, ih h⟩
        split
        · exact parameterFits_unknown t explicit e
        · exact hfits

/-- A check of parameters that finds nothing finds nothing after types are forgotten. -/
lemma checkParameters_forget {l : Lambda} {m : Signature} {s : Subst}
    (h : (t.checkParameters l m s).Gives none) :
    (t.checkParameters (l.forget hidden) m s).Gives none := by
  have length : (Ty.hideAt hidden (l.params.toList.map Param.ty)).length =
      (l.params.toList.map Param.ty).length :=
    List.length_mapIdx
  rw [checkParameters] at h ⊢
  rw [Lambda.forget, types_forget, isExplicit_forget]
  rw [length]
  split at h
  · rename_i arity
    rw [if_pos arity]
    exact firstMismatch_hideAt h
  · cases Query.gives_pure_iff.1 h

end Parameters

section Results

variable {typing typing' : ExprTyping} {expected : Ty}

/-- No result is bad exactly if the first is not typed or fits, and none of the others is bad. -/
lemma gives_firstBadResult_cons_iff {e : Expr} {es : List Expr} {g g' : RecursionGuard} :
    (t.firstBadResult typing expected (e :: es) g).Gives (none, g') ↔
      ∃ ty next, (typing e.id g).Gives (ty, next) ∧
        (∀ found, ty = some found → (t.assignable found expected).Gives true) ∧
        (t.firstBadResult typing expected es next).Gives (none, g') := by
  constructor
  · intro h
    obtain ⟨⟨ty, next⟩, typed, h⟩ := Query.gives_bind_iff.1 h
    refine ⟨ty, next, typed, ?_⟩
    cases ty with
    | none => exact ⟨nofun, h⟩
    | some found =>
      obtain ⟨⟨fits, after⟩, lifted, h⟩ := Query.gives_bind_iff.1 h
      obtain ⟨answer, hanswer, same⟩ := Query.gives_bind_iff.1 lifted
      cases Query.gives_pure_iff.1 same
      cases fits with
      | false => cases Query.gives_pure_iff.1 h
      | true =>
        refine ⟨fun found' same => ?_, h⟩
        cases same
        exact hanswer
  · rintro ⟨ty, next, typed, fits, h⟩
    refine Query.gives_bind_iff.2 ⟨(ty, next), typed, ?_⟩
    cases ty with
    | none => exact h
    | some found =>
      refine Query.gives_bind_iff.2 ⟨(true, next), ?_, h⟩
      exact Query.gives_bind_iff.2 ⟨true, fits found rfl, Query.gives_pure_iff.2 rfl⟩

/-- Results that fit still do if less is known of their types. -/
lemma firstBadResult_forget {es : List Expr} {g g' : RecursionGuard}
    (forgets : typing.Forgets typing' es g)
    (h : (t.firstBadResult typing expected es g).Gives (none, g')) :
    (t.firstBadResult typing' expected es g).Gives (none, g') := by
  induction es generalizing g with
  | nil => exact h
  | cons e es ih =>
    obtain ⟨ty, next, typed, fits, h⟩ := gives_firstBadResult_cons_iff.1 h
    obtain ⟨⟨ty', typed', less⟩, forgets⟩ := forgets ty next typed
    refine gives_firstBadResult_cons_iff.2 ⟨ty', next, typed', ?_, ih forgets h⟩
    rcases less with rfl | rfl | rfl
    · exact fits
    · exact nofun
    · rintro found ⟨⟩
      exact assignable_of_subtype (subtype_of_unknown t expected)

/-- Only an expression that cannot stand as a statement is typed for a method without a result, and
then something is found. -/
lemma checkVoid_forget {l : Lambda} {hidden : Nat → Bool} {g g' : RecursionGuard}
    (h : (l.checkVoid typing g).Gives (none, g')) :
    ((l.forget hidden).checkVoid typing' g).Gives (none, g') := by
  cases l with
  | mk params body voidCompatible =>
    cases body with
    | block stmts => exact h
    | expression e =>
      rw [Lambda.checkVoid] at h
      rw [Lambda.forget, Lambda.checkVoid]
      dsimp only at h ⊢
      split at h
      · rename_i shaped
        rw [if_pos shaped]
        exact h
      · obtain ⟨⟨ty, next⟩, typed, h⟩ := Query.gives_bind_iff.1 h
        cases Query.gives_pure_iff.1 h

/-- With a result to return, nothing is found exactly if no result is bad and none is missing. -/
lemma gives_checkReturnGuarded_none_iff {l : Lambda} (ne : expected ≠ .void)
    {g g' : RecursionGuard} :
    (t.checkReturnGuarded l (some expected) typing g).Gives (none, g') ↔
      (t.firstBadResult typing expected l.body.results g).Gives (none, g') ∧
        l.missesValue = false := by
  rw [checkReturnGuarded_of_ne_void ne]
  constructor
  · intro h
    obtain ⟨⟨bad, next⟩, found, h⟩ := Query.gives_bind_iff.1 h
    cases bad with
    | some mismatch => cases Query.gives_pure_iff.1 h
    | none =>
      cases misses : l.missesValue with
      | true =>
        rw [misses] at h
        cases Query.gives_pure_iff.1 h
      | false =>
        rw [misses] at h
        cases Query.gives_pure_iff.1 h
        exact ⟨found, rfl⟩
  · rintro ⟨found, complete⟩
    refine Query.gives_bind_iff.2 ⟨(none, g'), found, ?_⟩
    rw [complete]
    exact Query.gives_pure_iff.2 rfl

/-- A check of returned values that finds nothing finds nothing after types are forgotten. -/
lemma checkReturn_forget {l : Lambda} {hidden : Nat → Bool} {target : Option Ty}
    (forgets : typing.Forgets typing' l.body.results .empty)
    (h : (t.checkReturn l target typing).Gives none) :
    (t.checkReturn (l.forget hidden) target typing').Gives none := by
  obtain ⟨g, h⟩ := gives_checkReturn_iff.1 h
  refine gives_checkReturn_iff.2 ⟨g, ?_⟩
  cases target with
  | none => exact h
  | some expected =>
    by_cases void : expected = .void
    · subst void
      exact checkVoid_forget h
    · obtain ⟨fit, complete⟩ := (gives_checkReturnGuarded_none_iff void).1 h
      exact (gives_checkReturnGuarded_none_iff void).2 ⟨firstBadResult_forget forgets fit, complete⟩

end Results

/-- After a collection the same one finds all its answers kept. -/
lemma collectCandidates_again {config : Config} {cs : List ClassTy} {cache after : CandidateCache}
    (h : (t.collectCandidates config cs cache).Gives after) :
    (t.collectCandidates config cs after).Gives after := by
  obtain ⟨-, kept⟩ := kept_of_collectCandidates h
  clear h
  induction cs with
  | nil => exact Query.gives_pure_iff.2 rfl
  | cons c cs ih =>
    rw [collectCandidates]
    cases hd : t.class? c.head with
    | none =>
      refine Query.gives_bind_iff.2 ⟨(), Query.gives_report_iff.2 trivial, ?_⟩
      exact Query.gives_pure_iff.2 rfl
    | some d =>
      rw [lookedUp_cons hd, List.forall_mem_cons] at kept
      obtain ⟨answer, here⟩ := Option.isSome_iff_exists.1 kept.1
      refine Query.gives_bind_iff.2 ⟨(), Query.gives_report_iff.2 trivial, ?_⟩
      refine Query.gives_bind_iff.2
        ⟨(answer, after), CandidateCache.gives_candidates_iff.2 (.inl ⟨here, rfl⟩), ?_⟩
      exact Query.gives_bind_iff.2 ⟨(), Query.gives_report_iff.2 trivial, ih kept.2⟩

/-- A target that was resolved is resolved the same from the cache left behind. -/
lemma resolve_again {config : Config} {cache after : CandidateCache} {target : Ty} {r : Resolution}
    (h : (t.resolve config cache target).Gives (r, after)) :
    (t.resolve config after target).Gives (r, after) := by
  obtain ⟨kept, collected, h⟩ := Query.gives_bind_iff.1 h
  obtain ⟨_, _, same⟩ := Query.gives_bind_iff.1 h
  cases Query.gives_pure_iff.1 same
  exact Query.gives_bind_iff.2 ⟨after, collectCandidates_again collected, h⟩

end ClassTable

namespace Checker

variable {t : ClassTable} {checker checker' : Checker} {target : Ty} {l : Lambda}
  {typing typing' : ExprTyping} {span : Option Span}

/-- A target that has been resolved is resolved alike again, and nothing new is kept. -/
lemma resolve_again {r : Resolution} (h : (checker.resolve t target).Gives (r, checker')) :
    (checker'.resolve t target).Gives (r, checker') := by
  cases checker with
  | mk config cache =>
    obtain ⟨⟨result, after⟩, resolved, h⟩ := Query.gives_bind_iff.1 h
    cases Query.gives_pure_iff.1 h
    cases cache with
    | none => exact Query.gives_bind_iff.2 ⟨_, resolved, h⟩
    | some kept =>
      exact Query.gives_bind_iff.2
        ⟨_, ClassTable.resolve_again resolved, Query.gives_pure_iff.2 rfl⟩

/-- A check leaves the checker as the resolution of its target does. -/
lemma exists_resolve_of_check {ds : List Diagnostic}
    (h : (checker.check t target l typing span).Gives (ds, checker')) :
    ∃ r, (checker.resolve t target).Gives (r, checker') := by
  obtain ⟨⟨r, next⟩, resolved, -⟩ := Query.gives_bind_iff.1 h
  refine ⟨r, ?_⟩
  cases r with
  | ok found =>
    cases found with
    | deferred =>
      obtain ⟨-, rfl⟩ := (gives_check_deferred_iff resolved).1 h
      exact resolved
    | method m =>
      obtain ⟨-, rfl⟩ := (gives_check_iff resolved).1 h
      exact resolved
  | error e =>
    obtain ⟨-, rfl⟩ := (gives_check_error_iff resolved).1 h
    exact resolved

/-- Nothing is found about a lambda against a method if nothing was found with more known. -/
lemma checkMethod_forget {m : TargetMethod} {hidden : Nat → Bool}
    (forgets : typing.Forgets typing' l.body.results .empty)
    (h : (checkMethod t m l typing span).Gives []) :
    (checkMethod t m (l.forget hidden) typing' span).Gives [] := by
  obtain ⟨mismatch, params, h⟩ := Query.gives_bind_iff.1 h
  cases mismatch with
  | some mismatch => cases Query.gives_pure_iff.1 h
  | none =>
    obtain ⟨found, results, h⟩ := Query.gives_bind_iff.1 h
    obtain ⟨_, _, h⟩ := Query.gives_bind_iff.1 h
    cases found with
    | some mismatch => cases Query.gives_pure_iff.1 h
    | none =>
      refine Query.gives_bind_iff.2 ⟨none, ClassTable.checkParameters_forget params, ?_⟩
      refine Query.gives_bind_iff.2 ⟨none, ClassTable.checkReturn_forget forgets results, ?_⟩
      refine Query.gives_bind_iff.2 ⟨(), Query.gives_report_iff.2 trivial, ?_⟩
      exact Query.gives_pure_iff.2 rfl

/-- What a check finds depends on the checker only through the resolution of the target. -/
lemma check_forget_of_resolve {hidden : Nat → Bool} {checker₂ : Checker} {r : Resolution}
    (resolved : (checker.resolve t target).Gives (r, checker'))
    (resolved₂ : (checker₂.resolve t target).Gives (r, checker'))
    (forgets : typing.Forgets typing' l.body.results .empty)
    (silent : (checker.check t target l typing span).Gives ([], checker')) :
    (checker₂.check t target (l.forget hidden) typing' span).Gives ([], checker') := by
  cases r with
  | ok found =>
    cases found with
    | deferred => exact (gives_check_deferred_iff resolved₂).2 ⟨rfl, rfl⟩
    | method m =>
      obtain ⟨checked, -⟩ := (gives_check_iff resolved).1 silent
      exact (gives_check_iff resolved₂).2 ⟨checkMethod_forget forgets checked, rfl⟩
  | error e =>
    obtain ⟨same, -⟩ := (gives_check_error_iff resolved).1 silent
    exact (gives_check_error_iff resolved₂).2 ⟨same, rfl⟩

/-- When nothing is found about a lambda, nothing is found after some of its parameter types are
forgotten and less is known of its results, neither by the same checker nor by the one that the
first check leaves. -/
theorem check_forget (hidden : Nat → Bool)
    (silent : (checker.check t target l typing span).Gives ([], checker'))
    (forgets : typing.Forgets typing' l.body.results .empty) :
    (checker.check t target (l.forget hidden) typing' span).Gives ([], checker') ∧
      (checker'.check t target (l.forget hidden) typing' span).Gives ([], checker') := by
  obtain ⟨r, resolved⟩ := exists_resolve_of_check silent
  constructor
  · exact check_forget_of_resolve resolved resolved forgets silent
  · exact check_forget_of_resolve resolved (resolve_again resolved) forgets silent

/-- The type `Comparable<String>`. -/
def comparableString : Ty := .cls ⟨5⟩ [.cls ⟨1⟩ []]

/-- A lambda for `comparableString` with a written parameter type. -/
def lengthLambda : Lambda :=
  .ofExpression (.explicit [⟨"s", .cls ⟨1⟩ []⟩]) ⟨⟨0⟩, true⟩

/-- A fitting lambda, and then neither its parameter type nor the type of its body is known. -/
theorem check_forget_lengthLambda :
    let checker := ofConfig { Config.default with memoizeCandidates := false }
    let typing := TypingTable.typing ⟨[(⟨0⟩, .fixed (.prim .int))]⟩
    let typing' := TypingTable.typing ⟨[]⟩
    (checker.check .platform comparableString lengthLambda typing none).Gives ([], checker) ∧
      typing.Forgets typing' lengthLambda.body.results .empty ∧
      (checker.check .platform comparableString (lengthLambda.forget fun _ => true) typing'
        none).Gives ([], checker) := by
  intro checker typing typing'
  have silent : (checker.check .platform comparableString lengthLambda typing none).Gives
      ([], checker) :=
    Query.gives_of_attempt (n := 4) (by cbv)
  have forgets : typing.Forgets typing' lengthLambda.body.results .empty := by
    have typed : (typing ⟨0⟩ .empty).Gives (some (.prim .int), .empty) := ⟨1, [], rfl⟩
    have typed' : (typing' ⟨0⟩ .empty).Gives (none, .empty) := ⟨1, [], rfl⟩
    intro ty g given
    cases given.unique typed
    exact ⟨⟨none, typed', .inr (.inl rfl)⟩, trivial⟩
  exact ⟨silent, forgets, (check_forget (fun _ => true) silent forgets).1⟩

end Checker

end LambdaTyping
