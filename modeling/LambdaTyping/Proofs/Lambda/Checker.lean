import LambdaTyping.Lambda.Checker
import LambdaTyping.Proofs.Query
import LambdaTyping.Proofs.Type.Subterms

/-!
# What the checks of a lambda find

The parameter check reports the first parameter that does not fit, and is silent exactly if all fit
(`gives_checkParameters`). A checker that finds a method for its target reports a misfit of the
parameters and nothing else, or what the return check finds (`codes_of_checkMethod`).
-/

namespace LambdaTyping

namespace ClassTable

variable {t : ClassTable}

/-- A parameter type does not fit the type `expected`: it is written and not identical to it, or not
written and not assignable from it. -/
def Misfits (t : ClassTable) (explicit : Bool) (found expected : Ty) : Prop :=
  if explicit then found.identical expected = false
  else (t.assignable expected found).Gives false

/-- The parameters of a lambda and the parameter types expected, place by place. -/
def parameterPairs (l : Lambda) (expected : List Ty) : List (Ty × Ty) :=
  (l.params.toList.map Param.ty).zip expected

/-- The parameters of a lambda are not as many as the types expected, or one does not fit. -/
def ParametersMisfit (t : ClassTable) (l : Lambda) (expected : List Ty) : Prop :=
  l.params.toList.length ≠ expected.length ∨
    ∃ p ∈ parameterPairs l expected, t.Misfits l.params.isExplicit p.1 p.2

/-- A parameter is found not to fit exactly if it misfits. -/
lemma gives_parameterFits_false_iff {explicit : Bool} {found expected : Ty} :
    (t.parameterFits explicit found expected).Gives false ↔ t.Misfits explicit found expected := by
  cases explicit with
  | true => exact Query.gives_pure_iff
  | false => exact Iff.rfl

/-- The search for a misfit finds one exactly if some parameter misfits. -/
lemma gives_firstMismatch {explicit : Bool} {i : Nat} {ps : List (Ty × Ty)}
    {r : Option ParameterMismatch} (h : (t.firstMismatch explicit i ps).Gives r) :
    r.isSome = true ↔ ∃ p ∈ ps, t.Misfits explicit p.1 p.2 := by
  induction ps generalizing i with
  | nil =>
    obtain rfl := Query.gives_pure_iff.1 h
    simp
  | cons p ps ih =>
    obtain ⟨found, expected⟩ := p
    obtain ⟨fits, hfits, h⟩ := Query.gives_bind_iff.1 h
    cases fits with
    | false =>
      obtain rfl := Query.gives_pure_iff.1 h
      have misfit := gives_parameterFits_false_iff.1 hfits
      exact iff_of_true rfl ⟨_, List.mem_cons_self, misfit⟩
    | true =>
      have fits : ¬t.Misfits explicit found expected := by
        intro misfit
        cases hfits.unique (gives_parameterFits_false_iff.2 misfit)
      rw [ih h, List.exists_mem_cons_iff, or_iff_right fits]

/-- The search for a misfit ends where the comparison of each parameter does. -/
lemma firstMismatch_ends {explicit : Bool} {ps : List (Ty × Ty)}
    (h : ∀ p ∈ ps, (t.parameterFits explicit p.1 p.2).Ends) (i : Nat) :
    (t.firstMismatch explicit i ps).Ends := by
  induction ps generalizing i with
  | nil => exact Query.ends_pure none
  | cons p ps ih =>
    obtain ⟨head, tail⟩ := List.forall_mem_cons.1 h
    refine head.bind fun fits _ => ?_
    cases fits with
    | false => exact Query.ends_pure _
    | true => exact ih tail (i + 1)

/-- The ground form of a parameter type is that type unless it is a wildcard. -/
lemma groundParameter_of_not_wildcard {ty : Ty} (h : ty.isWildcard = false) :
    t.groundParameter ty = ty := by
  cases ty with
  | wild | wildExtends b | wildSuper b => cases h
  | _ => rfl

/-- The check of the returned values starts from an empty guard. -/
lemma gives_checkReturn_iff {l : Lambda} {target : Option Ty} {typing : ExprTyping}
    {r : Option ReturnMismatch} :
    (t.checkReturn l target typing).Gives r ↔
      ∃ g, (t.checkReturnGuarded l target typing .empty).Gives (r, g) := by
  constructor
  · intro h
    obtain ⟨⟨found, g⟩, given, h⟩ := Query.gives_bind_iff.1 h
    obtain rfl := Query.gives_pure_iff.1 h
    exact ⟨g, given⟩
  · rintro ⟨g, given⟩
    exact Query.gives_bind_iff.2 ⟨(r, g), given, Query.gives_pure_iff.2 rfl⟩

/-- A result other than `void` is first checked value by value and then for a missing value. -/
lemma checkReturnGuarded_of_ne_void {l : Lambda} {typing : ExprTyping} {expected : Ty}
    (ne : expected ≠ .void) :
    t.checkReturnGuarded l (some expected) typing = (do
      match ← t.firstBadResult typing expected l.body.results with
      | some mismatch => return some mismatch
      | none => return if l.missesValue then some .missingValue else none) := by
  cases expected with
  | void => exact absurd rfl ne
  | _ => rfl

variable {l : Lambda} {m : Signature} {s : Subst}
  (plain : ∀ p ∈ m.params.map s.apply, p.isWildcard = false)

include plain

/-- A parameter type that is no wildcard is expected as it stands. -/
lemma checkParameters_eq :
    t.checkParameters l m s =
      if l.params.toList.length = m.params.length then
        t.firstMismatch l.params.isExplicit 0 (parameterPairs l (m.params.map s.apply))
      else return some (.arity m.params.length l.params.toList.length) := by
  have expected : (m.params.map fun p => t.groundParameter (s.apply p)) = m.params.map s.apply :=
    List.map_congr_left fun p hp =>
      groundParameter_of_not_wildcard (plain _ (List.mem_map_of_mem hp))
  rw [checkParameters, expected]
  simp only [List.length_map, parameterPairs]

/-- The parameter check reports a mismatch exactly if the parameters do not fit. -/
lemma gives_checkParameters {r : Option ParameterMismatch}
    (h : (t.checkParameters l m s).Gives r) :
    r.isSome = true ↔ t.ParametersMisfit l (m.params.map s.apply) := by
  rw [checkParameters_eq plain] at h
  unfold ParametersMisfit
  rw [List.length_map]
  split at h
  · rename_i length
    rw [gives_firstMismatch h, or_iff_right (not_not_intro length)]
  · rename_i arity
    obtain rfl := Query.gives_pure_iff.1 h
    exact iff_of_true rfl (.inl arity)

/-- The check of the parameters ends where the comparison of each parameter does. -/
lemma checkParameters_ends
    (h : ∀ p ∈ parameterPairs l (m.params.map s.apply),
      (t.parameterFits l.params.isExplicit p.1 p.2).Ends) :
    (t.checkParameters l m s).Ends := by
  rw [checkParameters_eq plain]
  split
  · exact firstMismatch_ends h 0
  · exact Query.ends_pure _

end ClassTable

namespace Checker

variable {t : ClassTable} {m : TargetMethod} {l : Lambda} {typing : ExprTyping} {span : Option Span}

/-- What a checker finds about a lambda against a method: a misfit of the parameters, or else what
the return check finds. -/
lemma codes_of_checkMethod {ds : List Diagnostic}
    (plain : ∀ p ∈ m.parameterTypes t, p.isWildcard = false)
    (h : (checkMethod t m l typing span).Gives ds) :
    (parameterCode ∈ ds.map Diagnostic.code ↔ t.ParametersMisfit l (m.parameterTypes t)) ∧
      (parameterCode ∉ ds.map Diagnostic.code →
        (returnCode ∈ ds.map Diagnostic.code ↔
          ∃ mismatch, (t.checkReturn l (some (m.returnType t)) typing).Gives (some mismatch))) := by
  have codes : parameterCode ≠ returnCode := by decide
  obtain ⟨mismatch, hparams, h⟩ := Query.gives_bind_iff.1 h
  have misfit := ClassTable.gives_checkParameters plain hparams
  -- Parameters are checked first, and the return only if they fit.
  cases mismatch with
  | some mismatch =>
    obtain rfl := Query.gives_pure_iff.1 h
    have reported : parameterCode ∈ [parameterCode] := List.mem_singleton_self _
    exact ⟨iff_of_true reported (misfit.1 rfl), fun silent => absurd reported silent⟩
  | none =>
    obtain ⟨found, hreturn, h⟩ := Query.gives_bind_iff.1 h
    obtain ⟨_, _, h⟩ := Query.gives_bind_iff.1 h
    obtain rfl := Query.gives_pure_iff.1 h
    have fits : ¬t.ParametersMisfit l (m.parameterTypes t) := fun no => nomatch misfit.2 no
    cases found with
    | none =>
      refine ⟨iff_of_false List.not_mem_nil fits, fun _ => iff_of_false List.not_mem_nil ?_⟩
      rintro ⟨mismatch, other⟩
      cases hreturn.unique other
    | some mismatch =>
      have reported : returnCode ∈ [returnCode] := List.mem_singleton_self _
      refine ⟨iff_of_false ?_ fits, fun _ => iff_of_true reported ⟨mismatch, hreturn⟩⟩
      exact fun here => codes (List.mem_singleton.1 here)

/-- The check against a method ends where the comparison of each parameter and the check of the
returned values do. -/
lemma checkMethod_ends (plain : ∀ p ∈ m.parameterTypes t, p.isWildcard = false)
    (params : ∀ p ∈ ClassTable.parameterPairs l (m.parameterTypes t),
      (t.parameterFits l.params.isExplicit p.1 p.2).Ends)
    (result : (t.checkReturn l (some (m.returnType t)) typing).Ends) :
    (checkMethod t m l typing span).Ends := by
  refine (ClassTable.checkParameters_ends plain params).bind fun mismatch _ => ?_
  cases mismatch with
  | some mismatch => exact Query.ends_pure _
  | none =>
    refine result.bind fun found _ => ?_
    exact ⟨_, Query.gives_bind_iff.2 ⟨(), Query.gives_report_iff.2 trivial,
      Query.gives_pure_iff.2 rfl⟩⟩

/-- Once the method of a target is found, a check is the check against the method. -/
lemma gives_check_iff {checker checker' checker'' : Checker} {target : Ty} {ds : List Diagnostic}
    (h : (checker.resolve t target).Gives (.ok (.method m), checker')) :
    (checker.check t target l typing span).Gives (ds, checker'') ↔
      (checkMethod t m l typing span).Gives ds ∧ checker'' = checker' := by
  rw [check, Query.gives_bind_iff]
  constructor
  · rintro ⟨found, hfound, hds⟩
    cases h.unique hfound
    obtain ⟨ds', hds', e⟩ := Query.gives_bind_iff.1 hds
    cases Query.gives_pure_iff.1 e
    exact ⟨hds', rfl⟩
  · rintro ⟨hds, rfl⟩
    exact ⟨_, h, Query.gives_bind_iff.2 ⟨ds, hds, Query.gives_pure_iff.2 rfl⟩⟩

/-- Nothing is found about a target that is still being inferred. -/
lemma gives_check_deferred_iff {checker checker' checker'' : Checker} {target : Ty}
    {ds : List Diagnostic} (h : (checker.resolve t target).Gives (.ok .deferred, checker')) :
    (checker.check t target l typing span).Gives (ds, checker'') ↔
      ds = [] ∧ checker'' = checker' := by
  rw [check, Query.gives_bind_iff]
  constructor
  · rintro ⟨found, hfound, hds⟩
    cases h.unique hfound
    cases Query.gives_pure_iff.1 hds
    exact ⟨rfl, rfl⟩
  · rintro ⟨rfl, rfl⟩
    exact ⟨_, h, Query.gives_pure_iff.2 rfl⟩

/-- Why a target is unfit is found unless it is a fault of the caller. -/
lemma gives_check_error_iff {checker checker' checker'' : Checker} {target : Ty} {e : TargetError}
    {ds : List Diagnostic} (h : (checker.resolve t target).Gives (.error e, checker')) :
    (checker.check t target l typing span).Gives (ds, checker'') ↔
      ds = (if e.isInternal then [] else [.error e.code (e.message checker'.config) span]) ∧
        checker'' = checker' := by
  rw [check, Query.gives_bind_iff]
  cases internal : e.isInternal with
  | true =>
    constructor
    · rintro ⟨found, hfound, hds⟩
      cases h.unique hfound
      simp only [internal, if_true] at hds
      cases Query.gives_pure_iff.1 hds
      exact ⟨rfl, rfl⟩
    · rintro ⟨rfl, rfl⟩
      refine ⟨_, h, ?_⟩
      simp [internal]
  | false =>
    constructor
    · rintro ⟨found, hfound, hds⟩
      cases h.unique hfound
      simp only [internal, Bool.false_eq_true, if_false] at hds
      cases Query.gives_pure_iff.1 hds
      exact ⟨rfl, rfl⟩
    · rintro ⟨rfl, rfl⟩
      refine ⟨_, h, ?_⟩
      simp [internal]

end Checker

end LambdaTyping
