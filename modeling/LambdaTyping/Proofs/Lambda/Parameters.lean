import LambdaTyping.Proofs.Target.Grounding
import LambdaTyping.Proofs.Type.Identity

/-!
# Two ways to ground parameter types

A function type grounds the wildcards among the type arguments before they are put into the types of
the method; the parameter check on its own takes the bound of a parameter type that has come out as
a wildcard. Both come to the same as long as wildcards are put in for whole parameter types only
(`checkParameters_groundSubst`): within a parameter type, as in `List<T>`, the check leaves a
wildcard where it is.
-/

namespace LambdaTyping

namespace Ty

/-- A wildcard and a type that is none are told apart by what is identical to them. -/
lemma exists_probe_of_isWildcard {a b : Ty} (ha : a.isWildcard = true) (hb : b.isWildcard = false) :
    ∃ probe : Ty, probe.identical a ≠ probe.identical b := by
  by_cases known : b = .unknown
  · refine ⟨.null, ?_⟩
    rw [known, identical_unknown]
    cases a with
    | wild | wildExtends | wildSuper => simp [identical]
    | _ => cases ha
  · -- A wildcard of the same form, its bound unknown, is identical to the wildcard alone.
    cases a with
    | wild => exact ⟨.wild, by cases b <;> simp_all [identical, isWildcard]⟩
    | wildExtends bound =>
      exact ⟨.wildExtends .unknown, by cases b <;> simp_all [identical, isWildcard]⟩
    | wildSuper bound =>
      exact ⟨.wildSuper .unknown, by cases b <;> simp_all [identical, isWildcard]⟩
    | _ => cases ha

/-- Two images of a list are identical if those of each type are. -/
lemma identicalAll_map {f g : Ty → Ty} {ts : List Ty} :
    identicalAll (ts.map f) (ts.map g) = true ↔ ∀ a ∈ ts, (f a).identical (g a) = true := by
  induction ts with
  | nil => simp [identicalAll]
  | cons a ts ih => simp [identicalAll, ih]

/-- The probe in one place of a list, and unknown types in the others, ask about that place. -/
lemma forall_identical_probe_iff {probe a : Ty} {g : Ty → Ty} {ts : List Ty} (ha : a ∈ ts) :
    (∀ b ∈ ts, (if b = a then probe else .unknown).identical (g b) = true) ↔
      probe.identical (g a) = true := by
  constructor
  · intro h
    simpa using h a ha
  · intro h b hb
    split
    · rename_i same
      rwa [same]
    · exact unknown_identical _

/-- Substitutions that put in for some variable of a flat type what can be told apart make of the
type what can be told apart. -/
lemma Flat.exists_probe {s u : Subst} {p : Ty} (flat : p.Flat) {v : TypeVarId}
    (hv : p.mentions v = true)
    (apart : ∃ probe : Ty,
      probe.identical (s.rebuild (.var v)) ≠ probe.identical (u.rebuild (.var v))) :
    ∃ probe : Ty, probe.identical (s.rebuild p) ≠ probe.identical (u.rebuild p) := by
  induction p using rec_members with
  | var w =>
    obtain rfl : w = v := of_decide_eq_true hv
    exact apart
  | array e ih =>
    obtain ⟨probe, differ⟩ := ih (everywhere_array.1 flat).2 hv
    exact ⟨.array probe, differ⟩
  | wildExtends b ih =>
    obtain ⟨probe, differ⟩ := ih (everywhere_wildExtends.1 flat).2 hv
    exact ⟨.wildExtends probe, differ⟩
  | wildSuper b ih =>
    obtain ⟨probe, differ⟩ := ih (everywhere_wildSuper.1 flat).2 hv
    exact ⟨.wildSuper probe, differ⟩
  | cls c args ih =>
    rw [mentions, mentionsAny_eq, List.any_eq_true] at hv
    obtain ⟨a, ha, hv⟩ := hv
    obtain ⟨probe, differ⟩ := ih a ha ((everywhere_cls.1 flat).2 a ha) hv
    refine ⟨.cls c (args.map fun b => if b = a then probe else .unknown), ?_⟩
    -- Among the arguments the unknown ones are identical to all, so the answer is that for the
    -- probe.
    have asks (w : Subst) :
        (Ty.cls c (args.map fun b => if b = a then probe else .unknown)).identical
          (w.rebuild (.cls c args)) = probe.identical (w.rebuild a) := by
      rw [Subst.rebuild_cls, identical, Bool.eq_iff_iff, Bool.and_eq_true, identicalAll_map,
        forall_identical_probe_iff ha]
      simp
    rw [asks s, asks u]
    exact differ
  | inter ms => cases flat.here
  | _ => cases hv

/-- The class types that a proper type is resolved through have proper arguments. -/
lemma Proper.of_mem_targetClasses {ty : Ty} (hty : ty.Proper) {c : ClassTy}
    (hc : c ∈ ty.targetClasses) : ∀ a ∈ c.args, a.Proper := by
  induction ty using rec_members with
  | cls e args =>
    obtain rfl := List.mem_singleton.1 hc
    exact proper_cls.1 hty
  | wildExtends b ih => exact ih (proper_wildExtends.1 hty).proper hc
  | inter ms ih =>
    obtain ⟨m, hm, hc⟩ := mem_targetClassesOf.1 hc
    exact ih m hm (proper_inter.1 hty m hm).proper hc
  | _ => cases hc

end Ty

namespace TargetMethod

variable {t : ClassTable} {m : TargetMethod} {p : Ty}

/-- Wildcards are put in for the whole of the parameter type only, and `?` only for a type parameter
that it grounds to `Object`. -/
def GroundsAlike (t : ClassTable) (m : TargetMethod) : Ty → Prop
  | .var v => m.subst.get? v = some .wild → t.groundUnbounded m.cls v = t.objectType
  | p => ∀ v, p.mentions v = true → ∀ x, m.subst.get? v = some x → x.isWildcard = false

/-- Where no wildcard is put in, grounding makes no difference. -/
lemma apply_groundSubst_of_plain
    (plain : ∀ v, p.mentions v = true → ∀ x, m.subst.get? v = some x → x.isWildcard = false) :
    (m.groundSubst t).apply p = m.subst.apply p := by
  have same : (m.groundSubst t).rebuild p = m.subst.rebuild p := by
    refine Subst.rebuild_congr fun v hv => ?_
    rw [Subst.rebuild_var, Subst.rebuild_var, m.get?_groundSubst]
    cases hx : m.subst.get? v with
    | none => rfl
    | some x => rw [Option.map_some, ClassTable.groundArgument_of_not_wildcard (plain v hv x hx)]
  rw [Subst.apply, Subst.apply, same, groundSubst, Subst.isEmpty_mapTypes]

/-- A parameter type that grounds alike has one ground form, whether wildcards are grounded before
or after. -/
lemma groundParameter_apply (args : ∀ v x, m.subst.get? v = some x → x.Proper)
    (alike : m.GroundsAlike t p) :
    t.groundParameter (m.subst.apply p) = t.groundParameter ((m.groundSubst t).apply p) := by
  cases p with
  | var v =>
    rw [Subst.apply_eq_rebuild (Ty.normal_var v), Subst.apply_eq_rebuild (Ty.normal_var v),
      Subst.rebuild_var, Subst.rebuild_var, m.get?_groundSubst]
    cases hx : m.subst.get? v with
    | none => rfl
    | some x =>
      rw [Option.map_some, Option.getD_some, Option.getD_some]
      cases x with
      | wild =>
        rw [ClassTable.groundArgument, alike hx]
        rfl
      | wildExtends b =>
        have plain := (Ty.proper_wildExtends.1 (args v _ hx)).notWildcard
        exact (ClassTable.groundParameter_of_not_wildcard plain).symm
      | wildSuper b =>
        have plain := (Ty.proper_wildSuper.1 (args v _ hx)).notWildcard
        exact (ClassTable.groundParameter_of_not_wildcard plain).symm
      | _ => rfl
  | _ => rw [apply_groundSubst_of_plain alike]

end TargetMethod

namespace ClassTable

variable {t : ClassTable}

/-- The check of the parameters depends on the ground forms of the parameter types only. -/
lemma checkParameters_congr {l : Lambda} {m : Signature} {s u : Subst}
    (h : ∀ p ∈ m.params, t.groundParameter (s.apply p) = t.groundParameter (u.apply p)) :
    t.checkParameters l m s = t.checkParameters l m u := by
  rw [checkParameters, checkParameters, List.map_congr_left h]

/-- Written parameters are all right if each has exactly the type expected. -/
lemma gives_firstMismatch_written_iff {i : Nat} {ps : List (Ty × Ty)} :
    (t.firstMismatch true i ps).Gives none ↔ ∀ p ∈ ps, p.1.identical p.2 = true := by
  induction ps generalizing i with
  | nil => exact iff_of_true (Query.gives_pure_iff.2 rfl) (List.forall_mem_nil _)
  | cons p ps ih =>
    obtain ⟨found, expected⟩ := p
    rw [firstMismatch, Query.gives_bind_iff, List.forall_mem_cons, ← ih (i := i + 1)]
    constructor
    · rintro ⟨fits, given, h⟩
      obtain rfl : found.identical expected = fits := Query.gives_pure_iff.1 given
      split at h
      · rename_i fits
        exact ⟨fits, h⟩
      · cases Query.gives_pure_iff.1 h
    · rintro ⟨fits, h⟩
      refine ⟨true, Query.gives_pure_iff.2 fits, ?_⟩
      rwa [if_pos rfl]

/-- A lambda with the probe for a parameter type and unknown types for the others. -/
def probing (m : Signature) (p probe : Ty) : Lambda :=
  .ofBlock (.explicit (m.params.map fun q => ⟨"", if q = p then probe else .unknown⟩)) []

/-- A probing lambda passes if the ground form of the parameter type it probes is the probe. -/
lemma gives_checkParameters_probing_iff {m : Signature} {s : Subst} {p probe : Ty}
    (hp : p ∈ m.params) :
    (t.checkParameters (probing m p probe) m s).Gives none ↔
      probe.identical (t.groundParameter (s.apply p)) = true := by
  have found : (probing m p probe).params.toList.map Param.ty =
      m.params.map fun q => if q = p then probe else .unknown :=
    List.map_map
  rw [checkParameters, found, if_pos (by rw [List.length_map, List.length_map]), List.zip_map']
  rw [← Ty.forall_identical_probe_iff (g := fun q => t.groundParameter (s.apply q)) hp]
  exact gives_firstMismatch_written_iff.trans List.forall_mem_map

/-- A parameter type that is not itself a variable stays no wildcard. -/
lemma isWildcard_apply {s : Subst} {p : Ty} (flat : p.Flat) (plain : p.isWildcard = false)
    (notVar : ∀ v, p ≠ .var v) : (s.apply p).isWildcard = false := by
  unfold Subst.apply
  split
  · exact plain
  · cases p with
    | var v => exact absurd rfl (notVar v)
    | inter ms => cases flat.here
    | wild | wildExtends | wildSuper => cases plain
    | _ => rfl

variable {config : Config} {cache cache' : CandidateCache} {target : Ty} {m : TargetMethod}

/-- The type arguments that a proper target brings to its method are proper. -/
lemma proper_of_resolve (htarget : target.Proper)
    (h : (t.resolve config cache target).Gives (.ok (.method m), cache')) {v : TypeVarId} {x : Ty}
    (hx : m.subst.get? v = some x) : x.Proper := by
  obtain ⟨c, hc, d, -, -, subst⟩ := exists_subst_of_resolve h
  rw [subst] at hx
  rcases get?_instantiate_cases hx with rfl | rfl | mem
  · exact (t.properType_erasure _).proper
  · exact Ty.properType_unknown.proper
  · exact Ty.Proper.of_mem_targetClasses htarget hc x mem

/-- A wildcard that is put in below the top of a parameter type is seen by some lambda. -/
lemma exists_probe_of_wildcard (proper : t.Proper) (htarget : target.Proper)
    (h : (t.resolve config cache target).Gives (.ok (.method m), cache')) {p : Ty} (flat : p.Flat)
    (plain : p.isWildcard = false) (notVar : ∀ v, p ≠ .var v) {v : TypeVarId}
    (hv : p.mentions v = true) {x : Ty} (hx : m.subst.get? v = some x)
    (wildcard : x.isWildcard = true) : ∃ probe : Ty,
      probe.identical (t.groundParameter (m.subst.apply p)) ≠
        probe.identical (t.groundParameter ((m.groundSubst t).apply p)) := by
  have ground : (m.groundSubst t).get? v = some (t.groundArgument m.cls v x) := by
    rw [m.get?_groundSubst, hx, Option.map_some]
  have apart := Ty.exists_probe_of_isWildcard wildcard
    (properType_groundArgument proper m.cls v (proper_of_resolve htarget h hx)).notWildcard
  have maps {s : Subst} {y : Ty} (hy : s.get? v = some y) : s.apply p = s.rebuild p := by
    rw [Subst.apply, if_neg]
    intro empty
    cases hy.symm.trans (Subst.get?_of_isEmpty empty v)
  rw [groundParameter_of_not_wildcard (isWildcard_apply flat plain notVar),
    groundParameter_of_not_wildcard (isWildcard_apply flat plain notVar), maps hx, maps ground]
  refine flat.exists_probe hv ?_
  rwa [Subst.rebuild_var_of_some hx, Subst.rebuild_var_of_some ground]

/-- The two groundings check parameters alike if wildcards are put in for whole parameter types
only, `?` only where it is grounded to `Object`. A flat parameter type that a wildcard is put in
below the top makes a difference to some lambda. -/
theorem checkParameters_groundSubst (proper : t.Proper) (htarget : target.Proper)
    (h : (t.resolve config cache target).Gives (.ok (.method m), cache')) :
    ((∀ p ∈ m.signature.params, m.GroundsAlike t p) → ∀ l,
      t.checkParameters l m.signature m.subst =
        t.checkParameters l m.signature (m.groundSubst t)) ∧
      ((∀ l, (t.checkParameters l m.signature m.subst).Gives none ↔
          (t.checkParameters l m.signature (m.groundSubst t)).Gives none) →
        ∀ p ∈ m.signature.params, p.Flat → p.isWildcard = false → (∀ v, p ≠ .var v) →
          m.GroundsAlike t p) := by
  refine ⟨fun alike l => checkParameters_congr fun p hp => ?_, ?_⟩
  · exact TargetMethod.groundParameter_apply (fun _ _ => proper_of_resolve htarget h) (alike p hp)
  · intro same p hp flat plain notVar
    have below : ∀ v, p.mentions v = true → ∀ x, m.subst.get? v = some x →
        x.isWildcard = false := by
      intro v hv x hx
      by_contra wildcard
      obtain ⟨probe, differ⟩ := exists_probe_of_wildcard proper htarget h flat plain notVar hv hx
        (Bool.not_eq_false _ ▸ wildcard)
      have verdict := same (probing m.signature p probe)
      rw [gives_checkParameters_probing_iff hp, gives_checkParameters_probing_iff hp] at verdict
      exact differ (Bool.eq_iff_iff.2 verdict)
    cases p with
    | var v => exact absurd rfl (notVar v)
    | _ => exact below

/-- The method of `BiFunction<? super Integer, ?, ? extends Number>`. -/
def wildBiFunctionMethod : TargetMethod where
  cls := ⟨24⟩
  signature := ⟨⟨24⟩, "apply", [.var ⟨12⟩, .var ⟨13⟩], [], .var ⟨14⟩⟩
  subst := .ofList [(⟨12⟩, .wildSuper (.cls ⟨6⟩ [])), (⟨13⟩, .wild),
    (⟨14⟩, .wildExtends (.cls ⟨2⟩ []))]

/-- The lambda `(Integer i, Object o) -> {}` fits the parameters of a
`BiFunction<? super Integer, ?, ? extends Number>` either way. -/
theorem checkParameters_groundSubst_biFunction :
    platform.Proper ∧
      (Ty.cls ⟨24⟩ [.wildSuper (.cls ⟨6⟩ []), .wild, .wildExtends (.cls ⟨2⟩ [])]).Proper ∧
      (∃ cache', (platform.resolve .default .empty
        (.cls ⟨24⟩ [.wildSuper (.cls ⟨6⟩ []), .wild, .wildExtends (.cls ⟨2⟩ [])])).Gives
          (.ok (.method wildBiFunctionMethod), cache')) ∧
      (∀ p ∈ wildBiFunctionMethod.signature.params,
        wildBiFunctionMethod.GroundsAlike platform p) ∧
      (platform.checkParameters
        (.ofBlock (.explicit [⟨"i", .cls ⟨6⟩ []⟩, ⟨"o", .cls ⟨0⟩ []⟩]) [])
          wildBiFunctionMethod.signature wildBiFunctionMethod.subst).Gives none ∧
      (platform.checkParameters
        (.ofBlock (.explicit [⟨"i", .cls ⟨6⟩ []⟩, ⟨"o", .cls ⟨0⟩ []⟩]) [])
          wildBiFunctionMethod.signature (wildBiFunctionMethod.groundSubst platform)).Gives
            none := by
  have proper : platform.Proper := by decide +kernel
  have target :
      (Ty.cls ⟨24⟩ [.wildSuper (.cls ⟨6⟩ []), .wild, .wildExtends (.cls ⟨2⟩ [])]).Proper := by
    decide +kernel
  have resolved : (platform.resolve .default .empty
      (.cls ⟨24⟩ [.wildSuper (.cls ⟨6⟩ []), .wild, .wildExtends (.cls ⟨2⟩ [])])).Gives
        (.ok (.method wildBiFunctionMethod),
          CandidateCache.empty.insert ⟨24⟩ (some [wildBiFunctionMethod.signature])) :=
    ⟨2, [.targetResolved "BiFunction<? super Integer, ?, ? extends Number>" "apply"], by cbv⟩
  have unbounded : platform.groundUnbounded ⟨24⟩ ⟨13⟩ = platform.objectType := by decide +kernel
  have alike : ∀ p ∈ wildBiFunctionMethod.signature.params,
      wildBiFunctionMethod.GroundsAlike platform p := by
    refine List.forall_mem_cons.2 ⟨fun given => ?_, List.forall_mem_singleton.2 fun _ => unbounded⟩
    have super : wildBiFunctionMethod.subst.get? ⟨12⟩ = some (.wildSuper (.cls ⟨6⟩ [])) := by
      decide +kernel
    cases super.symm.trans given
  have fits : (platform.checkParameters
      (.ofBlock (.explicit [⟨"i", .cls ⟨6⟩ []⟩, ⟨"o", .cls ⟨0⟩ []⟩]) [])
        wildBiFunctionMethod.signature wildBiFunctionMethod.subst).Gives none :=
    Query.gives_of_attempt (n := 0) (by decide +kernel)
  obtain ⟨same, -⟩ := checkParameters_groundSubst proper target resolved
  refine ⟨proper, target, ⟨_, resolved⟩, alike, fits, ?_⟩
  rw [← same alike]
  exact fits

/-- `Object`, `Number`, `List<E>` and `Batch<T> { void run(List<T>); }`, in this order. -/
def batchTable : ClassTable where
  classes := #[
    ⟨"Object", .cls, [], none, [], []⟩,
    ⟨"Number", .cls, [], some (.cls ⟨0⟩ []), [], []⟩,
    ⟨"List", .interface, [⟨0⟩], none, [], []⟩,
    ⟨"Batch", .interface, [⟨1⟩], none, [],
      [⟨"run", [], [.cls ⟨2⟩ [.var ⟨1⟩]], .void, .abstract⟩]⟩]
  params := #[⟨"E", [], none⟩, ⟨"T", [], none⟩]
  index := ∅
  wellKnown := ⟨⟨0⟩, ⟨0⟩, ⟨1⟩, ⟨0⟩, ⟨0⟩, ⟨0⟩⟩

/-- The method of `Batch<? extends Number>`. -/
def batchMethod : TargetMethod where
  cls := ⟨3⟩
  signature := ⟨⟨3⟩, "run", [.cls ⟨2⟩ [.var ⟨1⟩]], [], .void⟩
  subst := .ofList [(⟨1⟩, .wildExtends (.cls ⟨1⟩ []))]

/-- The lambda `(List<Number> rest) -> {}`. -/
def numberBatch : Lambda :=
  .ofBlock (.explicit [⟨"rest", .cls ⟨2⟩ [.cls ⟨1⟩ []]⟩]) []

/-- The function type of `Batch<? extends Number>` has a parameter `List<Number>`; the parameter
check on its own asks for a `List<? extends Number>`. -/
theorem groundings_differ_batch :
    batchTable.Proper ∧ (Ty.cls ⟨3⟩ [.wildExtends (.cls ⟨1⟩ [])]).Proper ∧
      (batchTable.resolve .default .empty (.cls ⟨3⟩ [.wildExtends (.cls ⟨1⟩ [])])).Gives
        (.ok (.method batchMethod),
          CandidateCache.empty.insert ⟨3⟩ (some [batchMethod.signature])) ∧
      (batchTable.checkParameters numberBatch batchMethod.signature batchMethod.subst).Gives
        (some (.parameter 0 (.cls ⟨2⟩ [.wildExtends (.cls ⟨1⟩ [])])
          (.cls ⟨2⟩ [.cls ⟨1⟩ []]))) ∧
      (batchTable.checkParameters numberBatch batchMethod.signature
        (batchMethod.groundSubst batchTable)).Gives none :=
  ⟨by decide +kernel, by decide +kernel,
    ⟨2, [.targetResolved "Batch<? extends Number>" "run"], by cbv⟩,
    Query.gives_of_attempt (n := 0) (by decide +kernel),
    Query.gives_of_attempt (n := 0) (by decide +kernel)⟩

end ClassTable

end LambdaTyping
