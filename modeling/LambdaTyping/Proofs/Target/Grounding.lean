import LambdaTyping.Proofs.Hierarchy.Reachability
import LambdaTyping.Proofs.Lambda.Checker
import LambdaTyping.Proofs.Subtyping.Basic
import LambdaTyping.Proofs.Target.Resolution
import LambdaTyping.Table.Platform
import Mathlib

/-!
# Grounded targets

Where a table declares no wildcards but as type arguments, a target without wildcards can be put in
the place of a target with them: its class at the grounded arguments is a subtype, and its function
type has no wildcards at the top. A checker checks lambdas against that function type
(`check_of_resolve`).
-/

namespace LambdaTyping

namespace Ty

/-- Substituting proper types in a proper type gives a proper type. -/
lemma ProperType.apply {ty : Ty} {s : Subst} (h : ty.ProperType)
    (image : ∀ v, (s.rebuild (.var v)).ProperType) : (s.apply ty).ProperType := by
  unfold Subst.apply
  split
  · exact h
  · obtain ⟨proper, plain⟩ := h.proper.rebuild fun v _ => image v
    exact ⟨proper, plain h.notWildcard⟩

/-- A type variable is a proper type. -/
lemma properType_var (v : TypeVarId) : (var v).ProperType :=
  ⟨proper_of_atom rfl rfl, rfl⟩

end Ty

namespace ClassTable

/-- All types that the table declares are proper and not wildcards, and no wildcard is a type
argument of a declared supertype. -/
structure Proper (t : ClassTable) : Prop where
  supertypes : ∀ d ∈ t.classes, ∀ s ∈ d.supertypes, s.ProperType
  arguments : ∀ d ∈ t.classes, ∀ s ∈ d.supertypes, ∀ c ∈ s.asClass?, ∀ a ∈ c.args,
    a.isWildcard = false
  bounds : ∀ p ∈ t.params, ∀ b ∈ p.upperBounds, b.ProperType
  methods : ∀ d ∈ t.classes, ∀ m ∈ d.methods, ∀ ty ∈ m.types, ty.ProperType

instance (t : ClassTable) : Decidable t.Proper :=
  decidable_of_iff
    ((∀ d ∈ t.classes, ∀ s ∈ d.supertypes, s.ProperType) ∧
      (∀ d ∈ t.classes, ∀ s ∈ d.supertypes, ∀ c ∈ s.asClass?, ∀ a ∈ c.args,
        a.isWildcard = false) ∧
      (∀ p ∈ t.params, ∀ b ∈ p.upperBounds, b.ProperType) ∧
      ∀ d ∈ t.classes, ∀ m ∈ d.methods, ∀ ty ∈ m.types, ty.ProperType)
    ⟨fun ⟨a, b, c, d⟩ => ⟨a, b, c, d⟩, fun ⟨a, b, c, d⟩ => ⟨a, b, c, d⟩⟩

variable {t : ClassTable}

/-- The upper bounds that a proper table declares are proper types. -/
lemma Proper.upperBounds (proper : t.Proper) {v : TypeVarId} {b : Ty} (hb : b ∈ t.upperBounds v) :
    b.ProperType := by
  unfold ClassTable.upperBounds at hb
  split at hb
  · rename_i p hp
    exact proper.bounds p (Array.mem_of_getElem? hp) b hb
  · cases hb

/-- At arguments without wildcards at the top a declared type keeps its wildcards in place. -/
lemma properType_instantiate {d : ClassDecl} {args : List Ty} (h : ∀ a ∈ args, a.ProperType)
    (v : TypeVarId) : ((t.instantiate d args).rebuild (.var v)).ProperType := by
  cases hx : (t.instantiate d args).get? v with
  | none =>
    rw [Subst.rebuild_var_of_none hx]
    exact Ty.properType_var v
  | some x =>
    rw [Subst.rebuild_var_of_some hx]
    rcases get?_instantiate_cases hx with rfl | rfl | mem
    · exact t.properType_erasure _
    · exact Ty.properType_unknown
    · exact h x mem

/-- What stands above a class type with proper arguments has proper arguments. -/
lemma properType_of_reaches (proper : t.Proper)
    (isClass : ∀ d ∈ t.classes, ∀ s ∈ d.supertypes, s.asClass?.isSome = true) {c e : ClassTy}
    (hc : ∀ a ∈ c.args, a.ProperType) (reach : t.Reaches c e) : ∀ a ∈ e.args, a.ProperType := by
  induction reach with
  | refl => exact hc
  | @tail b e _ he ih =>
    obtain ⟨d, hd, rfl | ⟨u, hu, ⟨_, rfl⟩ | ⟨_, seen⟩⟩⟩ := mem_parents_cases isClass he
    · exact fun a ha => absurd ha List.not_mem_nil
    · exact fun a ha => absurd ha List.not_mem_nil
    · have mem := mem_classes_of_class? hd
      have declared := proper.supertypes d mem _ hu
      have image := properType_instantiate (t := t) (d := d) ih
      rw [ClassTy.toTy, ClassTy.toTy, Subst.apply_cls] at seen
      obtain ⟨_, args⟩ := Ty.cls.inj seen
      rw [args]
      refine List.forall_mem_map.2 fun a ha => Ty.ProperType.apply ⟨?_, ?_⟩ image
      · exact Ty.proper_cls.1 declared.proper a ha
      · exact proper.arguments d mem _ hu u rfl a ha

/-- A wildcard without bounds is grounded to a proper type. -/
lemma properType_groundUnbounded (proper : t.Proper) (c : ClassId) (v : TypeVarId) :
    (t.groundUnbounded c v).ProperType := by
  unfold groundUnbounded
  dsimp only
  split
  · exact ⟨Ty.proper_of_atom rfl rfl, rfl⟩
  · split
    · exact t.properType_erasure _
    · exact Ty.properType_intersection fun b hb => proper.upperBounds hb

/-- The ground form of a type argument is a proper type, whether or not the argument is a
wildcard. -/
lemma properType_groundArgument (proper : t.Proper) (c : ClassId) (v : TypeVarId) {arg : Ty}
    (harg : arg.Proper) : (t.groundArgument c v arg).ProperType := by
  cases arg with
  | wild => exact properType_groundUnbounded proper c v
  | wildExtends b => exact Ty.proper_wildExtends.1 harg
  | wildSuper b => exact Ty.proper_wildSuper.1 harg
  | _ => exact ⟨harg, rfl⟩

/-- An argument contains what stands for it. -/
lemma contains_groundArgument (c : ClassId) (v : TypeVarId) {arg : Ty} (harg : arg.Proper) :
    t.Contains arg (t.groundArgument c v arg) := by
  unfold Contains
  cases arg with
  | wild => exact Query.gives_pure_iff.2 rfl
  | wildExtends b =>
    rw [groundArgument, argumentGoal_wildExtends (Ty.proper_wildExtends.1 harg).notWildcard]
    exact t.subtype_self b
  | wildSuper b =>
    rw [groundArgument, argumentGoal_wildSuper (Ty.proper_wildSuper.1 harg).notWildcard]
    exact t.subtype_self b
  | _ => exact Query.gives_pure_iff.2 (Ty.identical_self _)

end ClassTable

namespace TargetMethod

variable {t : ClassTable} {c : ClassId} {args : List Ty} {d : ClassDecl} {m : TargetMethod}
  (h : m.Implements t c args d)

include h

/-- The ground form of each type variable of a method is a proper type. -/
lemma Implements.properType_image (proper : t.Proper) (hargs : ∀ a ∈ args, a.Proper)
    (v : TypeVarId) : ((m.groundSubst t).rebuild (.var v)).ProperType := by
  have ground : (m.groundSubst t).get? v =
      ((t.instantiate d args).get? v).map (t.groundArgument c v) := by
    rw [get?_groundSubst, h.subst, h.cls]
  cases hx : (t.instantiate d args).get? v with
  | none =>
    rw [hx, Option.map_none] at ground
    rw [Subst.rebuild_var_of_none ground]
    exact Ty.properType_var v
  | some x =>
    rw [hx, Option.map_some] at ground
    rw [Subst.rebuild_var_of_some ground]
    refine ClassTable.properType_groundArgument proper c v ?_
    rcases ClassTable.get?_instantiate_cases hx with rfl | rfl | mem
    · exact (t.properType_erasure _).proper
    · exact Ty.properType_unknown.proper
    · exact hargs x mem

/-- The function type of a proper target is proper, with no wildcard at the top. -/
lemma Implements.properType_functionType (proper : t.Proper)
    (isClass : ∀ d ∈ t.classes, ∀ s ∈ d.supertypes, s.asClass?.isSome = true)
    (hargs : ∀ a ∈ args, a.Proper) :
    ∀ ty ∈ m.returnType t :: m.parameterTypes t, ty.ProperType := by
  obtain ⟨e, he, o, ho, decl, hdecl, _, _, sig⟩ := ClassTable.exists_declaration h
  have own : ∀ a ∈ d.typeParams.map Ty.var, a.ProperType :=
    List.forall_mem_map.2 fun v _ => Ty.properType_var v
  have seen : ∀ a ∈ e.args, a.ProperType :=
    ClassTable.properType_of_reaches proper isClass own (ClassTable.reaches_of_mem_classClosure he)
  have each (ty : Ty) (hty : ty ∈ decl.types) :
      ((m.groundSubst t).apply ((t.instantiate o e.args).apply ty)).ProperType := by
    have declared := proper.methods o (ClassTable.mem_classes_of_class? ho) decl hdecl ty hty
    exact (declared.apply (ClassTable.properType_instantiate seen)).apply
      (h.properType_image proper hargs)
  rw [returnType, parameterTypes, sig]
  refine List.forall_mem_cons.2 ⟨each _ List.mem_cons_self, ?_⟩
  refine List.forall_mem_map.2 (List.forall_mem_map.2 fun ty hty => ?_)
  exact each ty (List.mem_cons_of_mem _ hty)

/-- The class at the grounded type arguments is a subtype of the target. -/
lemma Implements.subtype_ground (nodup : d.typeParams.Nodup)
    (length : args.length = d.typeParams.length) (hargs : ∀ a ∈ args, a.Proper) :
    (t.subtype (.cls c (d.typeParams.map fun v => (m.groundSubst t).apply (.var v)))
      (.cls c args)).Gives true := by
  have params : (d.typeParams.zip args).map Prod.fst = d.typeParams :=
    List.map_fst_zip length.ge
  have given : (d.typeParams.zip args).map Prod.snd = args := List.map_snd_zip length.le
  have ground : d.typeParams.map (fun v => (m.groundSubst t).apply (.var v)) =
      (d.typeParams.zip args).map fun p => t.groundArgument c p.1 p.2 := by
    conv_lhs => rw [← params]
    rw [List.map_map]
    refine List.map_congr_left fun p hp => ?_
    have image : (m.groundSubst t).get? p.1 = some (t.groundArgument c p.1 p.2) := by
      rw [get?_groundSubst, h.subst, h.cls, ClassTable.instantiate_of_length length,
        Subst.get?_ofList_of_mem (params.symm ▸ nodup) hp, Option.map_some]
    rw [Function.comp_apply, Subst.apply_eq_rebuild (Ty.normal_var _),
      Subst.rebuild_var_of_some image]
  have pairs : args.zip ((d.typeParams.zip args).map fun p => t.groundArgument c p.1 p.2) =
      (d.typeParams.zip args).map fun p => (p.2, t.groundArgument c p.1 p.2) := by
    conv_lhs => arg 1; rw [← given]
    exact List.zip_map'
  rw [ground]
  show (t.subtype (ClassTy.toTy ⟨c, _⟩) (ClassTy.toTy ⟨c, args⟩)).Gives true
  -- The class is compared with itself, so its arguments have to contain the ground ones.
  refine ClassTable.subtype_of_contains (t.classView?_self _) ?_ ?_
  · rw [List.length_map, List.length_zip, length, Nat.min_self]
  · rw [pairs]
    refine List.forall_mem_map.2 fun p hp => ?_
    exact ClassTable.contains_groundArgument c p.1 (hargs p.2 (List.of_mem_zip hp).2)

end TargetMethod

/-- A checker resolves a target as the table does from what the checker keeps. -/
lemma Checker.gives_resolve {checker checker' : Checker} {t : ClassTable} {target : Ty}
    {r : Resolution} (h : (checker.resolve t target).Gives (r, checker')) :
    ∃ cache, (t.resolve checker.config (checker.cache.getD .empty) target).Gives (r, cache) := by
  obtain ⟨⟨result, cache⟩, found, h⟩ := Query.gives_bind_iff.1 h
  cases Query.gives_pure_iff.1 h
  exact ⟨cache, found⟩

namespace ClassTable

variable {t : ClassTable}

/-- The class at the grounded type arguments is a subtype of the target, the function type is
proper, and it is what a checker holds a lambda against. -/
theorem grounded_functionType (proper : t.Proper)
    (isClass : ∀ d ∈ t.classes, ∀ s ∈ d.supertypes, s.asClass?.isSome = true)
    {checker checker' : Checker} (fresh : (checker.cache.getD .empty).Fresh t) {c : ClassId}
    {args : List Ty} (nodup : (t.typeParamsOf c).Nodup)
    (length : args.length = (t.typeParamsOf c).length) (target : (Ty.cls c args).Proper)
    {m : TargetMethod}
    (h : (checker.resolve t (.cls c args)).Gives (.ok (.method m), checker')) :
    (t.subtype (.cls c ((t.typeParamsOf c).map fun v => (m.groundSubst t).apply (.var v)))
        (.cls c args)).Gives true ∧
      (∀ ty ∈ m.returnType t :: m.parameterTypes t, ty.ProperType) ∧
      ∀ (l : Lambda) (typing : ExprTyping) (span : Option Span),
        (∀ ds after, (checker.check t (.cls c args) l typing span).Gives (ds, after) →
          (Checker.parameterCode ∈ ds.map Diagnostic.code ↔
            t.ParametersMisfit l (m.parameterTypes t)) ∧
          (Checker.parameterCode ∉ ds.map Diagnostic.code →
            (Checker.returnCode ∈ ds.map Diagnostic.code ↔ ∃ mismatch,
              (t.checkReturn l (some (m.returnType t)) typing).Gives (some mismatch)))) ∧
        ((∀ p ∈ parameterPairs l (m.parameterTypes t),
            (t.parameterFits l.params.isExplicit p.1 p.2).Ends) →
          (t.checkReturn l (some (m.returnType t)) typing).Ends →
            (checker.check t (.cls c args) l typing span).Ends) := by
  have hargs := Ty.proper_cls.1 target
  obtain ⟨cache, found⟩ := Checker.gives_resolve h
  obtain ⟨d, implements⟩ := implements_of_resolve fresh found
  rw [typeParamsOf, implements.declared] at nodup length ⊢
  have functionType := implements.properType_functionType proper isClass hargs
  -- No parameter type is a wildcard, so the check does not ground them a second time.
  have plain : ∀ p ∈ m.parameterTypes t, p.isWildcard = false :=
    fun p hp => (functionType p (List.mem_cons_of_mem _ hp)).notWildcard
  refine ⟨implements.subtype_ground nodup length hargs, functionType, fun l typing span => ⟨?_, ?_⟩⟩
  · intro ds after checked
    exact Checker.codes_of_checkMethod plain ((Checker.gives_check_iff h).1 checked).1
  · intro params result
    have ends : (Checker.checkMethod t m l typing span).Ends :=
      Checker.checkMethod_ends plain params result
    obtain ⟨ds, hds⟩ := ends
    exact ⟨_, (Checker.gives_check_iff h).2 ⟨hds, rfl⟩⟩

/-- The method of `Function<? super Integer, ? extends Number>`. -/
def boundedFunctionMethod : TargetMethod where
  cls := ⟨23⟩
  signature := ⟨⟨23⟩, "apply", [.var ⟨9⟩], [], .var ⟨10⟩⟩
  subst := .ofList [(⟨9⟩, .wildSuper (.cls ⟨6⟩ [])), (⟨10⟩, .wildExtends (.cls ⟨2⟩ []))]

/-- The lambda `(String s) -> {}`. -/
def stringConsumer : Lambda :=
  .ofBlock (.explicit [⟨"s", .cls ⟨1⟩ []⟩]) []

/-- The function type of `Function<? super Integer, ? extends Number>` has no wildcards, and the
lambda does not fit it. -/
theorem grounded_functionType_boundedFunction :
    platform.Proper ∧
      (∀ d ∈ platform.classes, ∀ s ∈ d.supertypes, s.asClass?.isSome = true) ∧
      ((Checker.ofConfig .default).cache.getD .empty).Fresh platform ∧
      (platform.typeParamsOf ⟨23⟩).Nodup ∧
      (Ty.cls ⟨23⟩ [.wildSuper (.cls ⟨6⟩ []), .wildExtends (.cls ⟨2⟩ [])]).Proper ∧
      (∃ checker', ((Checker.ofConfig .default).resolve platform
        (.cls ⟨23⟩ [.wildSuper (.cls ⟨6⟩ []), .wildExtends (.cls ⟨2⟩ [])])).Gives
          (.ok (.method boundedFunctionMethod), checker')) ∧
      (platform.subtype (.cls ⟨23⟩ [.cls ⟨6⟩ [], .cls ⟨2⟩ []])
        (.cls ⟨23⟩ [.wildSuper (.cls ⟨6⟩ []), .wildExtends (.cls ⟨2⟩ [])])).Gives true ∧
      (∀ ty ∈ boundedFunctionMethod.returnType platform ::
        boundedFunctionMethod.parameterTypes platform, ty.ProperType) ∧
      ∀ typing ds after, ((Checker.ofConfig .default).check platform
        (.cls ⟨23⟩ [.wildSuper (.cls ⟨6⟩ []), .wildExtends (.cls ⟨2⟩ [])]) stringConsumer typing
          none).Gives (ds, after) → Checker.parameterCode ∈ ds.map Diagnostic.code := by
  have proper : platform.Proper := by decide +kernel
  have isClass : ∀ d ∈ platform.classes, ∀ s ∈ d.supertypes, s.asClass?.isSome = true := by
    decide +kernel
  have fresh : ((Checker.ofConfig .default).cache.getD .empty).Fresh platform :=
    CandidateCache.fresh_empty platform
  have nodup : (platform.typeParamsOf ⟨23⟩).Nodup := by decide +kernel
  have target : (Ty.cls ⟨23⟩ [.wildSuper (.cls ⟨6⟩ []), .wildExtends (.cls ⟨2⟩ [])]).Proper := by
    decide +kernel
  have resolved : ((Checker.ofConfig .default).resolve platform
      (.cls ⟨23⟩ [.wildSuper (.cls ⟨6⟩ []), .wildExtends (.cls ⟨2⟩ [])])).Gives
        (.ok (.method boundedFunctionMethod),
          ⟨.default, some (.insert .empty ⟨23⟩ (some [boundedFunctionMethod.signature]))⟩) :=
    ⟨2, [.targetResolved "Function<? super Integer, ? extends Number>" "apply"], by cbv⟩
  obtain ⟨below, functionType, checks⟩ :=
    grounded_functionType proper isClass fresh nodup rfl target resolved
  have images : ((platform.typeParamsOf ⟨23⟩).map fun v =>
      (boundedFunctionMethod.groundSubst platform).apply (.var v)) =
        [.cls ⟨6⟩ [], .cls ⟨2⟩ []] := by
    decide +kernel
  rw [images] at below
  refine ⟨proper, isClass, fresh, nodup, target, ⟨_, resolved⟩, below, functionType, ?_⟩
  intro typing ds after checked
  have pairs : parameterPairs stringConsumer (boundedFunctionMethod.parameterTypes platform) =
      [(.cls ⟨1⟩ [], .cls ⟨6⟩ [])] := by
    decide +kernel
  have misfit : platform.Misfits true (.cls ⟨1⟩ []) (.cls ⟨6⟩ []) := by
    show Ty.identical (.cls ⟨1⟩ []) (.cls ⟨6⟩ []) = false
    decide
  refine ((checks stringConsumer typing none).1 ds after checked).1.2 (.inr ?_)
  rw [pairs]
  exact ⟨_, List.mem_singleton_self _, misfit⟩

/-- The interfaces `D<T> extends T`, `F<E> { E get(); }` and `C extends D<F<?>>`. -/
def parameterHeir : ClassTable where
  classes := #[
    ⟨"java.lang.Object", .cls, [], none, [], []⟩,
    ⟨"D", .interface, [⟨0⟩], none, [.var ⟨0⟩], []⟩,
    ⟨"F", .interface, [⟨1⟩], none, [], [⟨"get", [], [], .var ⟨1⟩, .abstract⟩]⟩,
    ⟨"C", .interface, [], none, [.cls ⟨1⟩ [.cls ⟨2⟩ [.wild]]], []⟩]
  params := #[⟨"T", [], none⟩, ⟨"E", [], none⟩]
  index := ∅
  wellKnown := ⟨⟨0⟩, ⟨0⟩, ⟨0⟩, ⟨0⟩, ⟨0⟩, ⟨0⟩⟩

/-- The method of `C`, seen through the supertype that `D` takes from its argument. -/
def parameterHeirMethod : TargetMethod where
  cls := ⟨3⟩
  signature := ⟨⟨2⟩, "get", [], [], .wild⟩
  subst := .empty

/-- The function type of `C` has a wildcard at its top: by way of `D` the type argument `F<?>` comes
to stand above `C`, with the wildcard for `E`. -/
theorem wildcard_in_functionType_parameterHeir :
    parameterHeir.Proper ∧ CandidateCache.empty.Fresh parameterHeir ∧
      (parameterHeir.typeParamsOf ⟨3⟩).Nodup ∧ (parameterHeir.typeParamsOf ⟨3⟩).length = 0 ∧
      (Ty.cls ⟨3⟩ []).Proper ∧
      (∃ checker', ((Checker.ofConfig .default).resolve parameterHeir (.cls ⟨3⟩ [])).Gives
        (.ok (.method parameterHeirMethod), checker')) ∧
      ¬∀ ty ∈ parameterHeirMethod.returnType parameterHeir ::
        parameterHeirMethod.parameterTypes parameterHeir, ty.ProperType := by
  refine ⟨by decide +kernel, CandidateCache.fresh_empty _, by decide, rfl, by decide, ?_,
    by decide +kernel⟩
  let cache := CandidateCache.empty.insert ⟨3⟩ (some [parameterHeirMethod.signature])
  exact ⟨⟨.default, some cache⟩, 2, [.targetResolved "C" "get"], by cbv⟩

end ClassTable

end LambdaTyping
