import LambdaTyping.Proofs.Hierarchy.Reachability
import LambdaTyping.Proofs.Target.Resolution
import LambdaTyping.Table.Platform
import Mathlib

/-!
# The scope of a function type

No type parameter of a class leaks out of the resolution of a target: what the function type
mentions, the target mentions (`mentions_of_functionType`). A method's types are seen from the class
first, where they mention the type parameters of the class only; of these each stands for its
argument, or for a type that grounds a wildcard and mentions nothing that the argument does not.
-/

namespace LambdaTyping

namespace ClassTable

variable {t : ClassTable} {c : ClassId} {d : ClassDecl}

/-- A bound that mentions a type parameter of the class does not stand for a wildcard. -/
lemma mentions_groundUnbounded (ws : t.WellScoped) (hd : t.class? c = some d) {v : TypeVarId}
    (hv : v ∈ d.typeParams) (w : TypeVarId) : (t.groundUnbounded c v).mentions w = false := by
  unfold groundUnbounded
  dsimp only
  split
  · rfl
  · split
    · exact t.mentions_erasure _ w
    · rename_i closed
      rw [Bool.eq_false_iff]
      intro hw
      obtain ⟨b, hb, hw⟩ := Subst.mentions_intersection.1 hw
      have param := ws.bounds d (mem_classes_of_class? hd) v hv b hb w hw
      refine closed (List.any_eq_true.2 ⟨b, hb, List.any_eq_true.2 ⟨w, ?_, hw⟩⟩)
      rwa [typeParamsOf, hd]

/-- The ground form of a type argument mentions nothing that the argument does not. -/
lemma mentions_of_groundArgument (ws : t.WellScoped) (hd : t.class? c = some d) {v w : TypeVarId}
    (hv : v ∈ d.typeParams) {arg : Ty} (hw : (t.groundArgument c v arg).mentions w = true) :
    arg.mentions w = true := by
  cases arg with
  | wild =>
    rw [groundArgument, mentions_groundUnbounded ws hd hv] at hw
    cases hw
  | _ => exact hw

end ClassTable

namespace TargetMethod

variable {t : ClassTable} {c : ClassId} {args : List Ty} {d : ClassDecl} {m : TargetMethod}

/-- What stands for a type parameter of the class mentions what the type arguments mention. -/
lemma Implements.exists_mentions (h : m.Implements t c args d) (ws : t.WellScoped)
    {v w : TypeVarId} (hw : w ∈ d.typeParams)
    (hv : ((m.groundSubst t).rebuild (.var w)).mentions v = true) :
    ∃ a ∈ args, a.mentions v = true := by
  obtain ⟨x, hx⟩ := t.exists_get?_instantiate args hw
  have ground : (m.groundSubst t).get? w = some (t.groundArgument c w x) := by
    rw [get?_groundSubst, h.subst, hx, h.cls, Option.map_some]
  rw [Subst.rebuild_var_of_some ground] at hv
  have hv := ClassTable.mentions_of_groundArgument ws h.declared hw hv
  rcases ClassTable.get?_instantiate_cases hx with rfl | rfl | mem
  · rw [t.mentions_erasure] at hv
    cases hv
  · cases hv
  · exact ⟨x, mem, hv⟩

end TargetMethod

/-- A class type that a type names mentions nothing that the type does not. -/
lemma Ty.mentions_of_mem_targetClasses {ty : Ty} {c : ClassTy} (hc : c ∈ ty.targetClasses)
    {v : TypeVarId} (hv : c.toTy.mentions v = true) : ty.mentions v = true := by
  induction ty using Ty.rec_members with
  | cls e args =>
    obtain rfl := List.mem_singleton.1 hc
    exact hv
  | wildExtends b ih => exact ih hc
  | inter ms ih =>
    obtain ⟨m, hm, hc⟩ := mem_targetClassesOf.1 hc
    exact Subst.mentionsAny_of_mem hm (ih m hm hc)
  | _ => cases hc

namespace ClassTable

variable {t : ClassTable} {config : Config}

/-- The method of a target mentions the type parameters of its class only. -/
lemma scopedIn_of_implements (ws : t.WellScoped) {c : ClassId} {args : List Ty} {d : ClassDecl}
    {m : TargetMethod} (h : m.Implements t c args d) :
    ∀ ty ∈ m.signature.returnType :: m.signature.params, ty.ScopedIn d.typeParams := by
  obtain ⟨e, he, o, ho, decl, hdecl, _, notGeneric, sig⟩ := exists_declaration h
  have seen (ty : Ty) (hty : ty ∈ decl.types) :
      ((t.instantiate o e.args).apply ty).ScopedIn d.typeParams := by
    intro v hv
    have inScope := ws.methods o (mem_classes_of_class? ho) decl hdecl ty hty
    rw [notGeneric, List.append_nil] at inScope
    obtain ⟨a, ha, hv⟩ := exists_mentions_of_instantiate inScope (Subst.mentions_apply.1 hv)
    exact scopedIn_of_reaches ws (reaches_of_mem_classClosure he) ha v hv
  rw [sig]
  exact List.forall_mem_cons.2 ⟨seen _ List.mem_cons_self,
    List.forall_mem_map.2 fun ty hty => seen ty (List.mem_cons_of_mem _ hty)⟩

/-- Every type variable that a function type mentions is mentioned by the target. -/
theorem mentions_of_functionType (ws : t.WellScoped) {cache cache' : CandidateCache}
    (fresh : cache.Fresh t) {target : Ty} {m : TargetMethod}
    (h : (t.resolve config cache target).Gives (.ok (.method m), cache')) {ty : Ty}
    (hty : ty ∈ m.returnType t :: m.parameterTypes t) {v : TypeVarId}
    (hv : ty.mentions v = true) : target.mentions v = true := by
  obtain ⟨c, hc, d, implements⟩ := exists_implements_of_resolve fresh h
  refine Ty.mentions_of_mem_targetClasses hc ?_
  have ground : ∃ x ∈ m.signature.returnType :: m.signature.params,
      ty = (m.groundSubst t).apply x := by
    rcases List.mem_cons.1 hty with rfl | hty
    · exact ⟨_, List.mem_cons_self, rfl⟩
    · obtain ⟨x, hx, rfl⟩ := List.mem_map.1 hty
      exact ⟨x, List.mem_cons_of_mem _ hx, rfl⟩
  obtain ⟨x, hx, rfl⟩ := ground
  obtain ⟨w, hw, hv⟩ := Subst.mentions_rebuild.1 (Subst.mentions_apply.1 hv)
  have param := scopedIn_of_implements ws implements x hx w hw
  obtain ⟨a, ha, hv⟩ := implements.exists_mentions ws param hv
  exact Subst.mentionsAny_of_mem ha hv

/-- The method of `UnaryOperator<? super T[]>`, for a type variable `T`. -/
def arrayOperatorMethod : TargetMethod where
  cls := ⟨25⟩
  signature := ⟨⟨23⟩, "apply", [.var ⟨15⟩], [], .var ⟨15⟩⟩
  subst := .ofList [(⟨15⟩, .wildSuper (.array (.var ⟨0⟩)))]

/-- The function type of `UnaryOperator<? super T[]>` mentions `T`, and so does the target. -/
theorem mentions_of_functionType_arrayOperator :
    platform.WellScoped ∧ CandidateCache.empty.Fresh platform ∧
      ∃ cache', (platform.resolve .default .empty
          (.cls ⟨25⟩ [.wildSuper (.array (.var ⟨0⟩))])).Gives
        (.ok (.method arrayOperatorMethod), cache') ∧
      arrayOperatorMethod.returnType platform = .array (.var ⟨0⟩) ∧
        (Ty.cls ⟨25⟩ [.wildSuper (.array (.var ⟨0⟩))]).mentions ⟨0⟩ = true := by
  have ws : platform.WellScoped := by decide +kernel
  have fresh := CandidateCache.fresh_empty platform
  have resolved : (platform.resolve .default .empty
      (.cls ⟨25⟩ [.wildSuper (.array (.var ⟨0⟩))])).Gives (.ok (.method arrayOperatorMethod),
        CandidateCache.empty.insert ⟨25⟩ (some [arrayOperatorMethod.signature])) :=
    ⟨2, [.targetResolved "UnaryOperator<? super T[]>" "apply"], by cbv⟩
  have array : arrayOperatorMethod.returnType platform = .array (.var ⟨0⟩) := by cbv
  refine ⟨ws, fresh, _, resolved, array, ?_⟩
  refine mentions_of_functionType ws fresh resolved List.mem_cons_self ?_
  rw [array]
  rfl

end ClassTable

end LambdaTyping
