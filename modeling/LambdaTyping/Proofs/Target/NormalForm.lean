import LambdaTyping.Proofs.Subtyping.View
import LambdaTyping.Proofs.Target.Resolution
import LambdaTyping.Table.Edit
import LambdaTyping.Table.Platform
import Mathlib

/-!
# The normal form of function types

Where the types that a table declares are normal, all that is made of them and of normal types is
normal: what stands above a type, the candidates of a class (`normal_of_candidates`) and the
function types of targets (`normal_functionType`). `normal_form_kept` goes through everything that
makes types.
-/

namespace LambdaTyping

/-- The types of a method seen through a substitution are those it declares, seen so. -/
lemma Signature.exists_of_ofMethod {owner : ClassId} {m : MethodDecl} {s : Subst} {ty : Ty}
    (h : ty ∈ (ofMethod owner m s).returnType :: (ofMethod owner m s).params) :
    ∃ x ∈ m.types, ty = s.apply x := by
  rcases List.mem_cons.1 h with rfl | h
  · exact ⟨m.returnType, List.mem_cons_self, rfl⟩
  · obtain ⟨x, hx, rfl⟩ := List.mem_map.1 h
    exact ⟨x, List.mem_cons_of_mem _ hx, rfl⟩

/-- The class types that a type in normal form names are in normal form. -/
lemma Ty.normal_of_mem_targetClasses {ty : Ty} (hty : ty.Normal) {c : ClassTy}
    (hc : c ∈ ty.targetClasses) : c.Normal := by
  induction ty using Ty.rec_members with
  | cls e args =>
    obtain rfl := List.mem_singleton.1 hc
    exact normal_cls.1 hty
  | wildExtends b ih => exact ih hty hc
  | inter ms ih =>
    obtain ⟨m, hm, hc⟩ := mem_targetClassesOf.1 hc
    exact ih m hm (hty.of_mem_members hm).2 hc
  | _ => cases hc

namespace ClassTable

variable {t : ClassTable}

section Kept

variable (normal : t.Normal)

include normal

/-- The upper bounds that a table in normal form declares are in normal form. -/
lemma Normal.upperBounds (v : TypeVarId) : ∀ b ∈ t.upperBounds v, b.Normal := by
  intro b hb
  unfold ClassTable.upperBounds at hb
  split at hb
  · rename_i p hp
    exact normal.bounds p (Array.mem_of_getElem? hp) b hb
  · cases hb

/-- What stands above a type in normal form is in normal form. -/
lemma normal_of_mem_closure {ty : Ty} (hty : ty.Normal) {c : ClassTy} (hc : c ∈ t.closure ty) :
    c.Normal := by
  unfold closure at hc
  split at hc
  · rename_i e he
    exact normal_of_mem_classClosure normal.supertypes (Ty.normal_of_asClass? hty he) hc
  · cases hc

/-- Candidates are methods of classes above, seen from the class. -/
lemma normal_of_candidates {c : ClassId} {cs : List Signature}
    (h : (t.candidates c).Gives (some cs)) {m : Signature} (hm : m ∈ cs) :
    ∀ ty ∈ m.returnType :: m.params, ty.Normal := by
  cases hd : t.class? c with
  | none =>
    simp only [candidates, hd] at h
    cases Query.gives_pure_iff.1 h
  | some d =>
    obtain ⟨member, hmember, rfl⟩ := List.mem_map.1 (mem_leftOpen_of_candidate hd h hm)
    obtain ⟨e, he, o, ho, decl, hdecl, rfl⟩ := exists_of_mem_members (List.mem_filter.1 hmember).1
    have above := normal_of_mem_classClosure normal.supertypes (ClassTy.normal_own c _) he
    intro ty hty
    obtain ⟨x, hx, rfl⟩ := Signature.exists_of_ofMethod hty
    have declared := normal.methods o (mem_classes_of_class? ho) decl hdecl x hx
    exact (normal_instantiate above).apply declared

/-- The ground form of a type argument in normal form is in normal form. -/
lemma normal_groundArgument (c : ClassId) (v : TypeVarId) {x : Ty} (hx : x.Normal) :
    (t.groundArgument c v x).Normal := by
  cases x with
  | wildExtends b => exact hx
  | wildSuper b => exact hx
  | wild =>
    rw [groundArgument, groundUnbounded]
    split
    · rfl
    · split
      · exact t.normal_erasure _
      · exact Ty.normal_intersection (normal.upperBounds v)
  | _ => exact hx

/-- The method of a target asks for normal types, whatever wildcards the target has. -/
lemma normal_functionType {config : Config} {cache cache' : CandidateCache} (fresh : cache.Fresh t)
    {target : Ty} (htarget : target.Normal) {m : TargetMethod}
    (h : (t.resolve config cache target).Gives (.ok (.method m), cache')) :
    m.subst.Normal ∧ (m.groundSubst t).Normal ∧ (∀ ty ∈ m.parameterTypes t, ty.Normal) ∧
      (m.returnType t).Normal := by
  obtain ⟨c, hc, d, implements⟩ := exists_implements_of_resolve fresh h
  have subst : m.subst.Normal := by
    rw [implements.subst]
    exact normal_instantiate (Ty.normal_of_mem_targetClasses htarget hc)
  have ground : (m.groundSubst t).Normal :=
    subst.mapTypes fun v x hx => normal_groundArgument normal m.cls v hx
  obtain ⟨result, params⟩ := List.forall_mem_cons.1
    (normal_of_candidates normal implements.candidate (List.mem_singleton_self _))
  refine ⟨subst, ground, List.forall_mem_map.2 fun p hp => ?_, ground.apply result⟩
  exact ground.apply (params p hp)

end Kept

/-- Normal form is kept by all that makes types: intersections, substitutions and their composition,
instantiation, erasure, the walk up a hierarchy, views, candidates, and the substitutions and the
function types of resolved targets. -/
theorem normal_form_kept (normal : t.Normal) :
    (∀ ts : List Ty, (∀ a ∈ ts, a.Normal) → (Ty.intersection ts).Normal) ∧
      (∀ (s : Subst) (ty : Ty), s.Normal → ty.Normal → (s.apply ty).Normal) ∧
      (∀ s u : Subst, s.Normal → u.Normal → (s.andThen u).Normal) ∧
      (∀ d args, (∀ a ∈ args, a.Normal) → (t.instantiate d args).Normal) ∧
      (∀ ty : Ty, ty.Normal → (t.erasure ty).Normal) ∧
      (∀ ty : Ty, ty.Normal → ∀ c ∈ t.closure ty, c.toTy.Normal) ∧
      (∀ (ty v : Ty) target, ty.Normal → (t.view ty target).Gives (some v) → v.Normal) ∧
      (∀ c cs, (t.candidates c).Gives (some cs) →
        ∀ m ∈ cs, ∀ ty ∈ m.returnType :: m.params, ty.Normal) ∧
      ∀ config cache cache' (target : Ty) m, cache.Fresh t → target.Normal →
        (t.resolve config cache target).Gives (.ok (.method m), cache') →
          m.subst.Normal ∧ (m.groundSubst t).Normal ∧ (∀ ty ∈ m.parameterTypes t, ty.Normal) ∧
            (m.returnType t).Normal := by
  refine ⟨fun _ => Ty.normal_intersection, fun _ _ => Subst.Normal.apply,
    fun _ _ => Subst.Normal.andThen, fun _ _ => normal_instantiate,
    fun ty _ => t.normal_erasure ty, ?_, ?_, ?_, ?_⟩
  · intro ty hty c hc
    exact Ty.normal_cls.2 (normal_of_mem_closure normal hty hc)
  · intro ty v target hty h
    exact normal_of_view normal.supertypes normal.upperBounds hty h
  · intro c cs h m hm
    exact normal_of_candidates normal h hm
  · intro config cache cache' target m fresh htarget h
    exact normal_functionType normal fresh htarget h

/-- The platform with the type parameter `T extends Number & Serializable` and the interface
`Source<T>` of the method `T & Cloneable map(T & Cloneable)`. -/
def sourceTable : ClassTable :=
  let bounded := (platform.addParam "T" [.cls ⟨2⟩ [], .cls ⟨4⟩ []]).2
  let meet : Ty := .inter [.var ⟨18⟩, .cls ⟨3⟩ []]
  (bounded.upsert ⟨"Source", .interface, [⟨18⟩], none, [],
    [⟨"map", [], [meet], meet, .abstract⟩]⟩).2

/-- The method of `Source<?>`. -/
def sourceMethod : TargetMethod where
  cls := ⟨28⟩
  signature :=
    ⟨⟨28⟩, "map", [.inter [.var ⟨18⟩, .cls ⟨3⟩ []]], [], .inter [.var ⟨18⟩, .cls ⟨3⟩ []]⟩
  subst := .ofList [(⟨18⟩, .wild)]

/-- The method of `Source<?>` maps `Number & Serializable & Cloneable` to itself: the bounds that
stand for the wildcard are opened into the declared intersection. -/
theorem normal_form_kept_sourceTable :
    sourceTable.Normal ∧
      (Ty.intersection [.cls ⟨2⟩ [], .inter [.cls ⟨2⟩ [], .cls ⟨4⟩ []]]).Normal ∧
      ∃ cache', (sourceTable.resolve .default .empty (.cls ⟨28⟩ [.wild])).Gives
        (.ok (.method sourceMethod), cache') ∧
      sourceMethod.returnType sourceTable = .inter [.cls ⟨2⟩ [], .cls ⟨4⟩ [], .cls ⟨3⟩ []] ∧
      (sourceMethod.groundSubst sourceTable).Normal ∧
      (∀ ty ∈ sourceMethod.parameterTypes sourceTable, ty.Normal) ∧
      (sourceMethod.returnType sourceTable).Normal := by
  have normal : sourceTable.Normal := by decide +kernel
  have fresh := CandidateCache.fresh_empty sourceTable
  have members : ∀ a ∈ [.cls ⟨2⟩ [], .inter [.cls ⟨2⟩ [], .cls ⟨4⟩ []]], Ty.Normal a := by decide
  have resolved : (sourceTable.resolve .default .empty (.cls ⟨28⟩ [.wild])).Gives
      (.ok (.method sourceMethod),
        CandidateCache.empty.insert ⟨28⟩ (some [sourceMethod.signature])) :=
    ⟨2, [.targetResolved "Source<?>" "map"], by cbv⟩
  obtain ⟨intersection, -, -, -, -, -, -, -, functionType⟩ := normal_form_kept normal
  obtain ⟨-, ground, params, result⟩ :=
    functionType .default .empty _ (.cls ⟨28⟩ [.wild]) sourceMethod fresh (by decide) resolved
  exact ⟨normal, intersection _ members, _, resolved, by decide +kernel, ground, params, result⟩

end ClassTable

end LambdaTyping
