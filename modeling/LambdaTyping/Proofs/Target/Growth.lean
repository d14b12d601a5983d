import LambdaTyping.Proofs.Method.Growth
import LambdaTyping.Proofs.Target.Resolution
import Mathlib.Data.List.Find

/-!
# Targets in tables that grow

Resolving a type over a closed table is the same query in every table that extends it, from whatever
cache, and a lambda for the target has the same parameter types and the same return type.
-/

namespace LambdaTyping

/-- The class types that a type over a table names are over it. -/
lemma Ty.over_of_mem_targetClasses {s : ClassTable} {ty : Ty} (h : ty.Over s) {c : ClassTy}
    (hc : c ∈ ty.targetClasses) : c.toTy.Over s := by
  induction ty using Ty.rec_members with
  | cls e args =>
    obtain rfl := List.mem_singleton.1 hc
    exact h
  | wildExtends b ih => exact ih (over_wildExtends.1 h) hc
  | inter ms ih =>
    obtain ⟨m, hm, hc⟩ := mem_targetClassesOf.1 hc
    exact ih m hm (over_inter.1 h m hm) hc
  | _ => cases hc

/-- The method is one of a class of the table, and its substitution puts in types over the table for
type parameters of the table. -/
structure TargetMethod.Over (s : ClassTable) (m : TargetMethod) : Prop where
  cls : s.declares m.cls = true
  params : ∀ v x, m.subst.get? v = some x → (s.param? v).isSome = true
  types : ∀ v x, m.subst.get? v = some x → x.Over s

namespace ClassTable

variable {s t : ClassTable} {config : Config} {c : ClassId} {d : ClassDecl} {ty : Ty}

section Ground

variable {m : TargetMethod}

/-- The method to which a type over a self-contained table is resolved is over it. -/
lemma SelfContained.over_of_resolve (self : s.SelfContained) {cache cache' : CandidateCache}
    (h : ty.Over s) (resolved : (s.resolve config cache ty).Gives (.ok (.method m), cache')) :
    m.Over s := by
  obtain ⟨c, hc, d, hd, cls, subst⟩ := exists_subst_of_resolve resolved
  have held := Ty.over_cls.1 (Ty.over_of_mem_targetClasses h hc)
  refine ⟨cls ▸ held.1, fun v x hx => ?_, fun v x hx => ?_⟩
  · rw [subst] at hx
    exact self.typeParams d (mem_classes_of_class? hd) v (mem_typeParams_of_get?_instantiate hx)
  · rw [subst] at hx
    exact self.over_instantiate held.2 hx

/-- The ground form of a type argument does not lead out of a self-contained table. -/
lemma SelfContained.over_groundArgument (self : s.SelfContained) (c : ClassId) (v : TypeVarId)
    {x : Ty} (hx : x.Over s) : (s.groundArgument c v x).Over s := by
  cases x with
  | wildExtends b => exact Ty.over_wildExtends.1 hx
  | wildSuper b => exact Ty.over_wildSuper.1 hx
  | wild =>
    rw [groundArgument, groundUnbounded]
    split
    · exact self.over_objectType
    · split
      · exact self.over_erasure_var v
      · exact Ty.over_intersection (self.over_upperBounds v)
  | _ => exact hx

/-- The ground substitution of a method does not lead out of a self-contained table. -/
lemma SelfContained.over_groundSubst (self : s.SelfContained) (hm : m.Over s) {v : TypeVarId}
    {x : Ty} (h : (m.groundSubst s).get? v = some x) : x.Over s := by
  rw [TargetMethod.get?_groundSubst] at h
  obtain ⟨y, hy, rfl⟩ := Option.map_eq_some_iff.1 h
  exact self.over_groundArgument m.cls v (hm.types v y hy)

variable (closed : s.Closed) (ext : s.Extends t)

include closed ext

/-- A type argument has the same ground form in both tables. -/
lemma Extends.groundArgument {v : TypeVarId} (hc : s.declares c = true)
    (hv : (s.param? v).isSome = true) (x : Ty) :
    t.groundArgument c v x = s.groundArgument c v x := by
  cases x with
  | wild =>
    rw [ClassTable.groundArgument, ClassTable.groundArgument, groundUnbounded, groundUnbounded,
      ext.upperBounds hv, ext.objectType, ext.erasure closed (Ty.over_var.2 hv), typeParamsOf,
      typeParamsOf, ext.classes c hc]
  | _ => simp only [ClassTable.groundArgument]

/-- What stands for the type arguments of the target is the same in both tables. -/
lemma Extends.apply_groundSubst (hm : m.Over s) (ty : Ty) :
    (m.groundSubst t).apply ty = (m.groundSubst s).apply ty := by
  have same (v : TypeVarId) : (m.groundSubst t).get? v = (m.groundSubst s).get? v := by
    rw [TargetMethod.get?_groundSubst, TargetMethod.get?_groundSubst]
    cases hv : m.subst.get? v with
    | none => rfl
    | some x =>
      rw [Option.map_some, Option.map_some, ext.groundArgument closed hm.cls (hm.params v x hv)]
  have empty : (m.groundSubst t).isEmpty = (m.groundSubst s).isEmpty := by
    rw [TargetMethod.groundSubst, TargetMethod.groundSubst, Subst.isEmpty_mapTypes,
      Subst.isEmpty_mapTypes]
  rw [Subst.apply, Subst.apply, empty]
  split
  · rfl
  · exact Subst.rebuild_congr fun v _ => by rw [Subst.rebuild_var, Subst.rebuild_var, same]

/-- A method over the first table has the same parameter types in both. -/
lemma Extends.parameterTypes (hm : m.Over s) : m.parameterTypes t = m.parameterTypes s :=
  List.map_congr_left fun p _ => ext.apply_groundSubst closed hm p

/-- A method over the first table has the same return type in both. -/
lemma Extends.returnType (hm : m.Over s) : m.returnType t = m.returnType s :=
  ext.apply_groundSubst closed hm m.signature.returnType

end Ground

section Resolve

variable (self : s.SelfContained) (ext : s.Extends t)

include self ext

/-- The type parameter that its argument leaves open is the same in both tables. -/
lemma Extends.unconstrainedParam? (hd : s.class? c = some d) (m : Signature) (u : Subst) :
    t.unconstrainedParam? d m u = s.unconstrainedParam? d m u := by
  refine List.find?_congr fun v hv => ?_
  have held := self.typeParams d (mem_classes_of_class? hd) v hv
  rw [leavesOpen, leavesOpen, ext.upperBounds held]

/-- The test for a wildcard argument that leaves the method open is the same in both tables. -/
lemma Extends.hasUnconstrainedWildcard (hd : s.class? c = some d) :
    t.hasUnconstrainedWildcard d = s.hasUnconstrainedWildcard d := by
  funext m u
  rw [ClassTable.hasUnconstrainedWildcard, ClassTable.hasUnconstrainedWildcard,
    ext.unconstrainedParam? self hd]

/-- The search for a type parameter that is left open is traced alike in both. -/
lemma Extends.unconstrainedEvents (hd : s.class? c = some d) (m : Signature) (u : Subst) :
    t.unconstrainedEvents d m u = s.unconstrainedEvents d m u := by
  rw [ClassTable.unconstrainedEvents, ClassTable.unconstrainedEvents,
    ext.unconstrainedParam? self hd]
  refine List.map_congr_left fun v hv => ?_
  have mem := List.mem_of_find?_eq_some (Option.mem_toList.1 hv)
  rw [ext.paramName (self.typeParams d (mem_classes_of_class? hd) v mem)]

/-- A class type over the first table is resolved alike in both. -/
lemma Extends.resolveClass (found : Option (List Signature)) {c : ClassTy} (hc : c.toTy.Over s) :
    t.resolveClass config found c = s.resolveClass config found c := by
  rw [ClassTable.resolveClass, ClassTable.resolveClass, ext.classes c.head (Ty.over_cls.1 hc).1]
  cases hd : s.class? c.head with
  | none => rfl
  | some d =>
    dsimp only
    rw [ext.instantiate self hd, ext.hasUnconstrainedWildcard self hd, ext.display hc]

/-- A type over the first table is resolved alike in both from the same candidates. -/
lemma Extends.resolveWith (candidates : ClassId → Option (List Signature)) (h : ty.Over s) :
    t.resolveWith config candidates ty = s.resolveWith config candidates ty := by
  induction ty using Ty.rec_members with
  | cls c args =>
    rw [ClassTable.resolveWith, ClassTable.resolveWith]
    exact ext.resolveClass (c := ⟨c, args⟩) self _ h
  | wildExtends b ih =>
    rw [ClassTable.resolveWith, ClassTable.resolveWith, ih (Ty.over_wildExtends.1 h)]
  | inter ms ih =>
    have each : ms.map (t.resolveWith config candidates) =
        ms.map (s.resolveWith config candidates) :=
      List.map_congr_left fun m hm => ih m hm (Ty.over_inter.1 h m hm)
    rw [ClassTable.resolveWith, ClassTable.resolveWith, resolveAllWith_eq, resolveAllWith_eq, each,
      ext.display h]
  | _ => simp only [ClassTable.resolveWith, ext.display h]

omit self in
/-- The outcome of a resolution is traced alike in both. -/
lemma Extends.outcomeEvents (h : ty.Over s) (r : Resolution) :
    t.outcomeEvents ty r = s.outcomeEvents ty r := by
  unfold ClassTable.outcomeEvents
  rw [ext.display h]

/-- The report of an open wildcard argument is traced alike in both. -/
lemma Extends.openWildcardEvents (hd : s.class? c = some d) (args : List Ty)
    (found : Option (List Signature)) :
    t.openWildcardEvents config d args found = s.openWildcardEvents config d args found := by
  unfold ClassTable.openWildcardEvents
  simp only [ext.unconstrainedEvents self hd, ext.instantiate self hd]

/-- A cache is asked for the candidates of a class of the first table alike in both. -/
lemma Extends.cachedCandidates (cache : CandidateCache) (hc : s.declares c = true) :
    cache.candidates t c = cache.candidates s c := by
  rw [CandidateCache.candidates, CandidateCache.candidates, ext.candidates self hc]

/-- The candidates of class types over the first table are collected alike in both. -/
lemma Extends.collectCandidates {cs : List ClassTy} (hcs : ∀ c ∈ cs, c.toTy.Over s)
    (cache : CandidateCache) :
    t.collectCandidates config cs cache = s.collectCandidates config cs cache := by
  induction cs generalizing cache with
  | nil => rw [ClassTable.collectCandidates, ClassTable.collectCandidates]
  | cons c cs ih =>
    obtain ⟨hc, hcs⟩ := List.forall_mem_cons.1 hcs
    have declared := (Ty.over_cls.1 hc).1
    rw [ClassTable.collectCandidates, ClassTable.collectCandidates, ext.classes c.head declared]
    cases hd : s.class? c.head with
    | none => rfl
    | some d =>
      simp only [ext.instantiationEvents self hd, ext.cachedCandidates self cache declared,
        ext.openWildcardEvents self hd, ih hcs]

/-- The resolution of a type is the same query in both tables. -/
lemma Extends.resolve (cache : CandidateCache) (h : ty.Over s) :
    t.resolve config cache ty = s.resolve config cache ty := by
  have classes : ∀ c ∈ ty.targetClasses, c.toTy.Over s := fun c => Ty.over_of_mem_targetClasses h
  rw [ClassTable.resolve, ClassTable.resolve, ext.collectCandidates self classes]
  simp only [ext.resolveWith self _ h, ext.outcomeEvents h]

end Resolve

end ClassTable

end LambdaTyping
