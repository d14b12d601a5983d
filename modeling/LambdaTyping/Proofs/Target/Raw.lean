import LambdaTyping.Proofs.Target.Scope

/-!
# Raw targets

In a raw target each type parameter of the class stands for its erasure. That gives the function
type its erasure where nothing but type variables has to be erased; a type argument or a wildcard
that a method declares stays (`raw_functionType_iff`).
-/

namespace LambdaTyping.ClassTable

variable {t : ClassTable}

/-- Whether the type itself, apart from what it is built of, is erased by erasing type variables. An
intersection is if its members erase alike, as it is erased to the first. -/
def isBareAt (t : ClassTable) : Ty → Bool
  | .cls _ args => args.isEmpty
  | .wild | .wildExtends _ | .wildSuper _ => false
  | .inter ms => !ms.isEmpty && ms.all fun m => t.erasure m = t.erasure (.inter ms)
  | _ => true

/-- Nothing but type variables has to be erased in the type: it has no type arguments and no
wildcards, and the members of an intersection erase alike. -/
def Bare (t : ClassTable) (ty : Ty) : Prop :=
  ty.Everywhere fun s => t.isBareAt s = true

instance (ty : Ty) : Decidable (t.Bare ty) :=
  inferInstanceAs (Decidable (ty.Everywhere _))

/-- An intersection is bare if it has members, and these are bare and erase alike. -/
lemma bare_inter {ms : List Ty} : t.Bare (.inter ms) ↔
    ms ≠ [] ∧ ∀ m ∈ ms, t.erasure m = t.erasure (.inter ms) ∧ t.Bare m := by
  simp only [Bare, Ty.everywhere_inter, isBareAt, Bool.and_eq_true, Bool.not_eq_true',
    List.isEmpty_eq_false_iff, List.all_eq_true, decide_eq_true_eq, forall₂_and, and_assoc]

section Rebuild

variable {s : Subst} {ty : Ty}

/-- Erasing the variables of a bare type erases it. -/
lemma rebuild_of_bare (image : ∀ v, ty.mentions v = true → s.rebuild (.var v) = t.erasure (.var v))
    (bare : t.Bare ty) : s.rebuild ty = t.erasure ty := by
  induction ty using Ty.rec_members with
  | var v => exact image v (decide_eq_true rfl)
  | array e ih =>
    rw [Subst.rebuild_array, erasure_array, ih image (Ty.everywhere_array.1 bare).2]
  | cls c args =>
    obtain rfl := List.isEmpty_iff.1 bare.here
    rw [Subst.rebuild_cls, erasure_cls, List.map_nil]
  | inter ms ih =>
    obtain ⟨ne, members⟩ := bare_inter.1 bare
    rw [Subst.rebuild_inter]
    refine Ty.intersection_of_forall_eq (mt List.map_eq_nil_iff.1 ne) ?_
      (t.isIntersection_erasure _)
    refine List.forall_mem_map.2 fun m hm => ?_
    rw [← (members m hm).1]
    exact ih m hm (fun v hv => image v (Subst.mentionsAny_of_mem hm hv)) (members m hm).2
  | wild | wildExtends | wildSuper => cases bare.here
  | _ => simp [Subst.rebuild, erasure, eraseFrom]

/-- What a substitution of erasures makes of a type has nothing left to erase only if the type is
bare. The intersection of no types, which stands for an unknown type, is left aside. -/
lemma bare_of_erasure_rebuild (normal : s.Normal)
    (image : ∀ v, ty.mentions v = true → s.rebuild (.var v) = t.erasure (.var v))
    (filled : ty.Everywhere (· ≠ .inter [])) (fixed : t.erasure (s.rebuild ty) = s.rebuild ty) :
    t.Bare ty ∧ s.rebuild ty = t.erasure ty := by
  have notWildcard := (t.properType_erasure (s.rebuild ty)).notWildcard
  rw [fixed] at notWildcard
  induction ty using Ty.rec_members with
  | var v => exact ⟨Ty.everywhere_of_atom rfl rfl, image v (decide_eq_true rfl)⟩
  | array e ih =>
    rw [Subst.rebuild_array, erasure_array] at fixed
    have inside := Ty.array.inj fixed
    have plain := (t.properType_erasure (s.rebuild e)).notWildcard
    rw [inside] at plain
    obtain ⟨bare, same⟩ := ih image (Ty.everywhere_array.1 filled).2 inside plain
    rw [Subst.rebuild_array, erasure_array, same]
    exact ⟨Ty.everywhere_array.2 ⟨rfl, bare⟩, rfl⟩
  | cls c args =>
    rw [Subst.rebuild_cls, erasure_cls] at fixed
    obtain rfl := List.map_eq_nil_iff.1 (Ty.cls.inj fixed).2.symm
    rw [Subst.rebuild_cls, erasure_cls, List.map_nil]
    exact ⟨Ty.everywhere_cls.2 ⟨rfl, List.forall_mem_nil _⟩, rfl⟩
  | inter ms ih =>
    obtain ⟨here, filled⟩ := Ty.everywhere_inter.1 filled
    have ne : ms ≠ [] := fun none => here (by rw [none])
    have flat := t.isIntersection_erasure (s.rebuild (.inter ms))
    rw [fixed] at flat
    rw [Subst.rebuild_inter] at fixed flat notWildcard ⊢
    -- The intersection is none, so every member comes to the same type.
    have same : ∀ m ∈ ms, s.rebuild m = .intersection (ms.map s.rebuild) := fun m hm =>
      Ty.eq_intersection_of_mem (List.forall_mem_map.2 fun m _ => normal.rebuild m) flat
        (List.mem_map_of_mem hm)
    have each : ∀ m ∈ ms, t.Bare m ∧ s.rebuild m = t.erasure m := by
      intro m hm
      refine ih m hm (fun v hv => image v (Subst.mentionsAny_of_mem hm hv)) (filled m hm) ?_ ?_
      · rw [same m hm, fixed]
      · rw [same m hm, notWildcard]
    have whole : t.erasure (.inter ms) = .intersection (ms.map s.rebuild) := by
      obtain ⟨m, ms, rfl⟩ := List.exists_cons_of_ne_nil ne
      rw [erasure_inter_cons, ← (each m List.mem_cons_self).2, same m List.mem_cons_self]
    refine ⟨bare_inter.2 ⟨ne, fun m hm => ⟨?_, (each m hm).1⟩⟩, whole.symm⟩
    rw [whole, ← (each m hm).2, same m hm]
  | wild | wildExtends | wildSuper => cases notWildcard
  | _ => exact ⟨Ty.everywhere_of_atom rfl rfl, by simp [Subst.rebuild, erasure, eraseFrom]⟩

end Rebuild

end LambdaTyping.ClassTable

namespace LambdaTyping.TargetMethod.Implements

variable {t : ClassTable} {c : ClassId} {d : ClassDecl} {m : TargetMethod}
  (h : m.Implements t c [] d)

include h

/-- In a raw target each type parameter is grounded to its erasure. -/
lemma get?_groundSubst_raw {v : TypeVarId} (hv : v ∈ d.typeParams) :
    (m.groundSubst t).get? v = some (t.erasure (.var v)) := by
  have plain := (t.properType_erasure (.var v)).notWildcard
  rw [get?_groundSubst, h.subst, t.get?_instantiate_raw hv, Option.map_some,
    ClassTable.groundArgument_of_not_wildcard plain]

/-- The ground substitution of a raw target is in normal form. -/
lemma normal_groundSubst_raw : (m.groundSubst t).Normal := by
  intro v x hx
  have given := hx
  rw [get?_groundSubst, h.subst, Option.map_eq_some_iff] at given
  obtain ⟨y, hy, -⟩ := given
  rw [h.get?_groundSubst_raw (ClassTable.mem_typeParams_of_get?_instantiate hy)] at hx
  cases hx
  exact t.normal_erasure _

/-- Every type parameter is replaced, so the substitution is not the one that leaves types alone. -/
lemma apply_groundSubst_raw (generic : d.typeParams ≠ []) (ty : Ty) :
    (m.groundSubst t).apply ty = (m.groundSubst t).rebuild ty := by
  obtain ⟨v, hv⟩ := List.exists_mem_of_ne_nil _ generic
  rw [Subst.apply, if_neg]
  intro empty
  have none := Subst.get?_of_isEmpty empty v
  rw [h.get?_groundSubst_raw hv] at none
  cases none

/-- The ground type of a type over the type parameters of the class is its erasure if the type is
bare, and otherwise, but for intersections of no types, is not. -/
lemma apply_groundSubst_raw_iff (generic : d.typeParams ≠ []) {ty : Ty}
    (inScope : ty.ScopedIn d.typeParams) :
    (t.Bare ty → (m.groundSubst t).apply ty = t.erasure ty) ∧
      (ty.Everywhere (· ≠ .inter []) → (m.groundSubst t).apply ty = t.erasure ty → t.Bare ty) := by
  have image : ∀ v, ty.mentions v = true →
      (m.groundSubst t).rebuild (.var v) = t.erasure (.var v) := fun v hv =>
    Subst.rebuild_var_of_some (h.get?_groundSubst_raw (inScope v hv))
  rw [h.apply_groundSubst_raw generic]
  refine ⟨ClassTable.rebuild_of_bare image, fun filled same => ?_⟩
  refine (ClassTable.bare_of_erasure_rebuild h.normal_groundSubst_raw image filled ?_).1
  rw [same, t.erasure_erasure]

end LambdaTyping.TargetMethod.Implements

namespace LambdaTyping.ClassTable

variable {t : ClassTable}

/-- The function type of a raw target is erased if nothing but type variables has to be erased in
the types of the method, as it is seen from the class. Where no intersection of no types is declared
the function type is erased in no other case: a type argument, as in `List<T>`, is not dropped. -/
theorem raw_functionType_iff (ws : t.WellScoped) {config : Config} {cache cache' : CandidateCache}
    (fresh : cache.Fresh t) {c : ClassId} (generic : t.typeParamsOf c ≠ []) {m : TargetMethod}
    (h : (t.resolve config cache (.cls c [])).Gives (.ok (.method m), cache')) :
    ((∀ p ∈ m.signature.params, t.Bare p) → m.parameterTypes t = m.signature.erasedParams t) ∧
      (t.Bare m.signature.returnType → m.returnType t = t.erasure m.signature.returnType) ∧
      ((∀ p ∈ m.signature.params, p.Everywhere (· ≠ .inter [])) →
        m.parameterTypes t = m.signature.erasedParams t → ∀ p ∈ m.signature.params, t.Bare p) ∧
      (m.signature.returnType.Everywhere (· ≠ .inter []) →
        m.returnType t = t.erasure m.signature.returnType → t.Bare m.signature.returnType) := by
  obtain ⟨d, implements⟩ := implements_of_resolve fresh h
  rw [typeParamsOf, implements.declared] at generic
  obtain ⟨result, params⟩ := List.forall_mem_cons.1 (scopedIn_of_implements ws implements)
  obtain ⟨of_bare, bare_of⟩ := implements.apply_groundSubst_raw_iff generic result
  refine ⟨fun bare => ?_, of_bare, fun filled same p hp => ?_, bare_of⟩
  · refine List.map_congr_left fun p hp => ?_
    exact (implements.apply_groundSubst_raw_iff generic (params p hp)).1 (bare p hp)
  · refine (implements.apply_groundSubst_raw_iff generic (params p hp)).2 (filled p hp) ?_
    exact List.map_inj_left.1 same p hp

/-- `Object`, `Number`, `Integer`, `List<E>`,
`Pair<A extends Number, B extends A> { B[] pick(A, int); }`,
`Narrow<C extends Integer> extends Pair<C, C>` and `Sink<T> { void put(List<T>); }`, in this order.
-/
def pairTable : ClassTable where
  classes := #[
    ⟨"Object", .cls, [], none, [], []⟩,
    ⟨"Number", .cls, [], some (.cls ⟨0⟩ []), [], []⟩,
    ⟨"Integer", .cls, [], some (.cls ⟨1⟩ []), [], []⟩,
    ⟨"List", .interface, [⟨0⟩], none, [], []⟩,
    ⟨"Pair", .interface, [⟨1⟩, ⟨2⟩], none, [],
      [⟨"pick", [], [.var ⟨1⟩, .prim .int], .array (.var ⟨2⟩), .abstract⟩]⟩,
    ⟨"Narrow", .interface, [⟨3⟩], none, [.cls ⟨4⟩ [.var ⟨3⟩, .var ⟨3⟩]], []⟩,
    ⟨"Sink", .interface, [⟨4⟩], none, [],
      [⟨"put", [], [.cls ⟨3⟩ [.var ⟨4⟩]], .void, .abstract⟩]⟩]
  params := #[⟨"E", [], none⟩, ⟨"A", [.cls ⟨1⟩ []], none⟩, ⟨"B", [.var ⟨1⟩], none⟩,
    ⟨"C", [.cls ⟨2⟩ []], none⟩, ⟨"T", [], none⟩]
  index := ∅
  wellKnown := ⟨⟨0⟩, ⟨0⟩, ⟨1⟩, ⟨2⟩, ⟨0⟩, ⟨0⟩⟩

/-- The method of the raw type `Narrow`. -/
def narrowMethod : TargetMethod where
  cls := ⟨5⟩
  signature := ⟨⟨4⟩, "pick", [.var ⟨3⟩, .prim .int], [], .array (.var ⟨3⟩)⟩
  subst := .ofList [(⟨3⟩, .cls ⟨2⟩ [])]

/-- The raw type `Narrow` asks for `Integer[] pick(Integer, int)`, which is its erased method. -/
theorem raw_functionType_iff_narrow :
    pairTable.WellScoped ∧ CandidateCache.empty.Fresh pairTable ∧
      pairTable.typeParamsOf ⟨5⟩ ≠ [] ∧
      (∃ cache', (pairTable.resolve .default .empty (.cls ⟨5⟩ [])).Gives
        (.ok (.method narrowMethod), cache')) ∧
      (∀ p ∈ narrowMethod.signature.params, pairTable.Bare p) ∧
      pairTable.Bare narrowMethod.signature.returnType ∧
      narrowMethod.signature.erasedParams pairTable = [.cls ⟨2⟩ [], .prim .int] ∧
      pairTable.erasure narrowMethod.signature.returnType = .array (.cls ⟨2⟩ []) := by
  have ws : pairTable.WellScoped := by decide +kernel
  have fresh := CandidateCache.fresh_empty pairTable
  have generic : pairTable.typeParamsOf ⟨5⟩ ≠ [] := by decide +kernel
  have resolved : (pairTable.resolve .default .empty (.cls ⟨5⟩ [])).Gives
      (.ok (.method narrowMethod),
        CandidateCache.empty.insert ⟨5⟩ (some [narrowMethod.signature])) :=
    ⟨2, [.targetResolved "Narrow" "pick"], by cbv⟩
  have params : ∀ p ∈ narrowMethod.signature.params, pairTable.Bare p := by decide +kernel
  have result : pairTable.Bare narrowMethod.signature.returnType := by decide +kernel
  obtain ⟨paramsErased, resultErased, -, -⟩ := raw_functionType_iff ws fresh generic resolved
  refine ⟨ws, fresh, generic, ⟨_, resolved⟩, params, result, ?_, ?_⟩
  · rw [← paramsErased params]
    decide +kernel
  · rw [← resultErased result]
    decide +kernel

/-- The method of the raw type `Sink`. -/
def sinkMethod : TargetMethod where
  cls := ⟨6⟩
  signature := ⟨⟨6⟩, "put", [.cls ⟨3⟩ [.var ⟨4⟩]], [], .void⟩
  subst := .ofList [(⟨4⟩, .cls ⟨0⟩ [])]

/-- The raw type `Sink` asks for a `List<Object>`; erased, the parameter is a `List`. -/
theorem raw_sink_not_erased :
    pairTable.WellScoped ∧ pairTable.typeParamsOf ⟨6⟩ ≠ [] ∧
      (pairTable.resolve .default .empty (.cls ⟨6⟩ [])).Gives (.ok (.method sinkMethod),
        CandidateCache.empty.insert ⟨6⟩ (some [sinkMethod.signature])) ∧
      sinkMethod.parameterTypes pairTable = [.cls ⟨3⟩ [.cls ⟨0⟩ []]] ∧
      sinkMethod.signature.erasedParams pairTable = [.cls ⟨3⟩ []] ∧
      sinkMethod.parameterTypes pairTable ≠ sinkMethod.signature.erasedParams pairTable := by
  have params : sinkMethod.parameterTypes pairTable = [.cls ⟨3⟩ [.cls ⟨0⟩ []]] := by
    decide +kernel
  have erased : sinkMethod.signature.erasedParams pairTable = [.cls ⟨3⟩ []] := by
    simp [Signature.erasedParams, sinkMethod, erasure_cls]
  refine ⟨by decide +kernel, by decide +kernel, ⟨2, [.targetResolved "Sink" "put"], by cbv⟩, params,
    erased, ?_⟩
  rw [params, erased]
  decide

end LambdaTyping.ClassTable
