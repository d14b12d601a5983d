import LambdaTyping.Proofs.Hierarchy.Closure
import LambdaTyping.Proofs.Method.Candidates
import LambdaTyping.Proofs.Subtyping.View
import LambdaTyping.Proofs.Target.Resolution
import LambdaTyping.Proofs.Type.Subterms
import LambdaTyping.Table.Platform
import Mathlib

/-!
# The function type of a target

The candidates of a class are found once, within its own declaration, and the type arguments of a
target come in afterwards. This is the same as to view the target as the class that declares the
method and to instantiate the declaration there (`functionType_eq_instantiate`).
-/

namespace LambdaTyping

/-- Without wildcards to ground, the method's types are seen at the type arguments as they are. -/
lemma TargetMethod.Implements.rebuild_groundSubst {t : ClassTable} {c : ClassId} {args : List Ty}
    {d : ClassDecl} {m : TargetMethod} (h : m.Implements t c args d)
    (length : args.length = d.typeParams.length) (plain : ∀ a ∈ args, a.isWildcard = false)
    (ty : Ty) : (m.groundSubst t).rebuild ty = (t.instantiate d args).rebuild ty := by
  refine Subst.rebuild_congr fun v _ => ?_
  have same : (m.groundSubst t).get? v = (t.instantiate d args).get? v := by
    rw [get?_groundSubst, h.subst]
    cases hv : (t.instantiate d args).get? v with
    | none => rfl
    | some x =>
      rw [ClassTable.instantiate_of_length length] at hv
      have hx := (List.of_mem_zip (Subst.mem_of_get?_ofList hv)).2
      rw [Option.map_some, ClassTable.groundArgument_of_not_wildcard (plain x hx)]
  rw [Subst.rebuild_var, Subst.rebuild_var, same]

namespace ClassTable

variable {t : ClassTable}

/-- Of the walk up from a class within its own declaration and that from the class at some type
arguments, `e` and `e'` are entries for one class, and its declaration seen from `e` becomes under
the substitution what it is seen from `e'`. -/
structure Follows (t : ClassTable) (s : Subst) (e e' : ClassTy) : Prop where
  head : e'.head = e.head
  normal : e.Normal
  rebuild : ∀ o, t.class? e.head = some o → ∀ ty, ty.Normal → ty.ScopedIn o.typeParams →
    (t.instantiate o e'.args).rebuild ty = s.rebuild ((t.instantiate o e.args).rebuild ty)

/-- To each class above a class within its own declaration the walk up from the class at some type
arguments has its entry. -/
lemma exists_follows (ws : t.WellScoped) (normal : t.Normal) {c : ClassId} {d : ClassDecl}
    {args : List Ty} (hd : t.class? c = some d) (length : args.length = d.typeParams.length)
    (hargs : ∀ a ∈ args, a.Normal) {e : ClassTy}
    (he : e ∈ t.classClosure ⟨c, d.typeParams.map .var⟩) :
    ∃ e' ∈ t.classClosure ⟨c, args⟩, t.Follows (t.instantiate d args) e e' := by
  have own := ClassTy.normal_own c d.typeParams
  have above (b : ClassTy) (hb : b ∈ t.parents ⟨c, d.typeParams.map .var⟩) : b.Normal :=
    normal_of_mem_parents normal.supertypes own hb
  have hs := normal_instantiate (t := t) (d := d) hargs
  -- The walks differ in their first entry; what follows is a walk up from the parents, and the
  -- substitution takes the parents of the one to those of the other.
  rw [classClosure, closureFrom, if_neg List.not_mem_nil, List.nil_append] at he ⊢
  rw [parents_of_self ws.isClass normal.supertypes ws.supertypes hd length,
    closureFrom_rebuild ws.isClass normal.supertypes ws.supertypes hs above]
  rcases List.mem_cons.1 he with rfl | he
  · refine ⟨_, List.mem_cons_self, rfl, own, fun o ho ty hty inScope => ?_⟩
    obtain rfl : d = o := Option.some_inj.1 (hd.symm.trans ho)
    rw [rebuild_instantiate_self hty inScope]
  · have hn := normal_of_mem_closureFrom normal.supertypes above he
    refine ⟨_, List.mem_cons_of_mem _ (List.mem_map_of_mem he), rfl, hn, fun o _ ty _ inScope => ?_⟩
    exact rebuild_instantiate hs hn inScope

/-- A type of a declaration, seen from the class and with the type arguments put in afterwards, is
the type as it is seen from the view. -/
lemma Follows.apply_groundSubst {c : ClassId} {args : List Ty} {d o : ClassDecl} {m : TargetMethod}
    {e e' : ClassTy} {ty : Ty} (follows : t.Follows (t.instantiate d args) e e')
    (h : m.Implements t c args d) (length : args.length = d.typeParams.length)
    (plain : ∀ a ∈ args, a.isWildcard = false) (ho : t.class? e.head = some o) (hty : ty.Normal)
    (inScope : ty.ScopedIn o.typeParams) :
    (m.groundSubst t).apply ((t.instantiate o e.args).apply ty) =
      (t.instantiate o e'.args).apply ty := by
  have seen := (normal_instantiate (t := t) (d := o) follows.normal).rebuild ty
  rw [Subst.apply_eq_rebuild hty, Subst.apply_eq_rebuild hty, Subst.apply_eq_rebuild seen,
    follows.rebuild o ho ty hty inScope, h.rebuild_groundSubst length plain]

/-- The function type of a target is the declaration of its method, instantiated where the target is
viewed as the class that declares it. -/
theorem functionType_eq_instantiate (ws : t.WellScoped) (normal : t.Normal) {config : Config}
    {cache cache' : CandidateCache} (fresh : cache.Fresh t) {c : ClassId} {args : List Ty}
    (length : args.length = (t.typeParamsOf c).length)
    (hargs : ∀ a ∈ args, a.Normal ∧ a.isWildcard = false) {m : TargetMethod}
    (h : (t.resolve config cache (.cls c args)).Gives (.ok (.method m), cache')) :
    ∃ b, (t.view (.cls c args) m.signature.owner).Gives (some (.cls m.signature.owner b)) ∧
      ∃ o, t.class? m.signature.owner = some o ∧ ∃ decl ∈ o.methods,
        decl.kind = .abstract ∧ decl.name = m.signature.name ∧
          m.parameterTypes t = decl.params.map (t.instantiate o b).apply ∧
          m.returnType t = (t.instantiate o b).apply decl.returnType := by
  obtain ⟨d, target⟩ := implements_of_resolve fresh h
  rw [typeParamsOf, target.declared] at length
  obtain ⟨e, he, o, ho, decl, hdecl, isAbstract, notGeneric, sig⟩ := exists_declaration target
  obtain ⟨e', he', follows⟩ := exists_follows ws normal target.declared length
    (fun a ha => (hargs a ha).1) he
  -- Only here is it used that the method is not generic: its types mention no parameter of its own.
  have sees (ty : Ty) (hty : ty ∈ decl.types) :
      (m.groundSubst t).apply ((t.instantiate o e.args).apply ty) =
        (t.instantiate o e'.args).apply ty := by
    have hm := mem_classes_of_class? ho
    have inScope := ws.methods o hm decl hdecl ty hty
    rw [notGeneric, List.append_nil] at inScope
    exact follows.apply_groundSubst target length (fun a ha => (hargs a ha).2) ho
      (normal.methods o hm decl hdecl ty hty) inScope
  have view := gives_view_of_classView? (classView?_of_mem he')
  rw [ClassTy.toTy, ClassTy.toTy, follows.head] at view
  rw [TargetMethod.parameterTypes, TargetMethod.returnType, sig]
  refine ⟨e'.args, view, o, ho, decl, hdecl, isAbstract, rfl, ?_, ?_⟩
  · show (decl.params.map _).map _ = _
    rw [List.map_map]
    exact List.map_congr_left fun ty hty => sees ty (List.mem_cons_of_mem _ hty)
  · exact sees decl.returnType List.mem_cons_self

/-- The method of the platform's `UnaryOperator<String>`, which `Function` declares. -/
def unaryOperatorMethod : TargetMethod where
  cls := ⟨25⟩
  signature := ⟨⟨23⟩, "apply", [.var ⟨15⟩], [], .var ⟨15⟩⟩
  subst := .ofList [(⟨15⟩, .cls ⟨1⟩ [])]

/-- The function type of `UnaryOperator<String>` is that of `Function` where the target is viewed as
it. -/
theorem functionType_eq_instantiate_unaryOperator :
    platform.WellScoped ∧ platform.Normal ∧ CandidateCache.empty.Fresh platform ∧
      ∃ cache', (platform.resolve .default .empty (.cls ⟨25⟩ [.cls ⟨1⟩ []])).Gives
        (.ok (.method unaryOperatorMethod), cache') ∧
      ∃ b, (platform.view (.cls ⟨25⟩ [.cls ⟨1⟩ []]) ⟨23⟩).Gives (some (.cls ⟨23⟩ b)) ∧
        ∃ o, platform.class? ⟨23⟩ = some o ∧ ∃ decl ∈ o.methods,
          decl.kind = .abstract ∧ decl.name = "apply" ∧
            unaryOperatorMethod.parameterTypes platform =
              decl.params.map (platform.instantiate o b).apply ∧
            unaryOperatorMethod.returnType platform =
              (platform.instantiate o b).apply decl.returnType := by
  have ws : platform.WellScoped := by decide +kernel
  have normal : platform.Normal := by decide +kernel
  have fresh := CandidateCache.fresh_empty platform
  have plain : ∀ a ∈ [Ty.cls ⟨1⟩ []], a.Normal ∧ a.isWildcard = false := by decide
  have resolved : (platform.resolve .default .empty (.cls ⟨25⟩ [.cls ⟨1⟩ []])).Gives
      (.ok (.method unaryOperatorMethod),
        CandidateCache.empty.insert ⟨25⟩ (some [unaryOperatorMethod.signature])) :=
    ⟨2, [.targetResolved "UnaryOperator<String>" "apply"], by cbv⟩
  exact ⟨ws, normal, fresh, _, resolved,
    functionType_eq_instantiate ws normal fresh rfl plain resolved⟩

end ClassTable

end LambdaTyping
