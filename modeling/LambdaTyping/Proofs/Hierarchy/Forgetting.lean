import LambdaTyping.Proofs.Hierarchy.Reachability
import LambdaTyping.Proofs.Type.Forgetting

/-!
# Hierarchies with forgotten type arguments

Above a class type of which some parts are forgotten stand the same classes, with some parts
forgotten (`forall₂_classClosure`), as long as the declared supertypes take their type parameters as
type arguments only.
-/

namespace LambdaTyping

namespace Subst

variable {s s' : Subst} {keeps : Ty → Ty → Prop}

/-- Two substitutions that put in more and less at the same places. -/
lemma forgets_ofList_zip {vs : List TypeVarId} {xs ys : List Ty}
    (h : List.Forall₂ (Ty.Forgets keeps) xs ys) (enough : vs.length ≤ xs.length) (v : TypeVarId) :
    ((ofList (vs.zip xs)).rebuild (.var v)).Forgets keeps
      ((ofList (vs.zip ys)).rebuild (.var v)) := by
  have length := h.length_eq
  have left : (vs.zip (xs.zip ys)).map (fun q => (q.1, q.2.1)) = vs.zip xs :=
    List.zip_map_right.symm.trans (congrArg _ (List.map_fst_zip (by omega)))
  have right : (vs.zip (xs.zip ys)).map (fun q => (q.1, q.2.2)) = vs.zip ys :=
    List.zip_map_right.symm.trans (congrArg _ (List.map_snd_zip (by omega)))
  by_cases mem : v ∈ vs
  · have pair : v ∈ (vs.zip (xs.zip ys)).map Prod.fst := by
      rwa [List.map_fst_zip (by simp; omega)]
    obtain ⟨q, hq, first, second⟩ := exists_get?_ofList_pair pair
    rw [left] at first
    rw [right] at second
    rw [rebuild_var_of_some first, rebuild_var_of_some second]
    exact List.forall₂_zip h (List.of_mem_zip hq).2
  · rw [rebuild_var_of_none (get?_ofList_eq_none _), rebuild_var_of_none (get?_ofList_eq_none _)]
    · exact .same _
    · rwa [List.map_fst_zip (by omega)]
    · rwa [List.map_fst_zip (by omega)]

/-- Substitutions that forget at each type variable forget in each type that takes its variables
steadily. -/
lemma forgets_apply (lenient : Ty.Lenient keeps) {a : Ty} (empty : s'.isEmpty = s.isEmpty)
    (h : ∀ v, (s.rebuild (.var v)).Forgets keeps (s'.rebuild (.var v)))
    (steady : a.Everywhere fun x => x.isSteady = true) :
    (s.apply a).Forgets keeps (s'.apply a) := by
  rw [apply, apply, empty]
  split
  · exact .same a
  · exact Ty.forgets_rebuild lenient h steady

end Subst

namespace ClassTable

variable {t : ClassTable} {keeps : Ty → Ty → Prop}

/-- The declared supertypes are class types that take their type parameters as type arguments only,
at any depth. -/
structure Steady (t : ClassTable) : Prop where
  isClass : ∀ d ∈ t.classes, ∀ s ∈ d.supertypes, s.asClass?.isSome = true
  parts : ∀ d ∈ t.classes, ∀ s ∈ d.supertypes, s.Everywhere fun x => x.isSteady = true

instance : Decidable t.Steady :=
  decidable_of_iff
    ((∀ d ∈ t.classes, ∀ s ∈ d.supertypes, s.asClass?.isSome = true) ∧
      ∀ d ∈ t.classes, ∀ s ∈ d.supertypes, s.Everywhere fun x => x.isSteady = true)
    ⟨fun ⟨a, b⟩ => ⟨a, b⟩, fun ⟨a, b⟩ => ⟨a, b⟩⟩

section Instantiate

variable {d : ClassDecl} {args args' : List Ty} (h : List.Forall₂ (Ty.Forgets keeps) args args')

include h

/-- Forgetting in the arguments makes no use raw and no raw use parameterised. -/
lemma isRawUse_forget : d.isRawUse args' = d.isRawUse args := by
  cases h with
  | nil => rfl
  | cons => rfl

/-- Forgetting in the arguments forgets in the instantiation at each type variable. -/
lemma forgets_instantiate (v : TypeVarId) :
    ((t.instantiate d args).rebuild (.var v)).Forgets keeps
      ((t.instantiate d args').rebuild (.var v)) := by
  rw [instantiate, instantiate, isRawUse_forget h]
  split
  · exact .same _
  · refine Subst.forgets_ofList_zip ?_ (by simp) v
    exact List.rel_append h (Ty.forall₂_forgets_self _)

/-- Forgetting in the arguments does not empty an instantiation. -/
lemma isEmpty_instantiate_forget :
    (t.instantiate d args').isEmpty = (t.instantiate d args).isEmpty := by
  rw [instantiate, instantiate, isRawUse_forget h]
  split
  · rfl
  · rw [Subst.isEmpty_ofList, Subst.isEmpty_ofList, Bool.eq_iff_iff, List.isEmpty_iff,
      List.isEmpty_iff, ← List.length_eq_zero_iff, ← List.length_eq_zero_iff, List.length_zip,
      List.length_zip, List.length_append, List.length_append, h.length_eq]

end Instantiate

section Walk

/-- The class types have one class, and the arguments of the second are those of the first with some
parts forgotten. -/
def ForgetsArgs (keeps : Ty → Ty → Prop) (c c' : ClassTy) : Prop :=
  c'.head = c.head ∧ List.Forall₂ (Ty.Forgets keeps) c.args c'.args

variable (steady : t.Steady) (lenient : Ty.Lenient keeps)

include steady lenient

/-- The declared parents for forgotten arguments are those for the arguments with parts
forgotten. -/
lemma forall₂_declaredParents {d : ClassDecl} {args args' : List Ty} (hd : d ∈ t.classes)
    (h : List.Forall₂ (Ty.Forgets keeps) args args') :
    List.Forall₂ (ForgetsArgs keeps) (t.declaredParents d args) (t.declaredParents d args') := by
  rw [declaredParents, declaredParents, isRawUse_forget h]
  split
  · exact List.forall₂_same.2 fun c _ => ⟨rfl, Ty.forall₂_forgets_self _⟩
  · -- A supertype is a class type before anything is put in, so none is lost and none is gained.
    refine List.rel_filterMap (R := fun s s' => s = s' ∧ s ∈ d.supertypes) ?_
      (List.forall₂_same.2 fun s hs => ⟨rfl, hs⟩)
    rintro s _ ⟨rfl, hs⟩
    obtain ⟨⟨c, as⟩, rfl⟩ := Ty.exists_eq_toTy (steady.isClass d hd s hs)
    have seen : ((t.instantiate d args).apply (.cls c as)).Forgets keeps
        ((t.instantiate d args').apply (.cls c as)) :=
      Subst.forgets_apply lenient (isEmpty_instantiate_forget h) (forgets_instantiate h)
        (steady.parts d hd _ hs)
    dsimp only [ClassTy.toTy]
    rw [Subst.apply_cls, Subst.apply_cls] at seen ⊢
    cases seen.outline with
    | cls each => exact .some ⟨rfl, each⟩

/-- The parents of a class type with forgotten parts are its parents with parts forgotten. -/
lemma forall₂_parents {c c' : ClassTy} (h : ForgetsArgs keeps c c') :
    List.Forall₂ (ForgetsArgs keeps) (t.parents c) (t.parents c') := by
  rw [parents, parents, h.1]
  cases hd : t.class? c.head with
  | none => exact .nil
  | some d =>
    apply List.rel_append
    · exact forall₂_declaredParents steady lenient (mem_classes_of_class? hd) h.2
    · exact List.forall₂_same.2 fun e _ => ⟨rfl, Ty.forall₂_forgets_self _⟩

/-- The walk up meets the same classes, with some parts forgotten. -/
lemma forall₂_classClosure {c c' : ClassTy} (h : ForgetsArgs keeps c c') :
    List.Forall₂ (ForgetsArgs keeps) (t.classClosure c) (t.classClosure c') :=
  closureFrom_rel (fun _ _ h => h.1) (fun _ _ => forall₂_parents steady lenient) (.cons h .nil)

/-- A class type of which parts are forgotten has the views it had, with some parts forgotten. -/
lemma exists_classView?_forget {c c' e : ClassTy} {target : ClassId}
    (h : ForgetsArgs keeps c c') (view : t.classView? c target = some e) :
    ∃ e', t.classView? c' target = some e' ∧ ForgetsArgs keeps e e' := by
  obtain ⟨mem, rfl⟩ := mem_of_classView? view
  obtain ⟨e', mem', forgets⟩ := Ty.exists_mem_of_forall₂_left
    (forall₂_classClosure steady lenient h) mem
  refine ⟨e', ?_, forgets⟩
  rw [← forgets.1]
  exact classView?_of_mem mem'

end Walk

end ClassTable

end LambdaTyping
