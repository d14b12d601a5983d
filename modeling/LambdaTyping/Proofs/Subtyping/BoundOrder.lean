import LambdaTyping.Proofs.Hierarchy.Reachability
import LambdaTyping.Proofs.Subtyping.Derivation
import LambdaTyping.Table.Edit

/-!
# Tables with reordered bounds

Two tables that differ in the order in which type variables list their upper bounds. Erasures may
differ, but what stands above a class type is the same in both (`classClosure`), since raw uses stay
raw on the way up. Of the bounds of a variable one has to be below a type, no matter which, so
subtyping is the same relation (`below_iff`).
-/

namespace LambdaTyping.ClassTable

/-- The tables differ at most in the order in which these type variables list their upper bounds. -/
structure BoundsReordered (t : ClassTable) (vs : List TypeVarId) (t' : ClassTable) : Prop where
  classes : t'.classes = t.classes
  wellKnown : t'.wellKnown = t.wellKnown
  perm : ∀ v, (t'.upperBounds v).Perm (t.upperBounds v)
  rest : ∀ v, v ∉ vs → t'.upperBounds v = t.upperBounds v
  lowerBound? : ∀ v, t'.lowerBound? v = t.lowerBound? v

namespace BoundsReordered

variable {t t' : ClassTable} {vs : List TypeVarId}

variable (h : t.BoundsReordered vs t')

include h

/-- Reordering bounds goes either way round. -/
lemma symm : t'.BoundsReordered vs t where
  classes := h.classes.symm
  wellKnown := h.wellKnown.symm
  perm v := (h.perm v).symm
  rest v fresh := (h.rest v fresh).symm
  lowerBound? v := (h.lowerBound? v).symm

/-- Both tables have one root class. -/
lemma isObject : t'.isObject = t.isObject := by
  funext ty
  simp only [ClassTable.isObject, h.wellKnown]

/-- The classes above all arrays are the same in both tables. -/
lemma isArraySuperclass : t'.isArraySuperclass = t.isArraySuperclass := by
  funext c
  simp only [ClassTable.isArraySuperclass, h.wellKnown]

section Hierarchy

/-- Only raw uses see bounds, by erasure, and above raw uses there are no type arguments. -/
lemma parents : t'.parents = t.parents := by
  have declared (d : ClassDecl) (args : List Ty) :
      t'.declaredParents d args = t.declaredParents d args := by
    rw [declaredParents, declaredParents]
    split
    · rfl
    · rename_i full
      rw [instantiate, instantiate, if_neg full, if_neg full]
  funext c
  simp only [ClassTable.parents, class?, h.classes, h.wellKnown, declared]

/-- Class types are viewed alike in both tables. -/
lemma classView? : t'.classView? = t.classView? := by
  funext c target
  have walk : t'.classClosure c = t.classClosure c :=
    closureFrom_congr (P := fun _ => True) (fun _ _ _ _ => trivial)
      (fun c _ => congrFun h.parents c) fun _ _ => trivial
  rw [ClassTable.classView?, ClassTable.classView?, walk]

end Hierarchy

section Subtyping

variable {a b : Ty}

/-- Type arguments are compared alike in both tables. -/
lemma argumentGoal : t'.argumentGoal = t.argumentGoal := by
  funext a b
  unfold ClassTable.argumentGoal
  simp only [h.isObject]

/-- Class types are compared alike in both tables. -/
lemma classPlan : t'.classPlan = t.classPlan := by
  funext sub sup
  rw [ClassTable.classPlan, ClassTable.classPlan, h.classView?, h.argumentGoal]

/-- What a question asks for is the same in both tables, up to the order of the bounds to choose
from. -/
lemma holds_subtypePlan {P : Goal → Prop} (hp : (t.subtypePlan a b).Holds P) :
    (t'.subtypePlan a b).Holds P := by
  have lower : t'.lowerBound? = t.lowerBound? := funext h.lowerBound?
  unfold ClassTable.subtypePlan at hp ⊢
  rw [h.isObject, h.isArraySuperclass, h.argumentGoal, h.classPlan, lower]
  split
  · rename_i same
    rwa [if_pos same] at hp
  · rename_i differ
    rw [if_neg differ] at hp
    -- The bounds of a variable on the left are the only place where the tables differ.
    cases a with
    | var v =>
      cases b with
      | void | unknown | prim | inter => exact hp
      | _ =>
        dsimp only at hp ⊢
        have perm := h.perm v
        cases bounds : t.upperBounds v with
        | nil =>
          rw [bounds] at hp perm
          rwa [perm.eq_nil]
        | cons u us =>
          rw [bounds] at hp perm
          obtain ⟨g, hg, hp⟩ := hp
          have hg := (perm.map _).mem_iff.2 hg
          cases bounds' : t'.upperBounds v with
          | nil =>
            rw [bounds'] at hg
            cases hg
          | cons w ws => exact ⟨g, bounds' ▸ hg, hp⟩
    | _ =>
      cases b with
      | _ => exact hp

/-- What is below a type in one table is below it in the other, by induction on the derivation. -/
lemma below (hab : t.Below a b) : t'.Below a b := by
  refine below_induction (P := t'.Below) (fun a b goals => ?_) hab
  refine below_iff.2 (h.holds_subtypePlan (goals.imp fun g hg => ?_))
  cases g with
  | known holds => exact Goal.met_known_iff.2 (Goal.met_known_iff.1 hg.1)
  | subtype x y => exact hg.2 x y rfl

/-- Subtyping is the same relation in both tables. -/
lemma below_iff : t'.Below a b ↔ t.Below a b :=
  ⟨h.symm.below, h.below⟩

end Subtyping

end BoundsReordered

section Edit

variable {t : ClassTable} {v : TypeVarId} {bs : List Ty}

/-- Setting the bounds of one type parameter leaves all others as they are. -/
lemma param?_setUpperBounds (w : TypeVarId) :
    (t.setUpperBounds v bs).param? w =
      if w = v then (t.param? v).map fun p => { p with upperBounds := bs } else t.param? w := by
  cases hv : t.param? v with
  | none =>
    rw [setUpperBounds, modifyParam, hv]
    dsimp only
    split
    · rename_i same
      rw [same, hv, Option.map_none]
    · rfl
  | some p =>
    obtain ⟨i⟩ := v
    obtain ⟨j⟩ := w
    have bound : i < t.params.size := (Array.getElem?_eq_some_iff.1 hv).1
    rw [setUpperBounds, modifyParam, hv]
    by_cases same : i = j
    · subst same
      simp [param?, bound]
    · simp [param?, same, Ne.symm same]

variable (perm : bs.Perm (t.upperBounds v))

include perm

/-- The bounds set are the upper bounds then. -/
lemma upperBounds_setUpperBounds_self : (t.setUpperBounds v bs).upperBounds v = bs := by
  rw [upperBounds] at perm
  rw [upperBounds, param?_setUpperBounds, if_pos rfl]
  cases hv : t.param? v with
  | none =>
    rw [hv] at perm
    exact perm.eq_nil.symm
  | some p => rfl

/-- To put the bounds of a type variable in another order reorders the bounds of that variable. -/
lemma boundsReordered_setUpperBounds : t.BoundsReordered [v] (t.setUpperBounds v bs) where
  classes := by
    rw [setUpperBounds, modifyParam]
    split
    · rfl
    · rfl
  wellKnown := by
    rw [setUpperBounds, modifyParam]
    split
    · rfl
    · rfl
  perm w := by
    by_cases same : w = v
    · rwa [same, upperBounds_setUpperBounds_self perm]
    · rw [upperBounds, param?_setUpperBounds, if_neg same, upperBounds]
  rest w fresh := by
    rw [upperBounds, param?_setUpperBounds, if_neg (List.ne_of_not_mem_cons fresh), upperBounds]
  lowerBound? w := by
    rw [lowerBound?, param?_setUpperBounds, lowerBound?]
    split
    · rename_i same
      rw [same]
      cases t.param? v with
      | none => rfl
      | some p => rfl
    · rfl

end Edit

end LambdaTyping.ClassTable
