import LambdaTyping.Proofs.Hierarchy.Reachability

/-!
# Tables with reordered interfaces

Two tables that differ in the order in which declarations list their interfaces. Erasures and
instantiations are the same in both, and so is what stands above a class type (`reaches_iff`),
though a walk may meet it in another order.
-/

namespace LambdaTyping

/-- The declarations differ at most in the order of the interfaces. -/
structure ClassDecl.Reordered (d d' : ClassDecl) : Prop where
  perm : d'.interfaces.Perm d.interfaces
  rest : d' = { d with interfaces := d'.interfaces }

namespace ClassTable

/-- The tables differ at most in the order in which declarations list their interfaces. -/
structure Reordered (t t' : ClassTable) : Prop where
  classes : ∀ c, Option.Rel ClassDecl.Reordered (t.class? c) (t'.class? c)
  params : t'.params = t.params
  index : t'.index = t.index
  wellKnown : t'.wellKnown = t.wellKnown

end ClassTable

namespace ClassDecl.Reordered

variable {d d' : ClassDecl} (h : d.Reordered d')

include h

/-- Reordering interfaces is symmetric. -/
lemma symm : d'.Reordered d :=
  ⟨h.perm.symm, by rw [h.rest]⟩

/-- Reordered declarations have the same type parameters. -/
lemma typeParams : d'.typeParams = d.typeParams := by rw [h.rest]

/-- Reordered declarations have the same methods. -/
lemma methods : d'.methods = d.methods := by rw [h.rest]

/-- Reordered declarations are of one kind. -/
lemma kind : d'.kind = d.kind := by rw [h.rest]

/-- Reordered declarations are interfaces together. -/
lemma isInterface : d'.isInterface = d.isInterface := by
  rw [h.rest]
  rfl

/-- Reordered declarations have the same raw uses. -/
lemma isRawUse (args : List Ty) : d'.isRawUse args = d.isRawUse args := by
  rw [h.rest]
  rfl

/-- The supertypes of reordered declarations are permutations of each other. -/
lemma supertypes : d'.supertypes.Perm d.supertypes := by
  rw [ClassDecl.supertypes, ClassDecl.supertypes, h.rest]
  exact h.perm.append_left _

end ClassDecl.Reordered

namespace ClassTable.Reordered

variable {t t' : ClassTable} (h : t.Reordered t')

include h

/-- Tables that differ in the order of interfaces do so either way round. -/
lemma symm : t'.Reordered t where
  classes c := by
    have rel := h.classes c
    generalize t.class? c = d at rel ⊢
    generalize t'.class? c = d' at rel ⊢
    cases rel with
    | some same => exact .some same.symm
    | none => exact .none
  params := h.params.symm
  index := h.index.symm
  wellKnown := h.wellKnown.symm

/-- A class of one table is, up to the order of its interfaces, a class of the other. -/
lemma class?_eq_some {c : ClassId} {d : ClassDecl} (hd : t.class? c = some d) :
    ∃ d', t'.class? c = some d' ∧ d.Reordered d' := by
  have rel := h.classes c
  rw [hd] at rel
  generalize t'.class? c = found at rel ⊢
  cases rel with
  | some same => exact ⟨_, rfl, same⟩

/-- A class that one table lacks is missing in the other too. -/
lemma class?_eq_none {c : ClassId} (hc : t.class? c = none) : t'.class? c = none := by
  have rel := h.classes c
  rw [hc] at rel
  generalize t'.class? c = found at rel ⊢
  cases rel with
  | none => rfl

section Erasure

/-- Reordered tables agree on first bounds. -/
lemma firstBound? (v : TypeVarId) : t'.firstBound? v = t.firstBound? v := by
  simp only [ClassTable.firstBound?, upperBounds, param?, h.params]

/-- Reordered tables have one root class. -/
lemma objectType : t'.objectType = t.objectType := by
  simp only [ClassTable.objectType, h.wellKnown]

/-- Reordered tables erase alike past any type variables seen. -/
lemma eraseFrom (seen : List TypeVarId) (ty : Ty) : t'.eraseFrom seen ty = t.eraseFrom seen ty := by
  fun_induction ClassTable.eraseFrom t seen ty with
  | case2 seen e ih => rw [ClassTable.eraseFrom, ih]
  | case3 seen v met => rw [ClassTable.eraseFrom, if_pos met, h.objectType]
  | case4 seen v fresh b hb ih =>
    rw [eraseFrom_of_bound fresh ((h.firstBound? v).trans hb), ih]
  | case5 seen v fresh unbounded =>
    rw [eraseFrom_of_unbounded fresh ((h.firstBound? v).trans unbounded), h.objectType]
  | case7 seen m ms ih => rw [ClassTable.eraseFrom, ih]
  | case8 seen b ih => rw [ClassTable.eraseFrom, ih]
  | _ => simp [ClassTable.eraseFrom, h.objectType]

/-- Erasures do not depend on the order of interfaces. -/
lemma erasure (ty : Ty) : t'.erasure ty = t.erasure ty :=
  h.eraseFrom [] ty

/-- Instantiations of reordered declarations are equal. -/
lemma instantiate {d d' : ClassDecl} (same : d.Reordered d') (args : List Ty) :
    t'.instantiate d' args = t.instantiate d args := by
  simp only [ClassTable.instantiate, same.isRawUse, same.typeParams, h.erasure]

end Erasure

section Hierarchy

/-- A class type has the same parents in both tables, up to their order. -/
lemma parents_perm (c : ClassTy) : (t'.parents c).Perm (t.parents c) := by
  cases hd : t.class? c.head with
  | none => rw [parents_of_undeclared hd, parents_of_undeclared (h.class?_eq_none hd)]
  | some d =>
    obtain ⟨d', hd', same⟩ := h.class?_eq_some hd
    have declared : (t'.declaredParents d' c.args).Perm (t.declaredParents d c.args) := by
      rw [declaredParents, declaredParents, h.instantiate same, same.isRawUse]
      split
      · exact same.supertypes.filterMap _
      · exact same.supertypes.filterMap _
    simp only [parents, hd, hd', same.isInterface, h.wellKnown]
    exact declared.append_right _

/-- What is reached by steps up one table is reached in the other. -/
lemma reaches {c e : ClassTy} (reach : t.Reaches c e) : t'.Reaches c e :=
  Relation.ReflTransGen.mono (fun c _ hp => (h.parents_perm c).mem_iff.2 hp) _ _ reach

/-- Reaching does not depend on the order of interfaces. -/
lemma reaches_iff {c e : ClassTy} : t'.Reaches c e ↔ t.Reaches c e :=
  ⟨h.symm.reaches, h.reaches⟩

/-- Where the supertypes of one table are class types, those of the other are. -/
lemma isClass (isClass : ∀ d ∈ t.classes, ∀ s ∈ d.supertypes, s.asClass?.isSome = true) :
    ∀ d' ∈ t'.classes, ∀ s ∈ d'.supertypes, s.asClass?.isSome = true := by
  intro d' hd' s hs
  obtain ⟨i, size, rfl⟩ := Array.mem_iff_getElem.1 hd'
  obtain ⟨d, hd, same⟩ := h.symm.class?_eq_some (c := ⟨i⟩) (Array.getElem?_eq_getElem size)
  exact isClass d (mem_classes_of_class? hd) s (same.supertypes.mem_iff.2 hs)

/-- The order of classes in the hierarchy does not depend on that of interfaces. -/
lemma properlyBelow_iff
    (isClass : ∀ d ∈ t.classes, ∀ s ∈ d.supertypes, s.asClass?.isSome = true) {sub sup : ClassId} :
    t'.ProperlyBelow sub sup ↔ t.ProperlyBelow sub sup := by
  simp only [properlyBelow_iff_reaches isClass, properlyBelow_iff_reaches (h.isClass isClass),
    h.reaches_iff]

/-- A class type that inherits each class once in one table does so in the other. -/
lemma inheritsOnce {c : ClassTy} (once : t.InheritsOnce c) : t'.InheritsOnce c :=
  fun e e' reach reach' => once e e' (h.symm.reaches reach) (h.symm.reaches reach')

end Hierarchy

end ClassTable.Reordered

end LambdaTyping
