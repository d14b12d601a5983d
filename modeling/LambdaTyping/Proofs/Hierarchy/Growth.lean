import LambdaTyping.Hierarchy.Closure
import LambdaTyping.Proofs.Hierarchy.Closure
import LambdaTyping.Proofs.Table.Growth
import LambdaTyping.Type.Display

/-!
# Hierarchies of tables that grow

Types over a table are displayed, erased and instantiated alike in all tables that extend it, and
the same class types stand above them. Erasures, instantiations and the walk up do not lead out of a
table that is closed.
-/

namespace LambdaTyping.ClassTable

variable {s t : ClassTable} {c : ClassId} {v : TypeVarId} {d : ClassDecl} {ty : Ty}

section Lookup

/-- A type parameter that the first table holds has the same upper bounds in both. -/
lemma Extends.upperBounds (ext : s.Extends t) (hv : (s.param? v).isSome = true) :
    t.upperBounds v = s.upperBounds v := by
  rw [ClassTable.upperBounds, ClassTable.upperBounds, ext.params v hv]

/-- A type parameter that the first table holds has the same first bound in both. -/
lemma Extends.firstBound? (ext : s.Extends t) (hv : (s.param? v).isSome = true) :
    t.firstBound? v = s.firstBound? v := by
  rw [ClassTable.firstBound?, ClassTable.firstBound?, ext.upperBounds hv]

/-- A type parameter that the first table holds has the same lower bound in both. -/
lemma Extends.lowerBound? (ext : s.Extends t) (hv : (s.param? v).isSome = true) :
    t.lowerBound? v = s.lowerBound? v := by
  rw [ClassTable.lowerBound?, ClassTable.lowerBound?, ext.params v hv]

/-- Both tables have one root class. -/
lemma Extends.objectType (ext : s.Extends t) : t.objectType = s.objectType := by
  rw [ClassTable.objectType, ClassTable.objectType, ext.wellKnown]

/-- The types that are the root class are the same in both tables. -/
lemma Extends.isObject (ext : s.Extends t) (ty : Ty) : t.isObject ty = s.isObject ty := by
  unfold ClassTable.isObject
  rw [ext.wellKnown]

/-- The classes above all arrays are the same in both tables. -/
lemma Extends.isArraySuperclass (ext : s.Extends t) (c : ClassId) :
    t.isArraySuperclass c = s.isArraySuperclass c := by
  rw [ClassTable.isArraySuperclass, ClassTable.isArraySuperclass, ext.wellKnown]

/-- The upper bounds of a type parameter do not lead out of a closed table. -/
lemma Closed.over_upperBounds (closed : s.Closed) (v : TypeVarId) :
    ∀ b ∈ s.upperBounds v, b.Over s := by
  intro b hb
  unfold ClassTable.upperBounds at hb
  split at hb
  · rename_i p hp
    exact closed.upperBounds p (Array.mem_of_getElem? hp) b hb
  · cases hb

/-- The first bound of a type parameter does not lead out of a closed table. -/
lemma Closed.over_firstBound (closed : s.Closed) {b : Ty} (h : s.firstBound? v = some b) :
    b.Over s :=
  closed.over_upperBounds v b (List.mem_of_mem_head? h)

/-- The lower bound of a type parameter does not lead out of a closed table. -/
lemma Closed.over_lowerBound (closed : s.Closed) {b : Ty} (h : s.lowerBound? v = some b) :
    b.Over s := by
  obtain ⟨p, hp, hb⟩ := Option.bind_eq_some_iff.1 h
  exact closed.lowerBounds p (Array.mem_of_getElem? hp) b hb

/-- The root class of a self-contained table is one of its own. -/
lemma SelfContained.over_objectType (self : s.SelfContained) : s.objectType.Over s :=
  Ty.over_cls.2 ⟨self.object, List.forall_mem_nil _⟩

end Lookup

section Display

variable (ext : s.Extends t)

include ext

/-- A class that the first table holds is shown under the same name in both. -/
lemma Extends.className (hc : s.declares c = true) : t.className c = s.className c := by
  rw [ClassTable.className, ClassTable.className, ext.classes c hc]

/-- A type parameter that the first table holds is shown under the same name in both. -/
lemma Extends.paramName (hv : (s.param? v).isSome = true) : t.paramName v = s.paramName v := by
  rw [ClassTable.paramName, ClassTable.paramName, ext.params v hv]

omit ext in
/-- Types that two tables show alike are shown alike in a list. -/
lemma displayRest_congr {separator : String} {as : List Ty}
    (h : ∀ a ∈ as, t.display a = s.display a) :
    t.displayRest separator as = s.displayRest separator as := by
  induction as with
  | nil => rfl
  | cons a as ih =>
    obtain ⟨ha, has⟩ := List.forall_mem_cons.1 h
    rw [displayRest, displayRest, ha, ih has]

/-- A type over the first table is shown alike in both. -/
lemma Extends.display (h : ty.Over s) : t.display ty = s.display ty := by
  induction ty using Ty.rec_members with
  | var v => exact ext.paramName (Ty.over_var.1 h)
  | array e ih => rw [ClassTable.display, ClassTable.display, ih (Ty.over_array.1 h)]
  | wildExtends b ih => rw [ClassTable.display, ClassTable.display, ih (Ty.over_wildExtends.1 h)]
  | wildSuper b ih => rw [ClassTable.display, ClassTable.display, ih (Ty.over_wildSuper.1 h)]
  | cls c args ih =>
    obtain ⟨hc, hargs⟩ := Ty.over_cls.1 h
    cases args with
    | nil => exact ext.className hc
    | cons a as =>
      obtain ⟨first, rest⟩ := List.forall_mem_cons.1 fun x hx => ih x hx (hargs x hx)
      rw [ClassTable.display, ClassTable.display, ext.className hc, first, displayRest_congr rest]
  | inter ms ih =>
    cases ms with
    | nil => rfl
    | cons m ms =>
      obtain ⟨first, rest⟩ := List.forall_mem_cons.1 fun x hx => ih x hx (Ty.over_inter.1 h x hx)
      rw [ClassTable.display, ClassTable.display, first, displayRest_congr rest]
  | _ => rfl

end Display

section Erasure

/-- Erasing does not lead out of a self-contained table, by induction along the erasure. -/
lemma SelfContained.over_eraseFrom (self : s.SelfContained) (seen : List TypeVarId)
    (h : ty.Over s) : (s.eraseFrom seen ty).Over s := by
  fun_induction eraseFrom s seen ty with
  | case1 seen c args => exact Ty.over_cls.2 ⟨(Ty.over_cls.1 h).1, List.forall_mem_nil _⟩
  | case2 seen e ih => exact Ty.over_array.2 (ih (Ty.over_array.1 h))
  | case4 seen w fresh b hb ih => exact ih (self.over_firstBound hb)
  | case7 seen m ms ih => exact ih (Ty.over_inter.1 h m List.mem_cons_self)
  | case8 seen b ih => exact ih (Ty.over_wildExtends.1 h)
  | case3 | case5 | case6 | case9 | case10 => exact self.over_objectType
  | _ => exact h

/-- The erasure of a type variable does not lead out of a self-contained table. -/
lemma SelfContained.over_erasure_var (self : s.SelfContained) (v : TypeVarId) :
    (s.erasure (.var v)).Over s := by
  rw [erasure, eraseFrom, if_neg List.not_mem_nil]
  split
  · rename_i b hb
    exact self.over_eraseFrom _ (self.over_firstBound hb)
  · exact self.over_objectType

section Variables

variable {seen : List TypeVarId} {b : Ty}

/-- A cycle of bounds is looked for beyond a fresh type variable from its first bound on. -/
lemma boundCycle?_of_bound (fresh : v ∉ seen) (hb : t.firstBound? v = some b) :
    t.boundCycle? seen (.var v) = t.boundCycle? (v :: seen) b := by
  rw [boundCycle?, if_neg fresh]
  split
  · rename_i b' hb'
    rw [Option.some_inj.1 (hb'.symm.trans hb)]
  · rename_i none
    cases none.symm.trans hb

/-- No cycle of bounds goes through a type variable without bounds. -/
lemma boundCycle?_of_unbounded (fresh : v ∉ seen) (none : t.firstBound? v = none) :
    t.boundCycle? seen (.var v) = Option.none := by
  rw [boundCycle?, if_neg fresh]
  split
  · rename_i b' hb'
    cases none.symm.trans hb'
  · rfl

end Variables

variable (closed : s.Closed) (ext : s.Extends t)

include closed ext

/-- Both follow the leftmost bounds, so one induction serves. -/
lemma Extends.eraseFrom (seen : List TypeVarId) (h : ty.Over s) :
    t.eraseFrom seen ty = s.eraseFrom seen ty ∧ t.boundCycle? seen ty = s.boundCycle? seen ty := by
  fun_induction ClassTable.eraseFrom s seen ty with
  | case2 seen e ih =>
    obtain ⟨erased, cycle⟩ := ih (Ty.over_array.1 h)
    rw [ClassTable.eraseFrom, boundCycle?, boundCycle?, erased, cycle]
    exact ⟨rfl, rfl⟩
  | case3 seen v met =>
    rw [ClassTable.eraseFrom, if_pos met, ext.objectType]
    exact ⟨rfl, by rw [boundCycle?, if_pos met, boundCycle?, if_pos met]⟩
  | case4 seen v fresh b hb ih =>
    have hb' := (ext.firstBound? (Ty.over_var.1 h)).trans hb
    rw [eraseFrom_of_bound fresh hb', boundCycle?_of_bound fresh hb', boundCycle?_of_bound fresh hb]
    exact ih (closed.over_firstBound hb)
  | case5 seen v fresh unbounded =>
    have unbounded' := (ext.firstBound? (Ty.over_var.1 h)).trans unbounded
    rw [eraseFrom_of_unbounded fresh unbounded', boundCycle?_of_unbounded fresh unbounded',
      boundCycle?_of_unbounded fresh unbounded, ext.objectType]
    exact ⟨rfl, rfl⟩
  | case7 seen m ms ih =>
    rw [ClassTable.eraseFrom, boundCycle?, boundCycle?]
    exact ih (Ty.over_inter.1 h m List.mem_cons_self)
  | case8 seen b ih =>
    rw [ClassTable.eraseFrom, boundCycle?, boundCycle?]
    exact ih (Ty.over_wildExtends.1 h)
  | _ => simp [ClassTable.eraseFrom, boundCycle?, ext.objectType]

/-- A type over the first table has the same erasure in both. -/
lemma Extends.erasure (h : ty.Over s) : t.erasure ty = s.erasure ty :=
  (ext.eraseFrom closed [] h).1

/-- The erasure of a type over the first table is traced alike in both. -/
lemma Extends.erasureEvents (h : ty.Over s) : t.erasureEvents ty = s.erasureEvents ty := by
  rw [ClassTable.erasureEvents, ClassTable.erasureEvents, (ext.eraseFrom closed [] h).2]

end Erasure

section Walk

variable {args : List Ty} {e : ClassTy}

/-- Instantiating a class with types over a self-contained table brings in no others. -/
lemma SelfContained.over_instantiate (self : s.SelfContained) (hargs : ∀ a ∈ args, a.Over s)
    {x : Ty} (h : (s.instantiate d args).get? v = some x) : x.Over s := by
  rcases get?_instantiate_cases h with rfl | rfl | mem
  · exact self.over_erasure_var v
  · exact Ty.over_unknown
  · exact hargs x mem

/-- The parents of a class type do not lead out of a self-contained table. -/
lemma SelfContained.over_of_mem_parents (self : s.SelfContained) {c : ClassTy} (hc : c.toTy.Over s)
    (he : e ∈ s.parents c) : e.toTy.Over s := by
  obtain ⟨-, hargs⟩ := Ty.over_cls.1 hc
  unfold parents at he
  split at he
  · cases he
  · rename_i d hd
    rcases List.mem_append.1 he with he | he
    · unfold declaredParents at he
      split at he
      · obtain ⟨ty, hty, he⟩ := List.mem_filterMap.1 he
        obtain ⟨b, hb, rfl⟩ := Option.map_eq_some_iff.1 he
        have held := self.supertypes d (mem_classes_of_class? hd) ty hty
        rw [Ty.eq_toTy_of_asClass? hb] at held
        exact Ty.over_cls.2 ⟨(Ty.over_cls.1 held).1, List.forall_mem_nil _⟩
      · obtain ⟨ty, hty, he⟩ := List.mem_filterMap.1 he
        have held := self.supertypes d (mem_classes_of_class? hd) ty hty
        rw [← Ty.eq_toTy_of_asClass? he]
        exact held.apply fun v x => self.over_instantiate hargs
    · split at he
      · obtain rfl := List.mem_singleton.1 he
        exact self.over_objectType
      · cases he

variable (self : s.SelfContained) (ext : s.Extends t)

include self

/-- The closure of a class type does not lead out of a self-contained table. -/
lemma SelfContained.over_of_mem_classClosure {c : ClassTy} (hc : c.toTy.Over s)
    (he : e ∈ s.classClosure c) : e.toTy.Over s :=
  of_mem_closureFrom (fun _ hc _ => self.over_of_mem_parents hc) (List.forall_mem_singleton.2 hc) he

/-- The closure of a type does not lead out of a self-contained table. -/
lemma SelfContained.over_of_mem_closure (h : ty.Over s) (he : e ∈ s.closure ty) :
    e.toTy.Over s := by
  cases ty with
  | cls c args => exact self.over_of_mem_classClosure (c := ⟨c, args⟩) h he
  | _ => cases he

include ext

/-- A class that the first table holds is instantiated alike in both. -/
lemma Extends.instantiate (hd : s.class? c = some d) (args : List Ty) :
    t.instantiate d args = s.instantiate d args := by
  have params := self.typeParams d (mem_classes_of_class? hd)
  have erased : d.typeParams.map (fun v => (v, t.erasure (.var v))) =
      d.typeParams.map fun v => (v, s.erasure (.var v)) :=
    List.map_congr_left fun v hv => by
      rw [ext.erasure self.toClosed (Ty.over_var.2 (params v hv))]
  rw [ClassTable.instantiate, ClassTable.instantiate, erased]

/-- The instantiation of a class that the first table holds is traced alike in both. -/
lemma Extends.instantiationEvents (hd : s.class? c = some d) (args : List Ty) :
    t.instantiationEvents d args = s.instantiationEvents d args := by
  have params := self.typeParams d (mem_classes_of_class? hd)
  have erased : d.typeParams.flatMap (fun v => t.erasureEvents (.var v)) =
      d.typeParams.flatMap fun v => s.erasureEvents (.var v) :=
    List.flatMap_congr fun v hv =>
      ext.erasureEvents self.toClosed (Ty.over_var.2 (params v hv))
  rw [ClassTable.instantiationEvents, ClassTable.instantiationEvents, erased]

/-- A class type over the first table has the same parents in both. -/
lemma Extends.parents {c : ClassTy} (hc : c.toTy.Over s) : t.parents c = s.parents c := by
  obtain ⟨declared, -⟩ := Ty.over_cls.1 hc
  rw [ClassTable.parents, ClassTable.parents, ext.classes c.head declared]
  cases hd : s.class? c.head with
  | none => rfl
  | some d =>
    simp only [declaredParents, ext.instantiate self hd, ext.wellKnown]

/-- A class type over the first table has the same closure in both. -/
lemma Extends.classClosure {c : ClassTy} (hc : c.toTy.Over s) :
    t.classClosure c = s.classClosure c :=
  closureFrom_congr (fun _ hc _ => self.over_of_mem_parents hc) (fun _ => ext.parents self)
    (List.forall_mem_singleton.2 hc)

/-- A class type over the first table is viewed as each class alike in both. -/
lemma Extends.classView? {c : ClassTy} (hc : c.toTy.Over s) (target : ClassId) :
    t.classView? c target = s.classView? c target := by
  rw [ClassTable.classView?, ClassTable.classView?, ext.classClosure self hc]

/-- A type over the first table has the same closure in both. -/
lemma Extends.closure (h : ty.Over s) : t.closure ty = s.closure ty := by
  cases ty with
  | cls c args => exact ext.classClosure self h
  | _ => rfl

/-- The closure of a type over the first table is traced alike in both. -/
lemma Extends.closureEvents (h : ty.Over s) : t.closureEvents ty = s.closureEvents ty := by
  rw [ClassTable.closureEvents, ClassTable.closureEvents, ext.closure self h]
  refine List.flatMap_congr fun e he => ?_
  rw [ext.classes e.head (Ty.over_cls.1 (self.over_of_mem_closure h he)).1]
  cases hd : s.class? e.head with
  | none => rfl
  | some d => exact ext.instantiationEvents self hd e.args

end Walk

end LambdaTyping.ClassTable
