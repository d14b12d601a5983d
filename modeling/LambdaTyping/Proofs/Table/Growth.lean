import LambdaTyping.Proofs.Table.Indexing
import LambdaTyping.Proofs.Table.Scoping
import LambdaTyping.Proofs.Type.Subterms

/-!
# Tables that grow

A table grows by edits that leave alone what it holds: they name classes, declare those that are
named or numbered after it, and add and bound further type parameters. What the table holds, and
where its names lead, stays so in every table it grows to (`GrowsTo.extends`).

A table is closed if what it declares mentions only what it holds. In that case nothing that is
asked of it depends on what is declared later.
-/

namespace LambdaTyping

namespace ClassTable

/-- Whether the table holds the class or the type parameter that stands at the top of the type. -/
def holdsHead (s : ClassTable) : Ty → Bool
  | .cls c _ => s.declares c
  | .var v => (s.param? v).isSome
  | _ => true

end ClassTable

namespace Ty

/-- The type mentions only classes and type parameters that the table holds. -/
def Over (s : ClassTable) (ty : Ty) : Prop :=
  ty.Everywhere fun x => s.holdsHead x = true

instance (s : ClassTable) (ty : Ty) : Decidable (ty.Over s) :=
  inferInstanceAs (Decidable (ty.Everywhere _))

section Over

variable {s : ClassTable}

/-- An array type mentions what its element type mentions. -/
@[simp] lemma over_array {e : Ty} : (array e).Over s ↔ e.Over s := by
  simp [Over, ClassTable.holdsHead]

/-- An upper-bounded wildcard mentions what its bound mentions. -/
@[simp] lemma over_wildExtends {b : Ty} : (wildExtends b).Over s ↔ b.Over s := by
  simp [Over, ClassTable.holdsHead]

/-- A lower-bounded wildcard mentions what its bound mentions. -/
@[simp] lemma over_wildSuper {b : Ty} : (wildSuper b).Over s ↔ b.Over s := by
  simp [Over, ClassTable.holdsHead]

/-- A class type mentions its class and what its arguments mention. -/
@[simp] lemma over_cls {c : ClassId} {args : List Ty} :
    (cls c args).Over s ↔ s.declares c = true ∧ ∀ a ∈ args, a.Over s := by
  simp [Over, ClassTable.holdsHead]

/-- An intersection mentions what its members mention. -/
@[simp] lemma over_inter {ms : List Ty} : (inter ms).Over s ↔ ∀ m ∈ ms, m.Over s := by
  simp [Over, ClassTable.holdsHead]

/-- A type variable mentions itself only. -/
@[simp] lemma over_var {v : TypeVarId} : (var v).Over s ↔ (s.param? v).isSome = true :=
  ⟨fun h => h.here, fun held => everywhere_of_atom rfl held⟩

/-- A type without proper parts is over a table that holds what stands at its top. -/
lemma over_of_atom {ty : Ty} (h : ty.subterms = [ty]) (held : s.holdsHead ty = true) : ty.Over s :=
  everywhere_of_atom h held

/-- The unknown type mentions nothing. -/
@[simp] lemma over_unknown : unknown.Over s := over_of_atom rfl rfl

/-- The type `void` mentions nothing. -/
@[simp] lemma over_void : void.Over s := over_of_atom rfl rfl

/-- Intersecting types brings in nothing that they do not mention. -/
lemma over_intersection {ts : List Ty} (h : ∀ x ∈ ts, x.Over s) : (intersection ts).Over s :=
  intersection_of_forall over_unknown (fun _ => over_inter) h

/-- A substitution of types over the table makes such types. -/
lemma Over.rebuild {u : Subst} (hu : ∀ v x, u.get? v = some x → x.Over s) {ty : Ty}
    (h : ty.Over s) : (u.rebuild ty).Over s := by
  induction ty using rec_members with
  | var v =>
    cases hv : u.get? v with
    | none => rwa [Subst.rebuild_var_of_none hv]
    | some x =>
      rw [Subst.rebuild_var_of_some hv]
      exact hu v x hv
  | array e ih =>
    rw [Subst.rebuild_array]
    exact over_array.2 (ih (over_array.1 h))
  | wildExtends b ih =>
    rw [Subst.rebuild_wildExtends]
    exact over_wildExtends.2 (ih (over_wildExtends.1 h))
  | wildSuper b ih =>
    rw [Subst.rebuild_wildSuper]
    exact over_wildSuper.2 (ih (over_wildSuper.1 h))
  | cls c args ih =>
    obtain ⟨hc, hargs⟩ := over_cls.1 h
    rw [Subst.rebuild_cls]
    exact over_cls.2 ⟨hc, List.forall_mem_map.2 fun a ha => ih a ha (hargs a ha)⟩
  | inter ms ih =>
    rw [Subst.rebuild_inter]
    exact over_intersection (List.forall_mem_map.2 fun m hm => ih m hm (over_inter.1 h m hm))
  | _ => exact h

/-- A substitution by types over a table keeps types over it. -/
lemma Over.apply {u : Subst} (hu : ∀ v x, u.get? v = some x → x.Over s) {ty : Ty}
    (h : ty.Over s) : (u.apply ty).Over s := by
  unfold Subst.apply
  split
  · exact h
  · exact h.rebuild hu

end Over

end Ty

namespace ClassTable

/-- What the table declares mentions only classes and type parameters that it holds. -/
structure Closed (s : ClassTable) : Prop where
  typeParams : ∀ d ∈ s.classes, ∀ v ∈ d.typeParams, (s.param? v).isSome = true
  supertypes : ∀ d ∈ s.classes, ∀ x ∈ d.supertypes, x.Over s
  methods : ∀ d ∈ s.classes, ∀ m ∈ d.methods, ∀ x ∈ m.types, x.Over s
  upperBounds : ∀ p ∈ s.params, ∀ b ∈ p.upperBounds, b.Over s
  lowerBounds : ∀ p ∈ s.params, ∀ b ∈ p.lowerBound, b.Over s

instance (s : ClassTable) : Decidable s.Closed :=
  decidable_of_iff
    ((∀ d ∈ s.classes, ∀ v ∈ d.typeParams, (s.param? v).isSome = true) ∧
      (∀ d ∈ s.classes, ∀ x ∈ d.supertypes, x.Over s) ∧
      (∀ d ∈ s.classes, ∀ m ∈ d.methods, ∀ x ∈ m.types, x.Over s) ∧
      (∀ p ∈ s.params, ∀ b ∈ p.upperBounds, b.Over s) ∧
      ∀ p ∈ s.params, ∀ b ∈ p.lowerBound, b.Over s)
    ⟨fun ⟨a, b, c, d, e⟩ => ⟨a, b, c, d, e⟩, fun ⟨a, b, c, d, e⟩ => ⟨a, b, c, d, e⟩⟩

/-- The table holds all that its answers can come to depend on: it is closed, and it holds the root
class and the classes of the boxes. -/
structure SelfContained (s : ClassTable) : Prop extends s.Closed where
  object : s.declares s.wellKnown.object = true
  boxes : ∀ p : Primitive, ∃ c, s.classNamed? p.boxName = some c ∧ s.declares c = true

section Edited

variable {t t' : ClassTable} {c : ClassId} {d : ClassDecl}

/-- The second table has as many classes at least, and the same of them are well-known. -/
structure Retains (t t' : ClassTable) : Prop where
  size : t.classes.size ≤ t'.classes.size
  wellKnown : t'.wellKnown = t.wellKnown

namespace Retains

/-- A table retains its own classes. -/
lemma refl (t : ClassTable) : t.Retains t := ⟨Nat.le_refl _, rfl⟩

/-- Retaining is transitive. -/
lemma trans {u : ClassTable} (h : t.Retains u) (h' : u.Retains t') : t.Retains t' :=
  ⟨Nat.le_trans h.size h'.size, h'.wellKnown.trans h.wellKnown⟩

/-- A class that a table holds is held by every table that retains its classes. -/
lemma declares (h : t.Retains t') (hc : t.declares c = true) : t'.declares c = true := by
  have bound : c.raw < t.classes.size := by simpa [ClassTable.declares, class?] using hc
  simpa [ClassTable.declares, class?] using Nat.lt_of_lt_of_le bound h.size

/-- Naming a class drops none. -/
lemma intern (t : ClassTable) (name : String) : t.Retains (t.intern name).2 := by
  rw [ClassTable.intern]
  split
  · exact .refl t
  · exact ⟨by simp [allocate], rfl⟩

/-- Declaring a class drops none. -/
lemma define (t : ClassTable) (c : ClassId) (d : ClassDecl) :
    t.Retains ((t.define? c d).getD t) := by
  rw [define?]
  split
  · exact .refl t
  · exact ⟨by simp, rfl⟩

/-- Changing a declaration where it stands drops no class. -/
lemma modify (t : ClassTable) (c : ClassId) (change : ClassDecl → ClassDecl) :
    t.Retains ((t.modify? c change).getD t) := by
  rw [modify?]
  split
  · exact .refl t
  · exact ⟨by simp, rfl⟩

/-- Changing a type parameter drops no class. -/
lemma modifyParam (t : ClassTable) (v : TypeVarId) (change : TypeParam → TypeParam) :
    t.Retains (t.modifyParam v change) := by
  rw [ClassTable.modifyParam]
  split
  · exact .refl t
  · exact ⟨Nat.le_refl _, rfl⟩

/-- No edit drops a class or moves a well-known one. -/
lemma edit (t : ClassTable) (e : TableEdit) : t.Retains (t.edit e) := by
  cases e with
  | declare e =>
    cases e with
    | intern name => exact intern t name
    | define c d => exact define t c d
    | upsert d => exact (intern t d.name).trans (define _ _ d)
  | modify c change => exact modify t c change
  | addParam name bounds => exact ⟨Nat.le_refl _, rfl⟩
  | setUpperBounds v bounds => exact modifyParam t v _
  | setLowerBound v bound => exact modifyParam t v _

/-- No run of edits drops a class or moves a well-known one. -/
lemma editAll (t : ClassTable) (es : List TableEdit) : t.Retains (t.editAll es) := by
  induction es using List.reverseRecOn with
  | nil => exact .refl t
  | append_singleton es e ih =>
    rw [editAll_append]
    exact ih.trans (edit _ e)

end Retains

/-- The edits of a closed table have left in it all that its answers can come to depend on, if they
have left the names of the boxes in the index. -/
lemma selfContained_editAll {es : List TableEdit} (closed : (platform.editAll es).Closed)
    (boxes : ∀ p : Primitive, ((platform.editAll es).classNamed? p.boxName).isSome = true) :
    (platform.editAll es).SelfContained where
  toClosed := closed
  object := by
    have kept := Retains.editAll platform es
    rw [kept.wellKnown]
    exact kept.declares (by decide +kernel)
  boxes p := by
    obtain ⟨c, found⟩ := Option.isSome_iff_exists.1 (boxes p)
    exact ⟨c, found, indexClosed_editAll es _ c found⟩

end Edited

/-- An edit of a table `t`, to which the table `s` has grown, that leaves alone what `s` holds. -/
inductive Admits (s t : ClassTable) : TableEdit → Prop where
  | intern (name : String) : Admits s t (.declare (.intern name))
  | upsert {d : ClassDecl} : s.classNamed? d.name = none → Admits s t (.declare (.upsert d))
  | define {c : ClassId} {d : ClassDecl} : s.declares c = false →
      (∀ old, t.class? c = some old → old.name = d.name) → Admits s t (.declare (.define c d))
  | addParam (name : String) (bounds : List Ty) : Admits s t (.addParam name bounds)
  | setUpperBounds {v : TypeVarId} (bounds : List Ty) : s.param? v = none →
      Admits s t (.setUpperBounds v bounds)

/-- The table comes to be another one by edits that leave alone what it holds. -/
inductive GrowsTo (s : ClassTable) : ClassTable → Prop where
  | refl : s.GrowsTo s
  | edit {t : ClassTable} {e : TableEdit} : s.GrowsTo t → s.Admits t e → s.GrowsTo (t.edit e)

/-- The second table holds what the first holds, and the names of the first lead to the same classes
in it. -/
structure Extends (s t : ClassTable) : Prop where
  classes : ∀ c, s.declares c = true → t.class? c = s.class? c
  params : ∀ v, (s.param? v).isSome = true → t.param? v = s.param? v
  index : ∀ name, (s.classNamed? name).isSome = true → t.classNamed? name = s.classNamed? name
  wellKnown : t.wellKnown = s.wellKnown

/-- Besides, the names that are new to the second table lead to classes that are new as well, and
carry these names. -/
structure Grown (s t : ClassTable) : Prop extends s.Extends t where
  fresh : ∀ name c, s.classNamed? name = none → t.classNamed? name = some c →
    s.declares c = false ∧ ∃ d, t.class? c = some d ∧ d.name = name

variable {s t t' : ClassTable} {c : ClassId} {d old : ClassDecl}

/-- A table is grown from itself. -/
lemma Grown.refl (s : ClassTable) : s.Grown s where
  classes _ _ := rfl
  params _ _ := rfl
  index _ _ := rfl
  wellKnown := rfl
  fresh _ _ new known := by
    rw [new] at known
    cases known

/-- The first table holds no class that the second is only about to get. -/
lemma Extends.declares_eq_false (h : s.Extends t) (hc : t.class? c = none) :
    s.declares c = false := by
  by_contra declared
  have held := h.classes c (eq_true_of_ne_false declared)
  rw [hc] at held
  simp [declares, ← held] at declared

namespace Grown

/-- A grown table stays grown when it allocates a class under a name that is new to it. -/
lemma allocate (h : s.Grown t) (new : t.classNamed? d.name = none) : s.Grown (t.allocate d) where
  classes c hc := by
    rw [class?_allocate, if_neg, h.classes c hc]
    rintro rfl
    rw [h.declares_eq_false t.class?_nextClass] at hc
    cases hc
  params := h.params
  index name known := by
    rw [classNamed?_allocate, if_neg, h.index name known]
    rintro rfl
    rw [← h.index d.name known, new] at known
    cases known
  wellKnown := h.wellKnown
  fresh name c unknown found := by
    rw [classNamed?_allocate] at found
    rw [class?_allocate]
    split at found
    · rename_i this
      cases found
      exact ⟨h.declares_eq_false t.class?_nextClass, d, if_pos rfl, this.symm⟩
    · obtain ⟨later, d', hd, named⟩ := h.fresh name c unknown found
      refine ⟨later, d', ?_, named⟩
      rw [if_neg, hd]
      rintro rfl
      rw [class?_nextClass] at hd
      cases hd

/-- A grown table stays grown when it names a class. -/
lemma intern (h : s.Grown t) (name : String) : s.Grown (t.intern name).2 := by
  rw [ClassTable.intern]
  split
  · exact h
  · rename_i new
    exact h.allocate new

/-- A grown table stays grown when it declares a later class under the name that this class has. -/
lemma define (h : s.Grown t) (later : s.declares c = false) (hc : t.class? c = some old)
    (kept : old.name = d.name) (hd : t.define? c d = some t') : s.Grown t' where
  classes e he := by
    rw [class?_of_define? hd, if_neg, h.classes e he]
    rintro rfl
    rw [later] at he
    cases he
  params v hv := by
    simp only [define?, hc, Option.some.injEq] at hd
    subst hd
    exact h.params v hv
  index name known := by
    rw [classNamed?_of_define? hc hd, if_pos kept, h.index name known]
  wellKnown := by
    simp only [define?, hc, Option.some.injEq] at hd
    subst hd
    exact h.wellKnown
  fresh name e unknown found := by
    rw [classNamed?_of_define? hc hd, if_pos kept] at found
    rw [class?_of_define? hd]
    obtain ⟨later, d', he, named⟩ := h.fresh name e unknown found
    refine ⟨later, ?_⟩
    split
    · rename_i this
      subst this
      rw [hc] at he
      cases he
      exact ⟨d, rfl, kept.symm.trans named⟩
    · exact ⟨d', he, named⟩

/-- An upsert under a new name defines a class that is new as well, and has that name already. -/
lemma upsert (h : s.Grown t) (new : s.classNamed? d.name = none) : s.Grown (t.upsert d).2 := by
  have interned := h.intern d.name
  have found : (t.intern d.name).2.classNamed? d.name = some (t.intern d.name).1 := by
    rw [classNamed?_intern, if_pos rfl]
  obtain ⟨later, old, hc, named⟩ := interned.fresh d.name _ new found
  obtain ⟨t', hd⟩ := define?_of_class? hc d
  have upserted : (t.upsert d).2 = t' := by
    rw [ClassTable.upsert]
    simp only [hd, Option.getD_some]
  rw [upserted]
  exact interned.define later hc named hd

/-- A grown table stays grown when it adds a type parameter. -/
lemma addParam (h : s.Grown t) (name : String) (bounds : List Ty) :
    s.Grown (t.addParam name bounds).2 where
  classes := h.classes
  params v hv := by
    have held := h.params v hv
    have bound : v.raw < t.params.size := by
      rw [← held] at hv
      simpa [param?] using hv
    rw [← held]
    simp [param?, ClassTable.addParam, Array.getElem?_push, Nat.ne_of_lt bound]
  index := h.index
  wellKnown := h.wellKnown
  fresh := h.fresh

/-- A grown table stays grown when it changes a later type parameter. -/
lemma modifyParam (h : s.Grown t) {v : TypeVarId} (later : s.param? v = none)
    (change : TypeParam → TypeParam) : s.Grown (t.modifyParam v change) := by
  unfold ClassTable.modifyParam
  split
  · exact h
  · refine ⟨⟨h.classes, fun w hw => ?_, h.index, h.wellKnown⟩, h.fresh⟩
    have other : v.raw ≠ w.raw := by
      rintro same
      obtain rfl : v = w := congrArg TypeVarId.mk same
      rw [later] at hw
      cases hw
    rw [← h.params w hw]
    simp [param?, other]

/-- An admitted edit leaves alone what the table holds. -/
lemma edit (h : s.Grown t) {e : TableEdit} (admitted : s.Admits t e) : s.Grown (t.edit e) := by
  cases admitted with
  | intern name => exact h.intern name
  | upsert new => exact h.upsert new
  | @define c d later kept =>
    show s.Grown ((t.define? c d).getD t)
    cases hc : t.class? c with
    | none =>
      have ignored : t.define? c d = none := by rw [define?, hc]
      rwa [ignored]
    | some old =>
      obtain ⟨t', hd⟩ := define?_of_class? hc d
      rw [hd]
      exact h.define later hc (kept old hc) hd
  | addParam name bounds => exact h.addParam name bounds
  | setUpperBounds bounds later => exact h.modifyParam later _

end Grown

/-- What a table grows to by admitted edits is grown from it, by induction on the edits. -/
lemma GrowsTo.grown (h : s.GrowsTo t) : s.Grown t := by
  induction h with
  | refl => exact .refl s
  | edit _ admitted ih => exact ih.edit admitted

/-- What a table holds stays as it is in every table that it grows to. -/
theorem GrowsTo.extends (h : s.GrowsTo t) : s.Extends t :=
  h.grown.toExtends

end ClassTable

end LambdaTyping
