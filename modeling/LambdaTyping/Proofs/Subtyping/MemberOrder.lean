import LambdaTyping.Proofs.Subtyping.Tolerance

/-!
# The order of members

Two types may differ in the order in which the intersections in them list their members. Such types
are identical, each is below the other, and each includes the other as a type argument
(`agree_of_shuffled`). As a wildcard `? super` is compared the other way round, both directions are
proved at once.
-/

namespace LambdaTyping

namespace Ty

/-- The second type is the first with the members of its intersections, at any depth, in some order.
-/
inductive Shuffled : Ty → Ty → Prop
  | void : Shuffled .void .void
  | null : Shuffled .null .null
  | unknown : Shuffled .unknown .unknown
  | prim (p : Primitive) : Shuffled (.prim p) (.prim p)
  | var (v : TypeVarId) : Shuffled (.var v) (.var v)
  | wild : Shuffled .wild .wild
  | array {e e' : Ty} : Shuffled e e' → Shuffled (.array e) (.array e')
  | cls {c : ClassId} {as as' : List Ty} : List.Forall₂ Shuffled as as' →
      Shuffled (.cls c as) (.cls c as')
  | wildExtends {u u' : Ty} : Shuffled u u' → Shuffled (.wildExtends u) (.wildExtends u')
  | wildSuper {l l' : Ty} : Shuffled l l' → Shuffled (.wildSuper l) (.wildSuper l')
  | inter {ms ms' ns : List Ty} : List.Forall₂ Shuffled ms ms' → ms'.Perm ns →
      Shuffled (.inter ms) (.inter ns)

/-- The members of the intersections in the type are reference types. -/
def HasReferenceMembers (t : Ty) : Prop :=
  t.Everywhere fun s => s.isIntersection = true → ∀ m ∈ s.members, m.isReference = true

instance (t : Ty) : Decidable t.HasReferenceMembers :=
  inferInstanceAs (Decidable (t.Everywhere _))

section Shuffled

variable {a b : Ty}

/-- A type is shuffled into itself. -/
lemma shuffled_self (a : Ty) : a.Shuffled a := by
  induction a using rec_members with
  | void => exact .void
  | null => exact .null
  | unknown => exact .unknown
  | prim p => exact .prim p
  | array e ih => exact .array ih
  | cls c args ih => exact .cls (List.forall₂_same.2 ih)
  | var v => exact .var v
  | wild => exact .wild
  | wildExtends u ih => exact .wildExtends ih
  | wildSuper l ih => exact .wildSuper ih
  | inter ms ih => exact .inter (List.forall₂_same.2 ih) (.refl ms)

/-- An intersection is shuffled into its members in any order. -/
lemma shuffled_of_perm {ms ns : List Ty} (h : ms.Perm ns) : (inter ms).Shuffled (inter ns) :=
  .inter (List.forall₂_same.2 fun m _ => shuffled_self m) h

/-- Shuffling goes either way round. -/
lemma Shuffled.symm (h : a.Shuffled b) : b.Shuffled a := by
  induction a using rec_members generalizing b with
  | array e ih =>
    cases h with
    | array he => exact .array (ih he)
  | cls c args ih =>
    cases h with
    | cls each =>
      have back := forall₂_imp_of_mem (S := flip Shuffled) each fun x hx y _ hxy => ih x hx hxy
      exact .cls back.flip
  | wildExtends u ih =>
    cases h with
    | wildExtends hu => exact .wildExtends (ih hu)
  | wildSuper l ih =>
    cases h with
    | wildSuper hl => exact .wildSuper (ih hl)
  | inter ms ih =>
    cases h with
    | inter each perm =>
      have back := forall₂_imp_of_mem (S := flip Shuffled) each fun x hx y _ hxy => ih x hx hxy
      obtain ⟨ks, forth, perm'⟩ := List.perm_comp_forall₂ perm.symm back.flip
      exact .inter forth perm'
  | _ =>
    cases h
    exact shuffled_self _

/-- Each member has its place among the members of the other intersection. -/
lemma exists_member_of_shuffled {ms ns : List Ty} (h : (inter ms).Shuffled (inter ns)) :
    ∀ m ∈ ms, ∃ n ∈ ns, m.Shuffled n := by
  cases h with
  | inter each perm =>
    intro m hm
    obtain ⟨n, hn, same⟩ := exists_mem_of_forall₂_left each hm
    exact ⟨n, perm.mem_iff.1 hn, same⟩

/-- Shuffling keeps reference types. -/
lemma Shuffled.isReference_eq (h : a.Shuffled b) : b.isReference = a.isReference := by
  cases h with
  | _ => rfl

/-- Shuffling keeps wildcards. -/
lemma Shuffled.isWildcard_eq (h : a.Shuffled b) : b.isWildcard = a.isWildcard := by
  cases h with
  | _ => rfl

/-- A type that is no reference type is shuffled into itself only. -/
lemma Shuffled.eq_of_not_reference (h : a.Shuffled b) (ref : ¬a.isReference = true) : b = a := by
  cases h with
  | void | unknown | prim => rfl
  | _ => exact absurd rfl ref

/-- A shuffled type is identical to the type. -/
lemma identical_of_shuffled (h : a.Shuffled b) : a.identical b = true := by
  induction a using rec_members generalizing b with
  | array e ih =>
    cases h with
    | array he =>
      rw [identical]
      exact ih he
  | cls c args ih =>
    cases h with
    | cls each =>
      exact identical_cls_iff.2 ⟨rfl, forall₂_imp_of_mem each fun x hx y _ hxy => ih x hx hxy⟩
  | wildExtends u ih =>
    cases h with
    | wildExtends hu =>
      rw [identical]
      exact ih hu
  | wildSuper l ih =>
    cases h with
    | wildSuper hl =>
      rw [identical]
      exact ih hl
  | inter ms ih =>
    cases h with
    | @inter _ _ ns each perm =>
      refine identical_inter_iff.2 ⟨each.length_eq.trans perm.length_eq, fun m hm => ?_⟩
      obtain ⟨n, hn, same⟩ := exists_member_of_shuffled (.inter each perm) m hm
      exact ⟨n, hn, ih m hm same⟩
  | _ =>
    cases h
    exact identical_self _

end Shuffled

section Operands

variable {m m' : Ty}

/-- An intersection has reference members if it has such members, and these have. -/
lemma hasReferenceMembers_inter {ms : List Ty} :
    (inter ms).HasReferenceMembers ↔
      (∀ m ∈ ms, m.isReference = true) ∧ ∀ m ∈ ms, m.HasReferenceMembers :=
  everywhere_inter.trans (and_congr_left' (forall_prop_of_true rfl))

/-- A reference type stands in an intersection as such, if the intersections in it do. -/
lemma isOperand_of_isReference (proper : m.ProperType) (members : m.HasReferenceMembers)
    (ref : m.isReference = true) : m.IsOperand := by
  induction m using rec_members with
  | inter ms ih =>
    obtain ⟨references, inside⟩ := hasReferenceMembers_inter.1 members
    exact .inter fun m hm =>
      ih m hm (proper_inter.1 proper.proper m hm) (inside m hm) (references m hm)
  | _ => exact .plain ref rfl proper.notWildcard

/-- A shuffled operand is an operand. -/
lemma IsOperand.shuffle (h : m.IsOperand) (hm : m.Shuffled m') : m'.IsOperand := by
  induction h generalizing m' with
  | unknown =>
    cases hm
    exact .unknown
  | plain ref flat plain =>
    cases hm with
    | inter => cases flat
    | _ => exact .plain ref rfl plain
  | @inter ms _ ih =>
    have back := hm.symm
    cases hm with
    | inter =>
      refine .inter fun n hn => ?_
      obtain ⟨m, mem, same⟩ := exists_member_of_shuffled back n hn
      exact ih m mem same.symm

end Operands

end Ty

namespace ClassTable

variable {t : ClassTable} {a b : Ty}

/-- The one type is below the other, unless they are wildcards, and included in it. -/
structure Agree (t : ClassTable) (a b : Ty) : Prop where
  below : a.isWildcard = false → t.Below a b
  included : t.Includes b a

section Shuffled

/-- What is no wildcard is included in what it is identical to. -/
lemma agree_of_below (h : a.Shuffled b) (plain : a.isWildcard = false) (below : t.Below a b) :
    t.Agree a b := by
  refine ⟨fun _ => below, ?_⟩
  rw [includes_iff_of_not_wildcard (h.isWildcard_eq.trans plain)]
  exact Ty.identical_of_shuffled h.symm

/-- Arrays of shuffled elements agree if the elements are below each other. -/
lemma agree_array {e e' : Ty} (h : e.Shuffled e') (below : t.Below e e') :
    t.Agree (.array e) (.array e') := by
  refine agree_of_below (.array h) rfl ?_
  by_cases ref : e.isReference = true
  · exact below_array ref (h.isReference_eq.trans ref) below
  · rw [h.eq_of_not_reference ref]

/-- Class types with shuffled arguments agree if the arguments include each other. -/
lemma agree_cls {c : ClassId} {as bs : List Ty} (h : List.Forall₂ Ty.Shuffled as bs)
    (included : List.Forall₂ t.Includes bs as) : t.Agree (.cls c as) (.cls c bs) :=
  agree_of_below (.cls h) rfl (below_cls_of_includes included)

/-- Shuffled intersections agree if each member of the second has one of the first below it. -/
lemma agree_inter {ms ns : List Ty} (h : (Ty.inter ms).Shuffled (.inter ns))
    (operands : (Ty.inter ms).IsOperand)
    (below : ∀ n ∈ ns, ∃ m ∈ ms, t.Below m n) : t.Agree (.inter ms) (.inter ns) :=
  agree_of_below h rfl (below_inter_of_members (operands.shuffle h) below)

/-- Shuffled types agree in both directions, by induction on the shuffling. -/
lemma agree_of_shuffled (h : a.Shuffled b) (proper : a.Proper) (members : a.HasReferenceMembers) :
    t.Agree a b ∧ t.Agree b a := by
  induction a using Ty.rec_members generalizing b with
  | array e ih =>
    cases h with
    | array he =>
      obtain ⟨proper, plain⟩ := Ty.proper_array.1 proper
      obtain ⟨forth, back⟩ := ih he proper (Ty.everywhere_array.1 members).2
      exact ⟨agree_array he (forth.below plain),
        agree_array he.symm (back.below (he.isWildcard_eq.trans plain))⟩
  | cls c args ih =>
    cases h with
    | @cls _ _ args' each =>
      have agree : List.Forall₂ (fun x y => t.Agree x y ∧ t.Agree y x) args args' :=
        Ty.forall₂_imp_of_mem each fun x hx y _ same =>
          ih x hx same (Ty.proper_cls.1 proper x hx) ((Ty.everywhere_cls.1 members).2 x hx)
      have each' : List.Forall₂ Ty.Shuffled args' args := (each.imp fun _ _ => .symm).flip
      exact ⟨agree_cls each (agree.imp fun _ _ h => h.1.included).flip,
        agree_cls each' (agree.imp fun _ _ h => h.2.included)⟩
  | wildExtends u ih =>
    cases h with
    | wildExtends hu =>
      obtain ⟨proper, plain⟩ := Ty.proper_wildExtends.1 proper
      obtain ⟨forth, back⟩ := ih hu proper (Ty.everywhere_wildExtends.1 members).2
      exact ⟨⟨nofun, forth.below plain⟩, ⟨nofun, back.below (hu.isWildcard_eq.trans plain)⟩⟩
  | wildSuper l ih =>
    cases h with
    | wildSuper hl =>
      -- Here the bounds change sides, so each direction needs the other one.
      obtain ⟨proper, plain⟩ := Ty.proper_wildSuper.1 proper
      obtain ⟨forth, back⟩ := ih hl proper (Ty.everywhere_wildSuper.1 members).2
      exact ⟨⟨nofun, back.below (hl.isWildcard_eq.trans plain)⟩, ⟨nofun, forth.below plain⟩⟩
  | inter ms ih =>
    have operands := Ty.isOperand_of_isReference ⟨proper, rfl⟩ members rfl
    have proper := Ty.proper_inter.1 proper
    have members := (Ty.hasReferenceMembers_inter.1 members).2
    cases h with
    | @inter _ _ ns each perm =>
      have whole : (Ty.inter ms).Shuffled (.inter ns) := .inter each perm
      refine ⟨agree_inter whole operands fun n hn => ?_,
        agree_inter whole.symm (operands.shuffle whole) fun m hm => ?_⟩
      · obtain ⟨m, hm, same⟩ := Ty.exists_member_of_shuffled whole.symm n hn
        have agree := (ih m hm same.symm (proper m hm).proper (members m hm)).1
        exact ⟨m, hm, agree.below (proper m hm).notWildcard⟩
      · obtain ⟨n, hn, same⟩ := Ty.exists_member_of_shuffled whole m hm
        have agree := (ih m hm same (proper m hm).proper (members m hm)).2
        exact ⟨n, hn, agree.below (same.isWildcard_eq.trans (proper m hm).notWildcard)⟩
  | wild =>
    cases h
    exact ⟨⟨nofun, .known⟩, ⟨nofun, .known⟩⟩
  | _ =>
    have whole := h
    cases h
    have self := agree_of_below whole rfl (below_self t _)
    exact ⟨self, self⟩

end Shuffled

/-- Member order does not matter: a type with the members of its intersections in another order is
identical to it both ways, and answers to whether one is a subtype of the other are yes. -/
theorem subtype_of_shuffled (proper : a.Proper) (members : a.HasReferenceMembers)
    (h : a.Shuffled b) :
    a.identical b = true ∧ b.identical a = true ∧ (a.isWildcard = false →
      (∀ r, (t.subtype a b).Gives r → r = true) ∧ ∀ r, (t.subtype b a).Gives r → r = true) := by
  obtain ⟨forth, back⟩ := agree_of_shuffled (t := t) h proper members
  refine ⟨Ty.identical_of_shuffled h, Ty.identical_of_shuffled h.symm, fun plain => ⟨?_, ?_⟩⟩
  · exact fun r given => (gives_subtype given).2 (forth.below plain)
  · exact fun r given => (gives_subtype given).2 (back.below (h.isWildcard_eq.trans plain))

/-- `Object`, `Readable`, `Closeable` and `Sink<T>`, in this order. -/
def sinks : ClassTable where
  classes := #[
    ⟨"Object", .cls, [], none, [], []⟩,
    ⟨"Readable", .interface, [], none, [], []⟩,
    ⟨"Closeable", .interface, [], none, [], []⟩,
    ⟨"Sink", .interface, [⟨0⟩], none, [], []⟩]
  params := #[⟨"T", [], none⟩]
  index := ∅
  wellKnown := ⟨⟨0⟩, ⟨0⟩, ⟨0⟩, ⟨0⟩, ⟨0⟩, ⟨0⟩⟩

/-- Arrays of sinks for all that lies above the intersection of these types. -/
def sinksFor (ms : List Ty) : Ty :=
  .array (.cls ⟨3⟩ [.wildSuper (.inter ms)])

/-- Arrays of `Sink<? super Readable & Sink<Readable & Closeable>>`, with the members of both
intersections exchanged. -/
theorem subtype_of_shuffled_sinks :
    let readable := Ty.cls ⟨1⟩ []
    let closeable := Ty.cls ⟨2⟩ []
    let a := sinksFor [readable, .cls ⟨3⟩ [.inter [readable, closeable]]]
    let b := sinksFor [.cls ⟨3⟩ [.inter [closeable, readable]], readable]
    a ≠ b ∧ a.Proper ∧ a.HasReferenceMembers ∧ a.Shuffled b ∧ a.identical b = true ∧
      b.identical a = true ∧ (sinks.subtype a b).Gives true ∧ (sinks.subtype b a).Gives true := by
  intro readable closeable a b
  have proper : a.Proper := by decide
  have members : a.HasReferenceMembers := by decide
  have argument : (Ty.inter [readable, closeable]).Shuffled (.inter [closeable, readable]) :=
    Ty.shuffled_of_perm (.swap _ _ _)
  have shuffled : a.Shuffled b :=
    .array (.cls (.cons (.wildSuper (.inter (.cons (Ty.shuffled_self readable)
      (.cons (.cls (.cons argument .nil)) .nil)) (.swap _ _ _))) .nil))
  obtain ⟨forth, back, answers⟩ := subtype_of_shuffled (t := sinks) proper members shuffled
  obtain ⟨below, above⟩ := answers rfl
  have ends : (sinks.subtype a b).Ends ∧ (sinks.subtype b a).Ends :=
    ⟨⟨true, 8, [], by cbv⟩, ⟨true, 8, [], by cbv⟩⟩
  obtain ⟨⟨r, hr⟩, ⟨r', hr'⟩⟩ := ends
  exact ⟨by decide, proper, members, shuffled, forth, back, below r hr ▸ hr, above r' hr' ▸ hr'⟩

end ClassTable

end LambdaTyping
