import LambdaTyping.Proofs.Type.Subterms
import LambdaTyping.Type.Identity

/-!
# Identical types

Each type is identical to itself, and identical types that are known at the top have one head and
identical parts (`paired_of_identical`). Identity leads on through a type in which nothing is
unknown (`identical_trans`). Types without unknown parts and intersections are identical only if
they are equal (`eq_of_identical`).
-/

namespace LambdaTyping.Ty

section Places

/-- Each element on the right stands beside a related one on the left. -/
lemma exists_mem_of_forall₂_right {α β : Type} {R : α → β → Prop} {as : List α} {bs : List β}
    (h : List.Forall₂ R as bs) {b : β} (hb : b ∈ bs) : ∃ a ∈ as, R a b := by
  induction h with
  | nil => cases hb
  | cons head _ ih =>
    rcases List.mem_cons.1 hb with rfl | later
    · exact ⟨_, List.mem_cons_self, head⟩
    · obtain ⟨a, ha, hab⟩ := ih later
      exact ⟨a, List.mem_cons_of_mem _ ha, hab⟩

/-- Each element on the left stands beside a related one on the right. -/
lemma exists_mem_of_forall₂_left {α β : Type} {R : α → β → Prop} {as : List α} {bs : List β}
    (h : List.Forall₂ R as bs) {a : α} (ha : a ∈ as) : ∃ b ∈ bs, R a b :=
  exists_mem_of_forall₂_right (R := flip R) h.flip ha

/-- Lists related place by place are so by each relation that holds between related elements of
theirs. -/
lemma forall₂_imp_of_mem {α β : Type} {R S : α → β → Prop} {as : List α} {bs : List β}
    (h : List.Forall₂ R as bs) (imp : ∀ a ∈ as, ∀ b ∈ bs, R a b → S a b) :
    List.Forall₂ S as bs := by
  induction h with
  | nil => exact .nil
  | cons head _ ih =>
    refine .cons (imp _ List.mem_cons_self _ List.mem_cons_self head) (ih fun a ha b hb => ?_)
    exact imp a (List.mem_cons_of_mem _ ha) b (List.mem_cons_of_mem _ hb)

end Places

/-- Each type has an identical one in the other list, written without recursion. -/
lemma identicalSome_iff {as bs : List Ty} :
    identicalSome as bs = true ↔ ∀ a ∈ as, ∃ b ∈ bs, a.identical b = true := by
  induction as with
  | nil => simp [identicalSome]
  | cons a as ih => simp [identicalSome, ih]

/-- A list is identical to itself place by place if each of its types is identical to itself. -/
lemma identicalAll_self {ts : List Ty} (h : ∀ a ∈ ts, a.identical a = true) :
    identicalAll ts ts = true := by
  induction ts with
  | nil => rfl
  | cons a ts ih =>
    obtain ⟨ha, hts⟩ := List.forall_mem_cons.1 h
    rw [identicalAll, ha, ih hts, Bool.true_and]

/-- Each type is identical to itself. -/
theorem identical_self (a : Ty) : a.identical a = true := by
  induction a using rec_members with
  | array e ih => rwa [identical]
  | wildExtends b ih => rwa [identical]
  | wildSuper b ih => rwa [identical]
  | cls c args ih =>
    rw [identical, identicalAll_self ih]
    simp
  | inter ms ih =>
    have each : identicalSome ms ms = true := identicalSome_iff.2 fun m hm => ⟨m, hm, ih m hm⟩
    rw [identical, each]
    simp
  | _ => simp [identical]

/-- The unknown type is identical to every type. -/
lemma unknown_identical (a : Ty) : identical .unknown a = true := by
  cases a with
  | _ => rfl

/-- Every type is identical to the unknown type. -/
lemma identical_unknown (a : Ty) : a.identical .unknown = true := by
  cases a with
  | _ => rfl

section Pairs

variable {a b c : Ty}

/-- What two identical types have in common at their tops: one of them is unknown, or they have the
same head and their parts are identical. -/
inductive Paired : Ty → Ty → Prop
  | left (b : Ty) : Paired .unknown b
  | right (a : Ty) : Paired a .unknown
  | void : Paired .void .void
  | null : Paired .null .null
  | prim (p : Primitive) : Paired (.prim p) (.prim p)
  | var (v : TypeVarId) : Paired (.var v) (.var v)
  | wild : Paired .wild .wild
  | array {e e' : Ty} : e.identical e' = true → Paired (.array e) (.array e')
  | cls {c : ClassId} {as bs : List Ty} :
      List.Forall₂ (fun a b => a.identical b = true) as bs → Paired (.cls c as) (.cls c bs)
  | wildExtends {u u' : Ty} : u.identical u' = true → Paired (.wildExtends u) (.wildExtends u')
  | wildSuper {l l' : Ty} : l.identical l' = true → Paired (.wildSuper l) (.wildSuper l')
  | inter {ms ns : List Ty} : ms.length = ns.length →
      (∀ m ∈ ms, ∃ n ∈ ns, m.identical n = true) → Paired (.inter ms) (.inter ns)

/-- Lists are identical if they are so place by place. -/
lemma identicalAll_iff {as bs : List Ty} :
    identicalAll as bs = true ↔ List.Forall₂ (fun a b => a.identical b = true) as bs := by
  induction as generalizing bs with
  | nil => cases bs <;> simp [identicalAll]
  | cons a as ih => cases bs <;> simp [identicalAll, ih]

/-- Class types are identical if they have one class and their arguments are identical place by
place. -/
lemma identical_cls_iff {c d : ClassId} {as bs : List Ty} :
    (cls c as).identical (cls d bs) = true ↔
      c = d ∧ List.Forall₂ (fun a b => a.identical b = true) as bs := by
  rw [identical, Bool.and_eq_true, decide_eq_true_eq, identicalAll_iff]

/-- Intersections are identical if they have equally many members and each on the left has an
identical one on the right. -/
lemma identical_inter_iff {ms ns : List Ty} :
    (inter ms).identical (inter ns) = true ↔
      ms.length = ns.length ∧ ∀ m ∈ ms, ∃ n ∈ ns, m.identical n = true := by
  rw [identical, Bool.and_eq_true, decide_eq_true_eq, identicalSome_iff]

/-- Each type has all in common with itself. -/
lemma paired_self (a : Ty) : Paired a a := by
  cases a with
  | void => exact .void
  | null => exact .null
  | unknown => exact .left _
  | prim p => exact .prim p
  | array e => exact .array (identical_self e)
  | cls c args => exact .cls (List.forall₂_same.2 fun x _ => identical_self x)
  | var v => exact .var v
  | wild => exact .wild
  | wildExtends u => exact .wildExtends (identical_self u)
  | wildSuper l => exact .wildSuper (identical_self l)
  | inter ms => exact .inter rfl fun m hm => ⟨m, hm, identical_self m⟩

/-- Identical types have their heads in common, unless one is unknown, and their parts are
identical. -/
lemma paired_of_identical (h : a.identical b = true) : Paired a b := by
  revert h
  fun_cases identical a b with
  | case1 b => exact fun _ => .left b
  | case2 a => exact fun _ => .right a
  | case3 e e' => exact .array
  | case4 c as d bs =>
    intro h
    rw [Bool.and_eq_true, decide_eq_true_eq, identicalAll_iff] at h
    obtain ⟨rfl, all⟩ := h
    exact .cls all
  | case5 u u' => exact .wildExtends
  | case6 l l' => exact .wildSuper
  | case7 ms ns =>
    intro h
    rw [Bool.and_eq_true, decide_eq_true_eq, identicalSome_iff] at h
    exact .inter h.1 h.2
  | case8 a b =>
    intro h
    rw [of_decide_eq_true h]
    exact paired_self _

/-- Relations that lead on through the elements of the middle list lead on through the lists. -/
lemma forall₂_trans_of_mem {R S T : Ty → Ty → Prop} {as bs cs : List Ty}
    (h : ∀ b ∈ bs, ∀ a c, R a b → S b c → T a c) (ab : List.Forall₂ R as bs)
    (bc : List.Forall₂ S bs cs) : List.Forall₂ T as cs := by
  induction ab generalizing cs with
  | nil =>
    cases bc
    exact .nil
  | cons head _ ih =>
    cases bc with
    | cons head' tail' =>
      obtain ⟨first, others⟩ := List.forall_mem_cons.1 h
      exact .cons (first _ _ head head') (ih others tail')

/-- Identity leads on through a type in which nothing is unknown. -/
lemma identical_trans (known : b.Everywhere (· ≠ .unknown)) (ab : a.identical b = true)
    (bc : b.identical c = true) : a.identical c = true := by
  -- The induction is on the type in the middle, which is known: an unknown type at a side is
  -- identical to all, and any other has the same head and identical parts.
  induction b using rec_members generalizing a c with
  | unknown => exact absurd rfl known.here
  | array e ih =>
    cases paired_of_identical ab with
    | left => exact unknown_identical c
    | array de =>
      cases paired_of_identical bc with
      | right => exact identical_unknown _
      | array ef =>
        rw [identical]
        exact ih (everywhere_array.1 known).2 de ef
  | wildExtends e ih =>
    cases paired_of_identical ab with
    | left => exact unknown_identical c
    | wildExtends de =>
      cases paired_of_identical bc with
      | right => exact identical_unknown _
      | wildExtends ef =>
        rw [identical]
        exact ih (everywhere_wildExtends.1 known).2 de ef
  | wildSuper e ih =>
    cases paired_of_identical ab with
    | left => exact unknown_identical c
    | wildSuper de =>
      cases paired_of_identical bc with
      | right => exact identical_unknown _
      | wildSuper ef =>
        rw [identical]
        exact ih (everywhere_wildSuper.1 known).2 de ef
  | cls d args ih =>
    cases paired_of_identical ab with
    | left => exact unknown_identical c
    | cls first =>
      cases paired_of_identical bc with
      | right => exact identical_unknown _
      | cls second =>
        refine identical_cls_iff.2 ⟨rfl, forall₂_trans_of_mem (fun x hx _ _ => ?_) first second⟩
        exact ih x hx ((everywhere_cls.1 known).2 x hx)
  | inter ms ih =>
    cases paired_of_identical ab with
    | left => exact unknown_identical c
    | inter length first =>
      cases paired_of_identical bc with
      | right => exact identical_unknown _
      | inter length' second =>
        refine identical_inter_iff.2 ⟨length.trans length', fun x hx => ?_⟩
        obtain ⟨m, hm, xm⟩ := first x hx
        obtain ⟨z, hz, mz⟩ := second m hm
        exact ⟨z, hz, ih m hm ((everywhere_inter.1 known).2 m hm) xm mz⟩
  | _ =>
    cases paired_of_identical ab with
    | left => exact unknown_identical c
    | _ => exact bc

/-- Each part of a type has one that it is identical to in what the type is identical to, if
nothing is unknown there. -/
lemma exists_subterm_of_identical (known : b.Everywhere (· ≠ .unknown))
    (same : a.identical b = true) {s : Ty} (hs : s ∈ a.subterms) :
    ∃ x ∈ b.subterms, s.identical x = true := by
  -- What occurs in a type is the type itself, or occurs in a part, to which a part of the other
  -- type is identical.
  induction a using rec_members generalizing b with
  | array e ih =>
    rcases List.mem_cons.1 hs with rfl | hs
    · exact ⟨b, mem_subterms_self b, same⟩
    · cases paired_of_identical same with
      | right => exact absurd rfl known.here
      | array same =>
        obtain ⟨x, hx, sx⟩ := ih (everywhere_array.1 known).2 same hs
        exact ⟨x, mem_subterms_trans mem_subterms_array hx, sx⟩
  | wildExtends u ih =>
    rcases List.mem_cons.1 hs with rfl | hs
    · exact ⟨b, mem_subterms_self b, same⟩
    · cases paired_of_identical same with
      | right => exact absurd rfl known.here
      | wildExtends same =>
        obtain ⟨x, hx, sx⟩ := ih (everywhere_wildExtends.1 known).2 same hs
        exact ⟨x, mem_subterms_trans mem_subterms_wildExtends hx, sx⟩
  | wildSuper l ih =>
    rcases List.mem_cons.1 hs with rfl | hs
    · exact ⟨b, mem_subterms_self b, same⟩
    · cases paired_of_identical same with
      | right => exact absurd rfl known.here
      | wildSuper same =>
        obtain ⟨x, hx, sx⟩ := ih (everywhere_wildSuper.1 known).2 same hs
        exact ⟨x, mem_subterms_trans mem_subterms_wildSuper hx, sx⟩
  | cls c args ih =>
    rcases List.mem_cons.1 hs with rfl | hs
    · exact ⟨b, mem_subterms_self b, same⟩
    · obtain ⟨y, hy, hs⟩ := mem_subtermsOf.1 hs
      cases paired_of_identical same with
      | right => exact absurd rfl known.here
      | cls all =>
        obtain ⟨z, hz, same⟩ := exists_mem_of_forall₂_left all hy
        obtain ⟨x, hx, sx⟩ := ih y hy ((everywhere_cls.1 known).2 z hz) same hs
        exact ⟨x, mem_subterms_trans (mem_subterms_cls hz) hx, sx⟩
  | inter ms ih =>
    rcases List.mem_cons.1 hs with rfl | hs
    · exact ⟨b, mem_subterms_self b, same⟩
    · obtain ⟨m, hm, hs⟩ := mem_subtermsOf.1 hs
      cases paired_of_identical same with
      | right => exact absurd rfl known.here
      | inter _ partner =>
        obtain ⟨n, hn, same⟩ := partner m hm
        obtain ⟨x, hx, sx⟩ := ih m hm ((everywhere_inter.1 known).2 n hn) same hs
        exact ⟨x, mem_subterms_trans (mem_subterms_inter hn) hx, sx⟩
  | _ =>
    obtain rfl := List.mem_singleton.1 hs
    exact ⟨b, mem_subterms_self b, same⟩

end Pairs

/-- No part of the type is unknown or an intersection. -/
def Rigid (t : Ty) : Prop :=
  t.Everywhere fun s => s ≠ .unknown ∧ s.isIntersection = false

instance (t : Ty) : Decidable t.Rigid :=
  inferInstanceAs (Decidable (t.Everywhere _))

/-- Identical types are equal if the one has neither unknown parts nor intersections and the other
has no unknown parts. -/
theorem eq_of_identical {a b : Ty} (ha : a.Rigid) (hb : b.Everywhere (· ≠ .unknown))
    (h : a.identical b = true) : a = b := by
  induction a using rec_members generalizing b with
  | unknown => exact absurd rfl ha.here.1
  | inter ms => cases ha.here.2
  | array e ih =>
    cases paired_of_identical h with
    | right => exact absurd rfl hb.here
    | array same => rw [ih (everywhere_array.1 ha).2 (everywhere_array.1 hb).2 same]
  | wildExtends e ih =>
    cases paired_of_identical h with
    | right => exact absurd rfl hb.here
    | wildExtends same =>
      rw [ih (everywhere_wildExtends.1 ha).2 (everywhere_wildExtends.1 hb).2 same]
  | wildSuper e ih =>
    cases paired_of_identical h with
    | right => exact absurd rfl hb.here
    | wildSuper same =>
      rw [ih (everywhere_wildSuper.1 ha).2 (everywhere_wildSuper.1 hb).2 same]
  | cls c args ih =>
    cases paired_of_identical h with
    | right => exact absurd rfl hb.here
    | @cls _ _ args' all =>
      have equal : List.Forall₂ Eq args args' := by
        refine forall₂_imp_of_mem all fun x hx y hy same => ?_
        exact ih x hx ((everywhere_cls.1 ha).2 x hx) ((everywhere_cls.1 hb).2 y hy) same
      rw [List.forall₂_eq_eq_eq] at equal
      rw [equal]
  | _ =>
    cases paired_of_identical h with
    | right => exact absurd rfl hb.here
    | _ => rfl

/-- No part of the type is an intersection. -/
def Flat (t : Ty) : Prop :=
  t.Everywhere fun s => s.isIntersection = false

instance (t : Ty) : Decidable t.Flat :=
  inferInstanceAs (Decidable (t.Everywhere _))

/-- A property that is seen at the top of a type, and that no intersection has, holds of all parts
of what comes out if it holds of all parts of what is put in. -/
lemma Everywhere.rebuild {P : Ty → Prop} {t : Ty} {s : Subst} (flat : ∀ ms, ¬P (.inter ms))
    (top : ∀ x, (∀ v, x ≠ .var v) → P x → P (s.rebuild x)) (ht : t.Everywhere P)
    (h : ∀ v, t.mentions v = true → (s.rebuild (.var v)).Everywhere P) :
    (s.rebuild t).Everywhere P := by
  induction t using rec_members with
  | var v => exact h v (decide_eq_true rfl)
  | inter ms => exact absurd ht.here (flat ms)
  | array e ih =>
    have here := top (.array e) nofun ht.here
    rw [Subst.rebuild_array] at here ⊢
    exact everywhere_array.2 ⟨here, ih (everywhere_array.1 ht).2 h⟩
  | wildExtends b ih =>
    have here := top (.wildExtends b) nofun ht.here
    rw [Subst.rebuild_wildExtends] at here ⊢
    exact everywhere_wildExtends.2 ⟨here, ih (everywhere_wildExtends.1 ht).2 h⟩
  | wildSuper b ih =>
    have here := top (.wildSuper b) nofun ht.here
    rw [Subst.rebuild_wildSuper] at here ⊢
    exact everywhere_wildSuper.2 ⟨here, ih (everywhere_wildSuper.1 ht).2 h⟩
  | cls c args ih =>
    have here := top (.cls c args) nofun ht.here
    rw [Subst.rebuild_cls] at here ⊢
    refine everywhere_cls.2 ⟨here, List.forall_mem_map.2 fun a ha => ?_⟩
    exact ih a ha ((everywhere_cls.1 ht).2 a ha) fun v hv => h v (Subst.mentionsAny_of_mem ha hv)
  | _ => exact ht

/-- A rigid type stays rigid if rigid types are put in for its variables. -/
lemma Rigid.rebuild {t : Ty} {s : Subst} (ht : t.Rigid)
    (h : ∀ v, t.mentions v = true → (s.rebuild (.var v)).Rigid) : (s.rebuild t).Rigid := by
  refine Everywhere.rebuild (fun ms rigid => nomatch rigid.2) (fun x notVar rigid => ?_) ht h
  cases x with
  | unknown => exact absurd rfl rigid.1
  | var v => exact absurd rfl (notVar v)
  | inter => cases rigid.2
  | _ => exact ⟨nofun, rfl⟩

/-- A type stays without intersections if none are put in for its variables. -/
lemma Flat.rebuild {t : Ty} {s : Subst} (ht : t.Flat)
    (h : ∀ v, t.mentions v = true → (s.rebuild (.var v)).Flat) : (s.rebuild t).Flat := by
  refine Everywhere.rebuild (fun ms => nofun) (fun x notVar flat => ?_) ht h
  cases x with
  | var v => exact absurd rfl (notVar v)
  | inter => cases flat
  | _ => rfl

end LambdaTyping.Ty
