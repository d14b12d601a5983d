import LambdaTyping.Hierarchy.Closure
import LambdaTyping.Proofs.Type.Identity
import Mathlib.Data.Fintype.EquivFin

/-!
# When identity is symmetric

Identity asks for a partner on the right for each member of an intersection on the left. Members on
the left may share a partner, if they are identical to each other or if one of the three has unknown
parts, and then a member on the right may be left without one. So the types that compare alike in
the two orders with every type are those without intersections (`Flat.identical_comm`,
`exists_unlike`).

Where no intersection has unknown parts or distinct members that are identical, no partner is shared
and identity is symmetric (`Sharp.symm`). Where an intersection without unknown parts has distinct
members that are identical, one of them can be replaced such that it is not (`exists_unreturned`).
-/

namespace LambdaTyping.Ty

variable {a b c : Ty}

/-- Nothing unknown stands in an intersection. -/
def Settled (t : Ty) : Prop :=
  t.Everywhere fun s => s.isIntersection = true → s.Everywhere (· ≠ .unknown)

instance (t : Ty) : Decidable t.Settled :=
  inferInstanceAs (Decidable (t.Everywhere _))

/-- Distinct members of an intersection are not identical. -/
def Sharp (t : Ty) : Prop :=
  t.Everywhere fun s => ∀ x ∈ s.members, ∀ y ∈ s.members, x.identical y = true → x = y

instance (t : Ty) : Decidable t.Sharp :=
  inferInstanceAs (Decidable (t.Everywhere _))

section Shapes

/-- An array is settled if its elements are. -/
lemma settled_array {e : Ty} : (array e).Settled ↔ e.Settled :=
  everywhere_array.trans (and_iff_right nofun)

/-- A wildcard is settled if its upper bound is. -/
lemma settled_wildExtends {u : Ty} : (wildExtends u).Settled ↔ u.Settled :=
  everywhere_wildExtends.trans (and_iff_right nofun)

/-- A wildcard is settled if its lower bound is. -/
lemma settled_wildSuper {l : Ty} : (wildSuper l).Settled ↔ l.Settled :=
  everywhere_wildSuper.trans (and_iff_right nofun)

/-- A class type is settled if its arguments are. -/
lemma settled_cls {c : ClassId} {args : List Ty} :
    (cls c args).Settled ↔ ∀ a ∈ args, a.Settled :=
  everywhere_cls.trans (and_iff_right nofun)

/-- A type without unknown parts is settled. -/
lemma settled_of_known (h : a.Everywhere (· ≠ .unknown)) : a.Settled :=
  fun _ hs _ x hx => h x (mem_subterms_trans hs hx)

/-- A settled intersection has no unknown parts. -/
lemma Settled.known {ms : List Ty} (h : (inter ms).Settled) :
    (inter ms).Everywhere (· ≠ .unknown) :=
  h.here rfl

/-- A type that is no intersection is its own only member. -/
lemma eq_of_mem_members (flat : a.isIntersection = false) :
    ∀ x ∈ a.members, ∀ y ∈ a.members, x.identical y = true → x = y := by
  intro x hx y hy _
  rw [members_of_not_intersection flat, List.mem_singleton] at hx hy
  rw [hx, hy]

/-- An array is sharp if its elements are. -/
lemma sharp_array {e : Ty} : (array e).Sharp ↔ e.Sharp :=
  everywhere_array.trans (and_iff_right (eq_of_mem_members rfl))

/-- A wildcard is sharp if its upper bound is. -/
lemma sharp_wildExtends {u : Ty} : (wildExtends u).Sharp ↔ u.Sharp :=
  everywhere_wildExtends.trans (and_iff_right (eq_of_mem_members rfl))

/-- A wildcard is sharp if its lower bound is. -/
lemma sharp_wildSuper {l : Ty} : (wildSuper l).Sharp ↔ l.Sharp :=
  everywhere_wildSuper.trans (and_iff_right (eq_of_mem_members rfl))

/-- A class type is sharp if its arguments are. -/
lemma sharp_cls {c : ClassId} {args : List Ty} : (cls c args).Sharp ↔ ∀ a ∈ args, a.Sharp :=
  everywhere_cls.trans (and_iff_right (eq_of_mem_members rfl))

/-- An intersection is sharp if its distinct members are not identical and each of them is sharp. -/
lemma sharp_inter {ms : List Ty} :
    (inter ms).Sharp ↔
      (∀ x ∈ ms, ∀ y ∈ ms, x.identical y = true → x = y) ∧ ∀ m ∈ ms, m.Sharp :=
  everywhere_inter

end Shapes

section Symmetry

/-- Where as many types have partners, and none shares one, each is a partner. -/
lemma exists_left_partner {ms ns : List Ty} (nodup : ms.Nodup) (length : ms.length = ns.length)
    (partner : ∀ m ∈ ms, ∃ n ∈ ns, m.identical n = true)
    (apart : ∀ x ∈ ms, ∀ y ∈ ms, ∀ n ∈ ns, x.identical n = true → y.identical n = true → x = y) :
    ∀ n ∈ ns, ∃ m ∈ ms, m.identical n = true := by
  choose! f mem same using partner
  have images : (ms.map f).Nodup := by
    refine nodup.map_on fun x hx y hy shared => ?_
    exact apart x hx y hy (f x) (mem x hx) (same x hx) (shared ▸ same y hy)
  have subset : ms.map f ⊆ ns := List.forall_mem_map.2 mem
  have perm : (ms.map f).Perm ns := by
    refine (List.subperm_of_subset images subset).perm_of_length_le ?_
    rw [List.length_map, length]
  intro n hn
  obtain ⟨m, hm, rfl⟩ := List.mem_map.1 (perm.mem_iff.2 hn)
  exact ⟨m, hm, same m hm⟩

/-- What a type with sharp intersections is identical to is identical to it. -/
lemma Sharp.symm (normal : a.Normal) (sharp : a.Sharp) (ha : a.Settled) (hb : b.Settled)
    (h : a.identical b = true) : b.identical a = true := by
  induction a using rec_members generalizing b with
  | unknown => exact identical_unknown b
  | array e ih =>
    cases paired_of_identical h with
    | right => exact unknown_identical _
    | array same =>
      rw [identical]
      exact ih normal (sharp_array.1 sharp) (settled_array.1 ha) (settled_array.1 hb) same
  | wildExtends u ih =>
    cases paired_of_identical h with
    | right => exact unknown_identical _
    | wildExtends same =>
      rw [identical]
      exact ih normal (sharp_wildExtends.1 sharp) (settled_wildExtends.1 ha)
        (settled_wildExtends.1 hb) same
  | wildSuper l ih =>
    cases paired_of_identical h with
    | right => exact unknown_identical _
    | wildSuper same =>
      rw [identical]
      exact ih normal (sharp_wildSuper.1 sharp) (settled_wildSuper.1 ha)
        (settled_wildSuper.1 hb) same
  | cls c args ih =>
    cases paired_of_identical h with
    | right => exact unknown_identical _
    | @cls _ _ bs all =>
      rw [settled_cls] at ha hb
      have back := forall₂_imp_of_mem (S := fun x y => y.identical x = true) all
        fun x hx y hy same => ih x hx (normal_cls.1 normal x hx) (sharp_cls.1 sharp x hx) (ha x hx)
          (hb y hy) same
      exact identical_cls_iff.2 ⟨rfl, back.flip⟩
  | inter ms ih =>
    cases paired_of_identical h with
    | right => exact unknown_identical _
    | @inter _ ns length partner =>
      obtain ⟨_, nodup, members⟩ := normal_inter.1 normal
      obtain ⟨distinct, inside⟩ := sharp_inter.1 sharp
      have known := (everywhere_inter.1 ha.known).2
      have known' := (everywhere_inter.1 hb.known).2
      have back {m n : Ty} (hm : m ∈ ms) (hn : n ∈ ns) (same : m.identical n = true) :
          n.identical m = true :=
        ih m hm (members m hm).2 (inside m hm) (settled_of_known (known m hm))
          (settled_of_known (known' n hn)) same
      refine identical_inter_iff.2 ⟨length.symm, fun n hn => ?_⟩
      -- The members on the left have partners, no two of them the same, as no two are identical to
      -- one type. So by their number each member on the right is a partner.
      obtain ⟨m, hm, same⟩ := exists_left_partner nodup length partner
        (fun x hx y hy z hz xz yz =>
          distinct x hx y hy (identical_trans (known' z hz) xz (back hy hz yz))) n hn
      exact ⟨m, hm, back hm hn same⟩
  | _ =>
    cases paired_of_identical h with
    | right => exact unknown_identical _
    | _ => exact identical_self _

end Symmetry

section Replacement

/-- The class occurs in the type. -/
def Names (t : Ty) (c : ClassId) : Prop :=
  ∃ args, .cls c args ∈ t.subterms

/-- No type names every class. -/
lemma exists_not_names (t : Ty) : ∃ c, ¬t.Names c := by
  obtain ⟨n, hn⟩ := Infinite.exists_notMem_finset
    (t.subterms.filterMap fun s => s.asClass?.map fun c => c.head.raw).toFinset
  refine ⟨⟨n⟩, ?_⟩
  rintro ⟨args, mem⟩
  refine hn (List.mem_toFinset.2 (List.mem_filterMap.2 ⟨_, mem, rfl⟩))

/-- A class that occurs in a part of a type occurs in the type. -/
lemma Names.of_mem {s t : Ty} {c : ClassId} (h : s.Names c) (hs : s ∈ t.subterms) : t.Names c := by
  obtain ⟨args, mem⟩ := h
  exact ⟨args, mem_subterms_trans hs mem⟩

/-- A class that does not occur in a type occurs in no part of it. -/
lemma not_names_of_mem {s t : Ty} {c : ClassId} (fresh : ¬t.Names c) (hs : s ∈ t.subterms) :
    ¬s.Names c :=
  fun names => fresh (names.of_mem hs)

/-- A type in which nothing is unknown names the classes of what is identical to it. -/
lemma Names.of_identical {f : ClassId} (h : a.Names f) (known : b.Everywhere (· ≠ .unknown))
    (same : a.identical b = true) : b.Names f := by
  obtain ⟨args, mem⟩ := h
  obtain ⟨x, hx, same⟩ := exists_subterm_of_identical known same mem
  cases paired_of_identical same with
  | right => exact absurd rfl (known _ hx)
  | cls => exact ⟨_, hx⟩

variable {l r : List Ty} {x y : Ty}

/-- A property of all elements of a list is kept when one is replaced by another that has it. -/
lemma forall_mem_replace {P : Ty → Prop} (h : ∀ a ∈ l ++ x :: r, P a) (hy : P y) :
    ∀ a ∈ l ++ y :: r, P a := by
  simp only [List.forall_mem_append, List.forall_mem_cons] at h ⊢
  exact ⟨h.1, hy, h.2.2⟩

/-- Lists that differ at one place are identical if they are at that place. -/
lemma identicalAll_replace : identicalAll (l ++ x :: r) (l ++ y :: r) = x.identical y := by
  induction l with
  | nil =>
    rw [List.nil_append, List.nil_append, identicalAll,
      identicalAll_self fun a _ => identical_self a, Bool.and_true]
  | cons a l ih => rw [List.cons_append, List.cons_append, identicalAll, identical_self, ih,
      Bool.true_and]

/-- A type argument replaced makes the difference between the types. -/
lemma identical_cls_replace {c : ClassId} :
    (cls c (l ++ x :: r)).identical (cls c (l ++ y :: r)) = x.identical y := by
  rw [identical, identicalAll_replace, decide_eq_true rfl, Bool.true_and]

/-- Replacing a member that has a partner in the new list leaves an identical intersection. -/
lemma identical_inter_replace (partner : ∃ z ∈ l ++ y :: r, x.identical z = true) :
    (inter (l ++ x :: r)).identical (inter (l ++ y :: r)) = true := by
  refine identical_inter_iff.2 ⟨by simp, fun m hm => ?_⟩
  rcases List.mem_append.1 hm with hm | hm
  · exact ⟨m, List.mem_append_left _ hm, identical_self m⟩
  · rcases List.mem_cons.1 hm with rfl | hm
    · exact partner
    · exact ⟨m, List.mem_append_right _ (List.mem_cons_of_mem _ hm), identical_self m⟩

/-- A member of a normal intersection may be replaced by another normal type that is no member
yet. -/
lemma normal_inter_replace (h : (inter (l ++ x :: r)).Normal) (flat : y.isIntersection = false)
    (hy : y.Normal) (fresh : y ∉ l ++ r) : (inter (l ++ y :: r)).Normal := by
  obtain ⟨two, nodup, members⟩ := normal_inter.1 h
  refine normal_inter.2 ⟨?_, ?_, forall_mem_replace members ⟨flat, hy⟩⟩
  · simpa using two
  · rw [List.nodup_middle, List.nodup_cons] at nodup ⊢
    exact ⟨fresh, nodup.2⟩

/-- The second type names a class that the first does not; the first is identical to it, but it is
not identical to the first. -/
structure Unreturned (c : ClassId) (a b : Ty) : Prop where
  normal : b.Normal
  settled : b.Settled
  known : a.Everywhere (· ≠ .unknown) → b.Everywhere (· ≠ .unknown)
  flat : b.isIntersection = a.isIntersection
  names : b.Names c
  forth : a.identical b = true
  back : b.identical a = false

/-- A member of an intersection makes way for one that names the class, if it has a partner then. -/
lemma unreturned_inter {c : ClassId} (fresh : ¬(inter (l ++ x :: r)).Names c)
    (normal : (inter (l ++ x :: r)).Normal)
    (known : (inter (l ++ x :: r)).Everywhere (· ≠ .unknown)) (flat : y.isIntersection = false)
    (hy : y.Normal) (known' : y.Everywhere (· ≠ .unknown)) (names : y.Names c)
    (partner : ∃ z ∈ l ++ y :: r, x.identical z = true) :
    Unreturned c (inter (l ++ x :: r)) (inter (l ++ y :: r)) := by
  have mem : y ∈ l ++ y :: r := List.mem_append_right _ List.mem_cons_self
  have new : y ∉ l ++ r := fun old =>
    fresh (names.of_mem (mem_subterms_inter (List.mem_append.2
      ((List.mem_append.1 old).imp_right (List.mem_cons_of_mem x)))))
  have all : (inter (l ++ y :: r)).Everywhere (· ≠ .unknown) :=
    everywhere_inter.2 ⟨nofun, forall_mem_replace (everywhere_inter.1 known).2 known'⟩
  have names := names.of_mem (mem_subterms_inter mem)
  exact ⟨normal_inter_replace normal flat hy new, settled_of_known all, fun _ => all, rfl, names,
    identical_inter_replace partner,
    Bool.eq_false_iff.2 fun same => fresh (names.of_identical known same)⟩

/-- In a type with an intersection that is not sharp, something can be replaced such that the type
is identical to what comes out, but not conversely. -/
lemma exists_unreturned {c : ClassId} (fresh : ¬a.Names c) (normal : a.Normal)
    (settled : a.Settled) (blunt : ¬a.Sharp) : ∃ b, Unreturned c a b := by
  induction a using rec_members with
  | array e ih =>
    obtain ⟨e', h⟩ := ih (not_names_of_mem fresh mem_subterms_array) normal
      (settled_array.1 settled) (mt sharp_array.2 blunt)
    exact ⟨.array e', h.normal, settled_array.2 h.settled,
      fun known => everywhere_array.2 ⟨nofun, h.known (everywhere_array.1 known).2⟩, rfl,
      h.names.of_mem mem_subterms_array, h.forth, h.back⟩
  | wildExtends u ih =>
    obtain ⟨u', h⟩ := ih (not_names_of_mem fresh mem_subterms_wildExtends) normal
      (settled_wildExtends.1 settled) (mt sharp_wildExtends.2 blunt)
    exact ⟨.wildExtends u', h.normal, settled_wildExtends.2 h.settled,
      fun known => everywhere_wildExtends.2 ⟨nofun, h.known (everywhere_wildExtends.1 known).2⟩,
      rfl, h.names.of_mem mem_subterms_wildExtends, h.forth, h.back⟩
  | wildSuper l ih =>
    obtain ⟨l', h⟩ := ih (not_names_of_mem fresh mem_subterms_wildSuper) normal
      (settled_wildSuper.1 settled) (mt sharp_wildSuper.2 blunt)
    exact ⟨.wildSuper l', h.normal, settled_wildSuper.2 h.settled,
      fun known => everywhere_wildSuper.2 ⟨nofun, h.known (everywhere_wildSuper.1 known).2⟩,
      rfl, h.names.of_mem mem_subterms_wildSuper, h.forth, h.back⟩
  | cls d args ih =>
    rw [sharp_cls] at blunt
    push Not at blunt
    obtain ⟨x, hx, blunt⟩ := blunt
    obtain ⟨y, h⟩ := ih x hx (not_names_of_mem fresh (mem_subterms_cls hx))
      (normal_cls.1 normal x hx) (settled_cls.1 settled x hx) blunt
    obtain ⟨l, r, rfl⟩ := List.append_of_mem hx
    have hy : y ∈ l ++ y :: r := List.mem_append_right _ List.mem_cons_self
    refine ⟨.cls d (l ++ y :: r), normal_cls.2 (forall_mem_replace (normal_cls.1 normal) h.normal),
      settled_cls.2 (forall_mem_replace (settled_cls.1 settled) h.settled), fun known => ?_, rfl,
      h.names.of_mem (mem_subterms_cls hy), ?_, ?_⟩
    · have known := (everywhere_cls.1 known).2
      exact everywhere_cls.2 ⟨nofun, forall_mem_replace known (h.known (known x hx))⟩
    · rw [identical_cls_replace, h.forth]
    · rw [identical_cls_replace, h.back]
  | inter ms ih =>
    have known := settled.known
    by_cases distinct : ∀ x ∈ ms, ∀ y ∈ ms, x.identical y = true → x = y
    · -- A member is not sharp.
      have blunt : ¬∀ m ∈ ms, m.Sharp := fun inside => blunt (sharp_inter.2 ⟨distinct, inside⟩)
      push Not at blunt
      obtain ⟨x, hx, blunt⟩ := blunt
      have here := (everywhere_inter.1 known).2 x hx
      obtain ⟨flat, hn⟩ := (normal_inter.1 normal).2.2 x hx
      obtain ⟨y, h⟩ := ih x hx (not_names_of_mem fresh (mem_subterms_inter hx)) hn
        (settled_of_known here) blunt
      obtain ⟨l, r, rfl⟩ := List.append_of_mem hx
      have partner : ∃ z ∈ l ++ y :: r, x.identical z = true :=
        ⟨y, List.mem_append_right _ List.mem_cons_self, h.forth⟩
      exact ⟨_, unreturned_inter fresh normal known (h.flat.trans flat) h.normal (h.known here)
        h.names partner⟩
    · -- A member that is identical to another can do without its own place.
      push Not at distinct
      obtain ⟨x, hx, z, hz, same, ne⟩ := distinct
      obtain ⟨l, r, rfl⟩ := List.append_of_mem hx
      have partner : ∃ w ∈ l ++ cls c [] :: r, x.identical w = true := by
        refine ⟨z, ?_, same⟩
        rw [List.mem_append, List.mem_cons] at hz ⊢
        exact hz.imp_right fun hz => .inr (hz.resolve_left ne.symm)
      exact ⟨_, unreturned_inter (y := .cls c []) fresh normal known rfl (normal_cls.2 nofun)
        (everywhere_cls.2 ⟨nofun, nofun⟩) ⟨[], mem_subterms_self _⟩ partner⟩
  | _ => exact absurd (everywhere_of_atom rfl (eq_of_mem_members rfl)) blunt

end Replacement

section Flat

variable {c : ClassId}

/-- Comparing lists place by place is symmetric if comparing the types of one of them is. -/
lemma identicalAll_comm {as bs : List Ty} (h : ∀ x ∈ as, ∀ y, x.identical y = y.identical x) :
    identicalAll as bs = identicalAll bs as := by
  induction as generalizing bs with
  | nil =>
    cases bs with
    | nil => rfl
    | cons => rfl
  | cons x as ih =>
    obtain ⟨first, others⟩ := List.forall_mem_cons.1 h
    cases bs with
    | nil => rfl
    | cons y bs => rw [identicalAll, identicalAll, first y, ih others]

/-- Intersections alone compare differently in the two orders. -/
lemma Flat.identical_comm (flat : a.Flat) (b : Ty) : a.identical b = b.identical a := by
  induction a using rec_members generalizing b with
  | inter ms => cases flat.here
  | array e ih =>
    cases b with
    | array e' =>
      rw [identical, identical]
      exact ih (everywhere_array.1 flat).2 e'
    | _ => simp [identical]
  | wildExtends u ih =>
    cases b with
    | wildExtends u' =>
      rw [identical, identical]
      exact ih (everywhere_wildExtends.1 flat).2 u'
    | _ => simp [identical]
  | wildSuper l ih =>
    cases b with
    | wildSuper l' =>
      rw [identical, identical]
      exact ih (everywhere_wildSuper.1 flat).2 l'
    | _ => simp [identical]
  | cls d args ih =>
    cases b with
    | cls d' args' =>
      have flat := (everywhere_cls.1 flat).2
      have all : identicalAll args args' = identicalAll args' args :=
        identicalAll_comm fun x hx => ih x hx (flat x hx)
      rw [identical, identical, all]
      simp only [eq_comm]
    | _ => simp [identical]
  | _ =>
    cases b with
    | _ => simp [identical, eq_comm]

/-- A class type of a class that a known type does not name is not identical to it, nor it to that.
-/
lemma not_identical_of_not_names (fresh : ¬a.Names c) (known : a ≠ .unknown) (args : List Ty) :
    a.identical (cls c args) = false ∧ (cls c args).identical a = false := by
  constructor
  · refine Bool.eq_false_iff.2 fun same => ?_
    cases paired_of_identical same with
    | left => exact known rfl
    | cls => exact fresh ⟨_, mem_subterms_self _⟩
  · refine Bool.eq_false_iff.2 fun same => ?_
    cases paired_of_identical same with
    | right => exact known rfl
    | cls => exact fresh ⟨_, mem_subterms_self _⟩

/-- Some types of one class, all different. -/
def instances (c : ClassId) (n : Nat) : List Ty :=
  (List.range n).map fun i => .cls c (.replicate i .null)

/-- Each instance has as many arguments as its place in the list says. -/
lemma mem_instances {n : Nat} {x : Ty} (h : x ∈ instances c n) :
    ∃ i < n, x = .cls c (.replicate i .null) := by
  obtain ⟨i, hi, rfl⟩ := List.mem_map.1 h
  exact ⟨i, List.mem_range.1 hi, rfl⟩

/-- No instance stands twice in the list. -/
lemma nodup_instances (c : ClassId) (n : Nat) : (instances c n).Nodup := by
  refine List.nodup_range.map fun i j same => ?_
  have lengths := congrArg List.length (Ty.cls.inj same).2
  rwa [List.length_replicate, List.length_replicate] at lengths

/-- The instances are normal and no intersections. -/
lemma normal_of_mem_instances {n : Nat} {x : Ty} (h : x ∈ instances c n) :
    x.isIntersection = false ∧ x.Normal := by
  obtain ⟨i, _, rfl⟩ := mem_instances h
  refine ⟨rfl, normal_cls.2 fun y hy => ?_⟩
  rw [List.eq_of_mem_replicate hy]
  exact normal_null

/-- For each intersection there is another that compares differently in the two orders: unknown
stands for all members on the left, for one on the right. -/
lemma exists_unlike_inter {ms : List Ty} (fresh : ¬(inter ms).Names c)
    (normal : (inter ms).Normal) :
    ∃ b, b.Normal ∧ (inter ms).identical b ≠ b.identical (inter ms) := by
  obtain ⟨two, nodup, _⟩ := normal_inter.1 normal
  have apart {m : Ty} (hm : m ∈ ms) (known : m ≠ .unknown) (args : List Ty) :=
    not_identical_of_not_names (not_names_of_mem fresh (mem_subterms_inter hm)) known args
  by_cases unknown : .unknown ∈ ms
  · have length : (instances c ms.length).length = ms.length := by simp [instances]
    refine ⟨.inter (instances c ms.length), normal_inter.2 ⟨two.trans_eq length.symm,
      nodup_instances c _, fun x hx => normal_of_mem_instances hx⟩, ?_⟩
    have back : (inter (instances c ms.length)).identical (inter ms) = true :=
      identical_inter_iff.2 ⟨length, fun x _ => ⟨.unknown, unknown, identical_unknown x⟩⟩
    -- Another member has no partner.
    obtain ⟨m, hm, known⟩ : ∃ m ∈ ms, m ≠ .unknown := by
      by_contra none
      push Not at none
      rw [List.eq_replicate_of_mem none, List.nodup_replicate] at nodup
      omega
    rw [back]
    intro forth
    obtain ⟨x, hx, same⟩ := (identical_inter_iff.1 forth).2 m hm
    obtain ⟨i, _, rfl⟩ := mem_instances hx
    rw [(apart hm known _).1] at same
    cases same
  · obtain ⟨k, hk⟩ : ∃ k, ms.length = k + 2 := Nat.exists_eq_add_of_le' two
    have length : (Ty.unknown :: instances c (k + 1)).length = ms.length := by simp [instances, hk]
    refine ⟨.inter (.unknown :: instances c (k + 1)), normal_inter.2 ⟨two.trans_eq length.symm,
      List.nodup_cons.2 ⟨fun h => ?_, nodup_instances c _⟩,
      List.forall_mem_cons.2 ⟨⟨rfl, normal_unknown⟩, fun x hx => normal_of_mem_instances hx⟩⟩, ?_⟩
    · obtain ⟨_, _, same⟩ := mem_instances h
      cases same
    · have forth : (inter ms).identical (inter (.unknown :: instances c (k + 1))) = true :=
        identical_inter_iff.2
          ⟨length.symm, fun m _ => ⟨.unknown, List.mem_cons_self, identical_unknown m⟩⟩
      rw [forth]
      intro back
      have first : Ty.cls c [] ∈ instances c (k + 1) :=
        List.mem_map.2 ⟨0, List.mem_range.2 (Nat.succ_pos k), rfl⟩
      obtain ⟨m, hm, same⟩ := (identical_inter_iff.1 back.symm).2 _ (List.mem_cons_of_mem _ first)
      rw [(apart hm (fun h => unknown (h ▸ hm)) _).2] at same
      cases same

/-- A normal type with an intersection in it compares differently with some type in the two
orders. -/
lemma exists_unlike (fresh : ¬a.Names c) (normal : a.Normal) (notFlat : ¬a.Flat) :
    ∃ b, b.Normal ∧ a.identical b ≠ b.identical a := by
  induction a using rec_members with
  | array e ih =>
    obtain ⟨e', hn, unlike⟩ := ih (not_names_of_mem fresh mem_subterms_array) normal
      fun flat => notFlat (everywhere_array.2 ⟨rfl, flat⟩)
    refine ⟨.array e', hn, ?_⟩
    rwa [identical, identical]
  | wildExtends u ih =>
    obtain ⟨u', hn, unlike⟩ := ih (not_names_of_mem fresh mem_subterms_wildExtends) normal
      fun flat => notFlat (everywhere_wildExtends.2 ⟨rfl, flat⟩)
    refine ⟨.wildExtends u', hn, ?_⟩
    rwa [identical, identical]
  | wildSuper l ih =>
    obtain ⟨l', hn, unlike⟩ := ih (not_names_of_mem fresh mem_subterms_wildSuper) normal
      fun flat => notFlat (everywhere_wildSuper.2 ⟨rfl, flat⟩)
    refine ⟨.wildSuper l', hn, ?_⟩
    rwa [identical, identical]
  | cls d args ih =>
    obtain ⟨x, hx, notFlat⟩ : ∃ x ∈ args, ¬x.Flat := by
      by_contra all
      push Not at all
      exact notFlat (everywhere_cls.2 ⟨rfl, all⟩)
    obtain ⟨y, hn, unlike⟩ := ih x hx (not_names_of_mem fresh (mem_subterms_cls hx))
      (normal_cls.1 normal x hx) notFlat
    -- Only the argument with an unlike partner is replaced, all others stay as they are.
    obtain ⟨l, r, rfl⟩ := List.append_of_mem hx
    refine ⟨.cls d (l ++ y :: r), normal_cls.2 (forall_mem_replace (normal_cls.1 normal) hn), ?_⟩
    rwa [identical_cls_replace, identical_cls_replace]
  | inter ms => exact exists_unlike_inter fresh normal
  | _ => exact absurd (everywhere_of_atom (P := fun s => s.isIntersection = false) rfl rfl) notFlat

end Flat

/-- A type that intersections do not occur in compares alike in the two orders with any type, and no
other type does. Among normal types with nothing unknown in intersections, all that a type is
identical to are identical to it just if in its intersections distinct members are not identical; so
identity is symmetric for types of which this holds. -/
theorem identical_symm_iff (normal : a.Normal) :
    ((∀ b, b.Normal → a.identical b = b.identical a) ↔ a.Flat) ∧
      (a.Settled →
        ((∀ b, b.Normal → b.Settled → a.identical b = true → b.identical a = true) ↔ a.Sharp) ∧
          (a.Sharp → ∀ b, b.Normal → b.Settled → b.Sharp → a.identical b = b.identical a)) := by
  obtain ⟨c, fresh⟩ := exists_not_names a
  refine ⟨⟨fun symm => ?_, fun flat b _ => flat.identical_comm b⟩,
    fun settled => ⟨⟨fun symm => ?_, fun sharp b _ hb => sharp.symm normal settled hb⟩, ?_⟩⟩
  · by_contra notFlat
    obtain ⟨b, hb, unlike⟩ := exists_unlike fresh normal notFlat
    exact unlike (symm b hb)
  · by_contra blunt
    obtain ⟨b, h⟩ := exists_unreturned fresh normal settled blunt
    have back := symm b h.normal h.settled h.forth
    rw [h.back] at back
    cases back
  · intro sharp b hn hb sharp'
    exact Bool.eq_iff_iff.2 ⟨sharp.symm normal settled hb, sharp'.symm hn hb settled⟩

/-- Lists of one intersection, written in two orders. -/
def crossed : List Ty :=
  [cls ⟨3⟩ [inter [cls ⟨1⟩ [], cls ⟨2⟩ []]], cls ⟨3⟩ [inter [cls ⟨2⟩ [], cls ⟨1⟩ []]]]

/-- A class type with an unknown argument compares alike in the two orders. So do intersections with
one of the two lists; what an intersection with both is identical to need not be identical to it.
-/
theorem identical_symm_iff_crossed :
    (∀ b, b.Normal → (cls ⟨3⟩ [unknown]).identical b = b.identical (cls ⟨3⟩ [unknown])) ∧
    (∀ m ∈ crossed, ∀ n ∈ crossed,
      (inter [m, cls ⟨4⟩ []]).identical (inter [cls ⟨4⟩ [], n]) =
        (inter [cls ⟨4⟩ [], n]).identical (inter [m, cls ⟨4⟩ []])) ∧
    (inter crossed).Normal ∧ (inter crossed).Settled ∧
    ¬∀ b, b.Normal → b.Settled → (inter crossed).identical b = true →
      b.identical (inter crossed) = true := by
  have normal : (inter crossed).Normal := by decide
  have settled : (inter crossed).Settled := by decide
  refine ⟨?_, fun m hm n hn => ?_, normal, settled, ?_⟩
  · have flat : (cls ⟨3⟩ [unknown]).Flat := by decide
    exact (identical_symm_iff (by decide)).1.2 flat
  · have left : ∀ m ∈ crossed, (inter [m, cls ⟨4⟩ []]).Normal ∧
        (inter [m, cls ⟨4⟩ []]).Settled ∧ (inter [m, cls ⟨4⟩ []]).Sharp := by decide
    have right : ∀ n ∈ crossed, (inter [cls ⟨4⟩ [], n]).Normal ∧
        (inter [cls ⟨4⟩ [], n]).Settled ∧ (inter [cls ⟨4⟩ [], n]).Sharp := by decide
    obtain ⟨normal, settled, sharp⟩ := left m hm
    obtain ⟨normal', settled', sharp'⟩ := right n hn
    exact ((identical_symm_iff normal).2 settled).2 sharp _ normal' settled' sharp'
  · have blunt : ¬(inter crossed).Sharp := by decide
    exact mt ((identical_symm_iff normal).2 settled).1.1 blunt

/-- Identity of normal types is not symmetric. -/
theorem identical_not_symm :
    ¬∀ a b : Ty, a.Normal → b.Normal → a.identical b = b.identical a := by
  intro symm
  have same := symm (inter crossed) (inter [cls ⟨3⟩ [inter [cls ⟨1⟩ [], cls ⟨2⟩ []]], cls ⟨4⟩ []])
    (by decide) (by decide)
  exact absurd same (by decide)

end LambdaTyping.Ty
