import LambdaTyping.Type.Basic
import Mathlib.Data.List.Induction
import Mathlib.Data.List.Nodup
import Mathlib.Tactic.Lemma

/-!
# Types in normal form

A type is normal if each intersection in it has two members or more, none of them twice and none an
intersection itself. A normal type is determined by its members (`Normal.eq_of_members`), and
`Ty.intersection` makes a normal type of normal types (`normal_intersection`).

The first section is about `eraseDups`, which an intersection applies to its members.
-/

namespace LambdaTyping

section EraseDups

variable {α β : Type} [BEq α] [LawfulBEq α] [BEq β] [LawfulBEq β]

/-- An element at the end is kept if it stands nowhere before. -/
lemma eraseDups_concat (xs : List α) (x : α) :
    (xs ++ [x]).eraseDups = if x ∈ xs then xs.eraseDups else xs.eraseDups ++ [x] := by
  rw [List.eraseDups_append]
  by_cases h : x ∈ xs
  · simp [List.removeAll, h]
  · simp [List.removeAll, h, List.eraseDups_cons]

/-- No element is left twice. -/
lemma nodup_eraseDups (xs : List α) : xs.eraseDups.Nodup := by
  induction xs using List.reverseRecOn with
  | nil => exact .nil
  | append_singleton xs x ih =>
    rw [eraseDups_concat]
    split
    · exact ih
    · rename_i fresh
      rw [← List.concat_eq_append]
      exact ih.concat (mt List.mem_eraseDups.1 fresh)

/-- Where no element stands twice, all are kept. -/
lemma eraseDups_of_nodup {xs : List α} (h : xs.Nodup) : xs.eraseDups = xs := by
  induction xs using List.reverseRecOn with
  | nil => rfl
  | append_singleton xs x ih =>
    obtain ⟨nodup, _, apart⟩ := List.nodup_append.1 h
    have fresh : x ∉ xs := fun hx => apart x hx x (List.mem_singleton_self x) rfl
    rw [eraseDups_concat, if_neg fresh, ih nodup]

/-- A choice among the elements may be made before or after repeated ones are dropped. -/
lemma eraseDups_filter (p : α → Bool) (xs : List α) :
    (xs.filter p).eraseDups = xs.eraseDups.filter p := by
  induction xs using List.reverseRecOn with
  | nil => rfl
  | append_singleton xs x ih =>
    rw [List.filter_append, eraseDups_concat]
    by_cases hp : p x = true
    · rw [List.filter_cons_of_pos hp, List.filter_nil, eraseDups_concat, ih]
      by_cases hx : x ∈ xs
      · simp [hx, hp]
      · simp [hx, hp]
    · rw [List.filter_cons_of_neg hp, List.filter_nil, List.append_nil, ih]
      by_cases hx : x ∈ xs
      · simp [hx]
      · simp [hx, hp]

/-- What two lists keep decides what they keep together. -/
lemma eraseDups_append_congr {xs xs' ys ys' : List α} (hx : xs.eraseDups = xs'.eraseDups)
    (hy : ys.eraseDups = ys'.eraseDups) : (xs ++ ys).eraseDups = (xs' ++ ys').eraseDups := by
  have mem (a : α) : a ∈ xs ↔ a ∈ xs' := by rw [← List.mem_eraseDups, hx, List.mem_eraseDups]
  rw [List.eraseDups_append, List.eraseDups_append, hx, List.removeAll, List.removeAll,
    eraseDups_filter, eraseDups_filter, hy]
  congr 2
  funext a
  simp [mem]

/-- A second list that brings nothing new is dropped. -/
lemma eraseDups_append_of_subset {xs ys : List α} (h : ys ⊆ xs) :
    (xs ++ ys).eraseDups = xs.eraseDups := by
  have none : ys.removeAll xs = [] := by
    rw [List.removeAll, List.filter_eq_nil_iff]
    intro y hy
    simp [h hy]
  rw [List.eraseDups_append, none, List.eraseDups_nil, List.append_nil]

/-- What the lists of a sequence keep decides what they keep together. -/
lemma eraseDups_flatMap_congr {ι : Type} {xs : List ι} {f g : ι → List α}
    (h : ∀ x ∈ xs, (f x).eraseDups = (g x).eraseDups) :
    (xs.flatMap f).eraseDups = (xs.flatMap g).eraseDups := by
  induction xs with
  | nil => rfl
  | cons x xs ih =>
    rw [List.flatMap_cons, List.flatMap_cons]
    refine eraseDups_append_congr (h x List.mem_cons_self) (ih fun y hy => ?_)
    exact h y (List.mem_cons_of_mem _ hy)

/-- What repeated elements bring a second time makes no difference. -/
lemma eraseDups_flatMap_eraseDups (xs : List α) (f : α → List β) :
    (xs.eraseDups.flatMap f).eraseDups = (xs.flatMap f).eraseDups := by
  induction xs using List.reverseRecOn with
  | nil => rfl
  | append_singleton xs x ih =>
    rw [eraseDups_concat, List.flatMap_append, List.flatMap_singleton]
    split
    · rename_i hx
      have again : f x ⊆ xs.flatMap f := fun b hb => List.mem_flatMap.2 ⟨x, hx, hb⟩
      rw [ih, eraseDups_append_of_subset again]
    · rw [List.flatMap_append, List.flatMap_singleton]
      exact eraseDups_append_congr ih rfl

end EraseDups

namespace Ty

/-- Whether the type is an intersection. -/
def isIntersection : Ty → Bool
  | .inter _ => true
  | _ => false

mutual

/-- Whether the type is in normal form. -/
def isNormal : Ty → Bool
  | .array e => isNormal e
  | .cls _ args => areNormal args
  | .wildExtends b => isNormal b
  | .wildSuper b => isNormal b
  | .inter ms => 2 ≤ ms.length && ms.Nodup && ms.all (fun m => !m.isIntersection) && areNormal ms
  | .void | .null | .unknown | .prim _ | .var _ | .wild => true

/-- Whether each type of a list is in normal form. -/
def areNormal : List Ty → Bool
  | [] => true
  | t :: ts => isNormal t && areNormal ts

end

/-- The type is in normal form: each intersection in it has two members or more, none of them twice
and none an intersection. -/
def Normal (t : Ty) : Prop :=
  t.isNormal = true

instance (t : Ty) : Decidable t.Normal :=
  inferInstanceAs (Decidable (_ = _))

/-- A list is in normal form if each of its types is. -/
lemma areNormal_iff {ts : List Ty} : areNormal ts = true ↔ ∀ t ∈ ts, t.Normal := by
  induction ts with
  | nil => simp [areNormal]
  | cons t ts ih => simp [areNormal, ih, Normal]

/-- The type `void` is normal. -/
@[simp] lemma normal_void : void.Normal := rfl

/-- The type of `null` is normal. -/
@[simp] lemma normal_null : null.Normal := rfl

/-- The unknown type is normal. -/
@[simp] lemma normal_unknown : unknown.Normal := rfl

/-- Primitive types are normal. -/
@[simp] lemma normal_prim (p : Primitive) : (prim p).Normal := rfl

/-- Type variables are normal. -/
@[simp] lemma normal_var (v : TypeVarId) : (var v).Normal := rfl

/-- The wildcard without a bound is normal. -/
@[simp] lemma normal_wild : wild.Normal := rfl

/-- An array is normal if its elements are. -/
@[simp] lemma normal_array {e : Ty} : (array e).Normal ↔ e.Normal := Iff.rfl

/-- A wildcard is normal if its upper bound is. -/
@[simp] lemma normal_wildExtends {b : Ty} : (wildExtends b).Normal ↔ b.Normal := Iff.rfl

/-- A wildcard is normal if its lower bound is. -/
@[simp] lemma normal_wildSuper {b : Ty} : (wildSuper b).Normal ↔ b.Normal := Iff.rfl

/-- A class type is normal if its arguments are. -/
@[simp] lemma normal_cls {c : ClassId} {args : List Ty} :
    (cls c args).Normal ↔ ∀ a ∈ args, a.Normal :=
  areNormal_iff

/-- An intersection is normal if it has two members or more, none twice, and they are normal types
other than intersections. -/
lemma normal_inter {ms : List Ty} :
    (inter ms).Normal ↔
      2 ≤ ms.length ∧ ms.Nodup ∧ ∀ m ∈ ms, m.isIntersection = false ∧ m.Normal := by
  simp only [Normal, isNormal, Bool.and_eq_true, areNormal_iff, decide_eq_true_eq,
    List.all_eq_true, Bool.not_eq_true', forall_and, and_assoc]

/-- A type that is no intersection is its own only member. -/
lemma members_of_not_intersection {t : Ty} (h : t.isIntersection = false) : t.members = [t] := by
  cases t with
  | inter ms => cases h
  | _ => rfl

/-- The members of a normal type are normal and no intersections. -/
lemma Normal.of_mem_members {t m : Ty} (h : t.Normal) (hm : m ∈ t.members) :
    m.isIntersection = false ∧ m.Normal := by
  by_cases ht : t.isIntersection = false
  · rw [members_of_not_intersection ht, List.mem_singleton] at hm
    subst hm
    exact ⟨ht, h⟩
  · cases t with
    | inter ms => exact (normal_inter.1 h).2.2 m hm
    | _ => exact absurd rfl ht

/-- A normal type has no member twice. -/
lemma Normal.nodup_members {t : Ty} (h : t.Normal) : t.members.Nodup := by
  cases t with
  | inter ms => exact (normal_inter.1 h).2.1
  | _ => exact List.nodup_singleton _

/-- A normal type has a member. -/
lemma Normal.members_ne_nil {t : Ty} (h : t.Normal) : t.members ≠ [] := by
  cases t with
  | inter ms =>
    rintro rfl
    exact absurd (normal_inter.1 h).1 (by decide)
  | _ => exact List.cons_ne_nil _ _

/-- Types that are no intersections are opened to themselves. -/
lemma flatMap_members {ms : List Ty} (h : ∀ m ∈ ms, m.isIntersection = false) :
    ms.flatMap members = ms := by
  induction ms with
  | nil => rfl
  | cons m ms ih =>
    rw [List.flatMap_cons, members_of_not_intersection (h m List.mem_cons_self),
      ih fun n hn => h n (List.mem_cons_of_mem _ hn), List.singleton_append]

/-- A normal type is the intersection of its members. -/
lemma Normal.intersection_members {t : Ty} (h : t.Normal) : intersection t.members = t := by
  have opened : (t.members.flatMap members).eraseDups = t.members := by
    rw [flatMap_members fun m hm => (h.of_mem_members hm).1, eraseDups_of_nodup h.nodup_members]
  rw [intersection, opened]
  cases t with
  | inter ms =>
    have two := (normal_inter.1 h).1
    match ms with
    | [] => exact absurd two (Nat.not_succ_le_zero _)
    | [m] => exact absurd two (Nat.not_succ_le_self _)
    | _ :: _ :: _ => rfl
  | _ => rfl

/-- Normal types with the same members in the same order are equal. -/
lemma Normal.eq_of_members {a b : Ty} (ha : a.Normal) (hb : b.Normal) (h : a.members = b.members) :
    a = b := by
  rw [← ha.intersection_members, h, hb.intersection_members]

section Intersection

variable {ts : List Ty}

/-- The opened types are the members of the types. -/
lemma mem_opened {m : Ty} : m ∈ (ts.flatMap members).eraseDups ↔ ∃ t ∈ ts, m ∈ t.members := by
  rw [List.mem_eraseDups, List.mem_flatMap]

/-- What an intersection shares with its members goes from some types to their intersection. -/
lemma intersection_of_forall {P : Ty → Prop} (unknown : P .unknown)
    (inter : ∀ ms, P (.inter ms) ↔ ∀ m ∈ ms, P m) (h : ∀ t ∈ ts, P t) : P (intersection ts) := by
  have opened : ∀ m ∈ (ts.flatMap members).eraseDups, P m := by
    intro m hm
    obtain ⟨t, ht, hm⟩ := mem_opened.1 hm
    cases t with
    | inter ms => exact (inter ms).1 (h _ ht) m hm
    | _ =>
      obtain rfl := List.mem_singleton.1 hm
      exact h _ ht
  unfold intersection
  split
  · exact unknown
  · rename_i m one
    rw [one] at opened
    exact opened m (List.mem_singleton_self m)
  · exact (inter _).2 opened

/-- Opening normal types gives normal types that are no intersections. -/
lemma not_intersection_of_mem_opened (h : ∀ t ∈ ts, t.Normal) {m : Ty}
    (hm : m ∈ (ts.flatMap members).eraseDups) : m.isIntersection = false ∧ m.Normal := by
  obtain ⟨t, ht, hm⟩ := mem_opened.1 hm
  exact (h t ht).of_mem_members hm

/-- The intersection of normal types has as members theirs, each at its first place. -/
lemma members_intersection (ne : ts ≠ []) (h : ∀ t ∈ ts, t.Normal) :
    (intersection ts).members = (ts.flatMap members).eraseDups := by
  have flat (m : Ty) (hm : m ∈ (ts.flatMap members).eraseDups) : m.isIntersection = false :=
    (not_intersection_of_mem_opened h hm).1
  unfold intersection
  split
  · rename_i none
    obtain ⟨t, ht⟩ := List.exists_mem_of_ne_nil _ ne
    obtain ⟨m, hm⟩ := List.exists_mem_of_ne_nil _ (h t ht).members_ne_nil
    have opened := mem_opened.2 ⟨t, ht, hm⟩
    rw [none] at opened
    exact absurd opened List.not_mem_nil
  · rename_i m one
    rw [one] at flat ⊢
    exact members_of_not_intersection (flat m (List.mem_singleton_self m))
  · rfl

/-- The intersection of normal types is normal. -/
lemma normal_intersection (h : ∀ t ∈ ts, t.Normal) : (intersection ts).Normal := by
  have opened (m : Ty) (hm : m ∈ (ts.flatMap members).eraseDups) :=
    not_intersection_of_mem_opened h hm
  have nodup := nodup_eraseDups (ts.flatMap members)
  unfold intersection
  split
  · exact normal_unknown
  · rename_i m one
    rw [one] at opened
    exact (opened m (List.mem_singleton_self m)).2
  · rename_i several notOne
    refine normal_inter.2 ⟨?_, nodup, opened⟩
    match ms : (ts.flatMap members).eraseDups with
    | [] => exact absurd ms several
    | [m] => exact absurd ms (notOne m)
    | _ :: _ :: _ => simp

/-- A list without repetitions whose elements are all one type is that type alone. -/
lemma eq_singleton_of_nodup {l : List Ty} {x : Ty} (nodup : l.Nodup) (ne : l ≠ [])
    (h : ∀ a ∈ l, a = x) : l = [x] := by
  have all : l = List.replicate l.length x := List.eq_replicate_of_mem h
  have short : l.length ≤ 1 := List.nodup_replicate.1 (all ▸ nodup)
  have one : l.length = 1 := Nat.le_antisymm short (List.length_pos_iff.2 ne)
  rw [all, one, List.replicate_one]

/-- The intersection of one type with itself is that type. -/
lemma intersection_of_forall_eq {x : Ty} (ne : ts ≠ []) (h : ∀ a ∈ ts, a = x)
    (flat : x.isIntersection = false) : intersection ts = x := by
  have opened : ts.flatMap members = ts :=
    flatMap_members fun a ha => by rw [h a ha, flat]
  have one : ts.eraseDups = [x] := by
    refine eq_singleton_of_nodup (nodup_eraseDups ts) ?_ fun a ha => h a (List.mem_eraseDups.1 ha)
    obtain ⟨a, as, rfl⟩ := List.exists_cons_of_ne_nil ne
    exact List.ne_nil_of_mem (List.mem_eraseDups.2 List.mem_cons_self)
  rw [intersection, opened, one]

/-- If normal types intersect to something that is no intersection, each of them is that. -/
lemma eq_intersection_of_mem (h : ∀ a ∈ ts, a.Normal)
    (flat : (intersection ts).isIntersection = false) {a : Ty} (ha : a ∈ ts) :
    a = intersection ts := by
  have whole := members_of_not_intersection flat
  refine (h a ha).eq_of_members (normal_intersection h) ?_
  rw [whole]
  refine eq_singleton_of_nodup (h a ha).nodup_members (h a ha).members_ne_nil fun m hm => ?_
  have mem : m ∈ (intersection ts).members := by
    rw [members_intersection (List.ne_nil_of_mem ha) h]
    exact mem_opened.2 ⟨a, ha, hm⟩
  rw [whole] at mem
  exact List.mem_singleton.1 mem

end Intersection

end Ty

end LambdaTyping
