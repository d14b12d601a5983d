import LambdaTyping.Proofs.Type.NormalForm
import Mathlib.Data.List.Basic
import Mathlib.Data.List.Sort

/-!
# Intersections as ordered unions

`FirstOccurrences xs ms` says that `ms` has what is in `xs` in the order in which it first stands
there, without mentioning how it is found: one element more in `xs` either stands in `ms` already or
comes at its end (`FirstOccurrences.concat`), so that `xs.eraseDups` is the one such list. An
intersection of normal types has the first occurrences of their members as its own, and it makes no
difference which of the types are intersected beforehand (`Ty.intersection_regroup`).
-/

namespace LambdaTyping

/-- The elements of `ms` are those of `xs`, in the order in which they first stand there. -/
structure FirstOccurrences {α : Type} [BEq α] (xs ms : List α) : Prop where
  mem : ∀ x, x ∈ ms ↔ x ∈ xs
  ordered : ms.Pairwise fun x y => xs.idxOf x < xs.idxOf y

section FirstOccurrences

variable {α : Type} [BEq α] [LawfulBEq α] {xs ms : List α}

/-- What has been gathered stays in order when one element more is looked at. -/
lemma FirstOccurrences.concat (h : FirstOccurrences xs ms) (x : α) :
    FirstOccurrences (xs ++ [x]) (if x ∈ ms then ms else ms ++ [x]) := by
  -- What has been gathered has its first place before the new element.
  have place {y : α} (hy : y ∈ ms) : (xs ++ [x]).idxOf y = xs.idxOf y :=
    List.idxOf_append_of_mem ((h.mem y).1 hy)
  have ordered : ms.Pairwise fun y z => (xs ++ [x]).idxOf y < (xs ++ [x]).idxOf z :=
    h.ordered.imp_of_mem fun hy hz lt => by rwa [place hy, place hz]
  split
  · rename_i met
    refine ⟨fun y => ?_, ordered⟩
    rw [h.mem, List.mem_append, List.mem_singleton, or_iff_left_of_imp]
    rintro rfl
    exact (h.mem y).1 met
  · rename_i fresh
    refine ⟨fun y => by rw [List.mem_append, List.mem_append, h.mem], ?_⟩
    refine List.pairwise_append.2 ⟨ordered, List.pairwise_singleton _ _, fun y hy z hz => ?_⟩
    rw [List.mem_singleton.1 hz, place hy, List.idxOf_append_of_notMem (mt (h.mem x).2 fresh)]
    exact Nat.lt_add_right _ (List.idxOf_lt_length_iff.2 ((h.mem y).1 hy))

/-- Dropping repeated elements leaves the first occurrences. -/
lemma firstOccurrences_eraseDups (xs : List α) : FirstOccurrences xs xs.eraseDups := by
  induction xs using List.reverseRecOn with
  | nil => exact ⟨fun _ => Iff.rfl, .nil⟩
  | append_singleton xs x ih =>
    have step := ih.concat x
    simp only [List.mem_eraseDups] at step
    rwa [eraseDups_concat]

/-- A list has one list of first occurrences. -/
lemma firstOccurrences_iff : FirstOccurrences xs ms ↔ xs.eraseDups = ms := by
  have found := firstOccurrences_eraseDups xs
  constructor
  · intro h
    exact found.ordered.eq_of_mem_iff h.ordered fun x => (found.mem x).trans (h.mem x).symm
  · rintro rfl
    exact found

end FirstOccurrences

namespace Ty

variable {xs ys : List Ty}

/-- What is found in opening the types decides their intersection. -/
lemma intersection_congr
    (h : (xs.flatMap members).eraseDups = (ys.flatMap members).eraseDups) :
    intersection xs = intersection ys := by
  unfold intersection
  rw [h]

/-- Some types in a row may be intersected before the others. -/
lemma intersection_regroup (xs zs : List Ty) (ne : ys ≠ []) (h : ∀ y ∈ ys, y.Normal) :
    intersection (xs ++ [intersection ys] ++ zs) = intersection (xs ++ ys ++ zs) := by
  refine intersection_congr ?_
  simp only [List.flatMap_append, List.flatMap_singleton]
  refine eraseDups_append_congr (eraseDups_append_congr rfl ?_) rfl
  rw [members_intersection ne h, eraseDups_of_nodup (nodup_eraseDups _)]

/-- The members of an intersection of normal types are the first occurrences, in order, of what the
types are intersections of, and they are two or more where it is an intersection itself. It is the
intersection of its own members, and of types in a row the first ones or the last ones may be
intersected beforehand. -/
theorem intersection_orderedUnion (hx : ∀ x ∈ xs, x.Normal) (hy : ∀ y ∈ ys, y.Normal) :
    (xs ≠ [] → ∀ ms, FirstOccurrences (xs.flatMap members) ms ↔ (intersection xs).members = ms) ∧
      (∀ ms, intersection xs = .inter ms → 2 ≤ ms.length) ∧
      intersection (intersection xs).members = intersection xs ∧
      (xs ≠ [] → intersection ([intersection xs] ++ ys) = intersection (xs ++ ys)) ∧
      (ys ≠ [] → intersection (xs ++ [intersection ys]) = intersection (xs ++ ys)) := by
  have normal := normal_intersection hx
  refine ⟨fun ne ms => ?_, fun ms several => ?_, normal.intersection_members,
    fun ne => intersection_regroup [] ys ne hx, fun ne => ?_⟩
  · rw [firstOccurrences_iff, members_intersection ne hx]
  · rw [several] at normal
    exact (normal_inter.1 normal).1
  · have last := intersection_regroup xs [] ne hy
    rwa [List.append_nil, List.append_nil] at last

/-- `A` and `A & B` fall into `A & B`, which `B & C` and `A` make `A & B & C`. -/
theorem intersection_orderedUnion_overlapping :
    let a : Ty := .cls ⟨0⟩ []
    let b : Ty := .cls ⟨1⟩ []
    let c : Ty := .cls ⟨2⟩ []
    let xs := [a, .inter [a, b]]
    let ys := [.inter [b, c], a]
    (∀ x ∈ xs, x.Normal) ∧ (∀ y ∈ ys, y.Normal) ∧
      FirstOccurrences [a, a, b] [a, b] ∧ intersection xs = .inter [a, b] ∧
      intersection [a, b] = .inter [a, b] ∧
      intersection [.inter [a, b], .inter [b, c], a] = .inter [a, b, c] ∧
      intersection [a, .inter [a, b], .inter [b, c, a]] = .inter [a, b, c] := by
  intro a b c xs ys
  have hx : ∀ x ∈ xs, x.Normal := by decide
  have hy : ∀ y ∈ ys, y.Normal := by decide
  obtain ⟨first, -, again, left, right⟩ := intersection_orderedUnion hx hy
  have whole : intersection (xs ++ ys) = .inter [a, b, c] := by decide
  have joinX : intersection xs = .inter [a, b] := by decide
  have joinY : intersection ys = .inter [b, c, a] := by decide
  rw [joinX] at first again left
  rw [joinY] at right
  exact ⟨hx, hy, (first (List.cons_ne_nil _ _) [a, b]).2 rfl, joinX, again,
    (left (List.cons_ne_nil _ _)).trans whole, (right (List.cons_ne_nil _ _)).trans whole⟩

end Ty

end LambdaTyping
