import LambdaTyping.Proofs.Hierarchy.Reachability
import Mathlib

/-!
# Closures are found breadth first

`Walks` says what the rounds of the walk do with their queue. In every table, one with cycles or
with a class that stands above itself in ever larger instantiations included, the walk ends in the
closure after as many rounds as class types have entered the queue (`walks_closureFrom`), and
`BreadthFirst` holds of the closure. Where all supertypes are class types, the classes of a closure
are those of the raw use (`map_head_classClosure`).
-/

namespace LambdaTyping.ClassTable

variable {t : ClassTable}

/-- The walk from a queue, past the classes already seen, has come to its end after so many rounds
with these entries. Each round takes a class type off the queue. -/
inductive Walks (t : ClassTable) : Nat → List ClassId → List ClassTy → List ClassTy → Prop
  | done {seen : List ClassId} : Walks t 0 seen [] []
  | skip {n : Nat} {seen : List ClassId} {c : ClassTy} {queue es : List ClassTy} :
      c.head ∈ seen → Walks t n seen queue es → Walks t (n + 1) seen (c :: queue) es
  | visit {n : Nat} {seen : List ClassId} {c : ClassTy} {queue es : List ClassTy} :
      c.head ∉ seen → Walks t n (c.head :: seen) (queue ++ t.parents c) es →
      Walks t (n + 1) seen (c :: queue) (c :: es)

/-- The class types of a list whose classes do not come before. -/
def firstOfEach (seen : List ClassId) : List ClassTy → List ClassTy
  | [] => []
  | c :: cs => if c.head ∈ seen then firstOfEach seen cs else c :: firstOfEach (c.head :: seen) cs

/-- The entries `es` are found breadth first from a class type. -/
structure BreadthFirst (t : ClassTable) (c : ClassTy) (es : List ClassTy) : Prop where
  first : es.head? = some c
  distinct : (es.map ClassTy.head).Nodup
  /-- Each later entry stands directly above an earlier one. -/
  found : ∀ before e after, es = before ++ e :: after → before ≠ [] →
    ∃ b ∈ before, t.DirectlyAbove b e
  /-- The classes directly above an entry have entries. -/
  complete : ∀ e ∈ es, ∀ p, t.DirectlyAbove e p → ∃ q ∈ es, q.head = p.head
  /-- After the first come the class types directly above each entry in turn. -/
  ordered : es = firstOfEach [] (c :: es.flatMap t.parents)

section Walk

/-- The walk ends: each round takes off the queue what was there from the beginning or has come in
with an entry. -/
lemma walks_closureFrom (t : ClassTable) (seen : List ClassId) (queue : List ClassTy) :
    t.Walks (queue.length + ((t.closureFrom seen queue).map fun e => (t.parents e).length).sum) seen
      queue (t.closureFrom seen queue) := by
  fun_induction closureFrom t seen queue with
  | case1 => exact .done
  | case2 seen c queue met ih =>
    rw [List.length_cons, Nat.add_right_comm]
    exact .skip met ih
  | case3 seen c queue fresh ih =>
    rw [List.length_append, Nat.add_assoc] at ih
    rw [List.length_cons, Nat.add_right_comm, List.map_cons, List.sum_cons]
    exact .visit fresh ih

/-- What the walk meets was in its queue or stands directly above something met before. -/
lemma mem_queue_or_parents {seen : List ClassId} {queue before after : List ClassTy} {e : ClassTy}
    (h : t.closureFrom seen queue = before ++ e :: after) :
    e ∈ queue ∨ ∃ b ∈ before, e ∈ t.parents b := by
  fun_induction closureFrom t seen queue generalizing before with
  | case1 => cases before with
    | nil => cases h
    | cons => cases h
  | case2 seen c queue met ih =>
    rcases ih h with queued | above
    · exact .inl (List.mem_cons_of_mem _ queued)
    · exact .inr above
  | case3 seen c queue fresh ih =>
    cases before with
    | nil =>
      cases h
      exact .inl List.mem_cons_self
    | cons b before =>
      obtain ⟨rfl, rest⟩ := List.cons.inj h
      rcases ih rest with queued | ⟨b', hb', he⟩
      · rcases List.mem_append.1 queued with queued | above
        · exact .inl (List.mem_cons_of_mem _ queued)
        · exact .inr ⟨c, List.mem_cons_self, above⟩
      · exact .inr ⟨b', List.mem_cons_of_mem _ hb', he⟩

/-- The walk meets its queue, then what stands directly above what it meets, each class once. -/
lemma closureFrom_eq_firstOfEach (t : ClassTable) (seen : List ClassId) (queue : List ClassTy) :
    t.closureFrom seen queue =
      firstOfEach seen (queue ++ (t.closureFrom seen queue).flatMap t.parents) := by
  fun_induction closureFrom t seen queue with
  | case1 => rfl
  | case2 seen c queue met ih => rwa [List.cons_append, firstOfEach, if_pos met]
  | case3 seen c queue fresh ih =>
    rw [List.cons_append, firstOfEach, if_neg fresh, List.flatMap_cons, ← List.append_assoc, ← ih]

/-- The classes above a class type do not depend on its type arguments. -/
lemma map_head_classClosure
    (isClass : ∀ d ∈ t.classes, ∀ s ∈ d.supertypes, s.asClass?.isSome = true) {c c' : ClassTy}
    (head : c'.head = c.head) :
    (t.classClosure c).map ClassTy.head = (t.classClosure c').map ClassTy.head := by
  have sameHeads {cs cs' : List ClassTy} :
      List.Forall₂ (fun c c' => c'.head = c.head) cs cs' ↔
        cs.map ClassTy.head = cs'.map ClassTy.head := by
    rw [← List.forall₂_eq_eq_eq, List.forall₂_map_left_iff, List.forall₂_map_right_iff]
    simp only [eq_comm]
  refine sameHeads.1 (closureFrom_rel (fun _ _ => id) (fun c c' head => sameHeads.2 ?_)
    (.cons head .nil))
  cases hd : t.class? c.head with
  | none => rw [parents_of_undeclared hd, parents_of_undeclared (head ▸ hd)]
  | some d => rw [map_head_parents isClass hd, map_head_parents isClass (head ▸ hd)]

end Walk

/-- The closure of a class type is found breadth first. -/
lemma breadthFirst_classClosure (t : ClassTable) (c : ClassTy) :
    t.BreadthFirst c (t.classClosure c) := by
  have distinct : ((t.classClosure c).map ClassTy.head).Nodup := t.nodup_closureFrom [] [c]
  have begins : ∃ es, t.classClosure c = c :: es := by
    rw [classClosure, closureFrom, if_neg List.not_mem_nil]
    exact ⟨_, rfl⟩
  obtain ⟨es, whole⟩ := begins
  refine ⟨by rw [whole]; rfl, distinct, fun before e after split later => ?_,
    fun e he p hp => exists_mem_classClosure_of_parent he (mem_parents_iff.2 hp),
    t.closureFrom_eq_firstOfEach [] [c]⟩
  rcases mem_queue_or_parents split with queued | ⟨b, hb, he⟩
  · -- The class type itself has its entry at the beginning, and only there.
    obtain rfl := List.mem_singleton.1 queued
    obtain ⟨b, before, rfl⟩ := List.exists_cons_of_ne_nil later
    obtain ⟨rfl, -⟩ := List.cons.inj (split.symm.trans whole)
    rw [split, List.cons_append, List.map_cons, List.nodup_cons] at distinct
    refine absurd (List.mem_map_of_mem ?_) distinct.1
    exact List.mem_append_right _ List.mem_cons_self
  · exact ⟨b, hb, mem_parents_iff.1 he⟩

/-- In every table the walk from a class type ends, with entries found breadth first; if all
declared supertypes are class types, it meets the same classes for all type arguments. -/
theorem closure_breadth_first (t : ClassTable) :
    (∀ c : ClassTy,
      t.Walks (1 + ((t.closure c.toTy).map fun e => (t.parents e).length).sum) [] [c]
          (t.closure c.toTy) ∧
        t.BreadthFirst c (t.closure c.toTy)) ∧
      ((∀ d ∈ t.classes, ∀ s ∈ d.supertypes, s.asClass?.isSome = true) →
        ∀ c args args', (t.closure (.cls c args)).map ClassTy.head =
          (t.closure (.cls c args')).map ClassTy.head) :=
  ⟨fun c => ⟨t.walks_closureFrom [] [c], t.breadthFirst_classClosure c⟩,
    fun isClass _ _ _ => map_head_classClosure isClass rfl⟩

/-- `Object`, `List<E>`, and the interfaces `A<T> extends A<List<T>>, B<T>`, which stands above
itself in ever larger instantiations, and `B<U> extends A<U>, M`, where `M` is not declared. -/
def endless : ClassTable where
  classes := #[
    ⟨"Object", .cls, [], none, [], []⟩,
    ⟨"List", .interface, [⟨0⟩], none, [], []⟩,
    ⟨"A", .interface, [⟨1⟩], none, [.cls ⟨2⟩ [.cls ⟨1⟩ [.var ⟨1⟩]], .cls ⟨3⟩ [.var ⟨1⟩]], []⟩,
    ⟨"B", .interface, [⟨2⟩], none, [.cls ⟨2⟩ [.var ⟨2⟩], .cls ⟨4⟩ []], []⟩]
  params := #[⟨"E", [], none⟩, ⟨"T", [], none⟩, ⟨"U", [], none⟩]
  index := ∅
  wellKnown := ⟨⟨0⟩, ⟨0⟩, ⟨0⟩, ⟨0⟩, ⟨0⟩, ⟨0⟩⟩

/-- The closure of `A` in the endless hierarchy takes seven rounds and has four entries. -/
theorem closure_breadth_first_endless :
    (∀ d ∈ endless.classes, ∀ s ∈ d.supertypes, s.asClass?.isSome = true) ∧
      endless.Walks 7 [] [⟨⟨2⟩, [.var ⟨0⟩]⟩]
        [⟨⟨2⟩, [.var ⟨0⟩]⟩, ⟨⟨3⟩, [.var ⟨0⟩]⟩, ⟨⟨0⟩, []⟩, ⟨⟨4⟩, []⟩] ∧
      (endless.closure (.cls ⟨2⟩ [])).map ClassTy.head = [⟨2⟩, ⟨3⟩, ⟨0⟩, ⟨4⟩] := by
  have isClass : ∀ d ∈ endless.classes, ∀ s ∈ d.supertypes, s.asClass?.isSome = true := by
    decide +kernel
  have entries : endless.closure (.cls ⟨2⟩ [.var ⟨0⟩]) =
      [⟨⟨2⟩, [.var ⟨0⟩]⟩, ⟨⟨3⟩, [.var ⟨0⟩]⟩, ⟨⟨0⟩, []⟩, ⟨⟨4⟩, []⟩] := by
    cbv
  obtain ⟨walks, same⟩ := closure_breadth_first endless
  refine ⟨isClass, ?_, ?_⟩
  · have ends := (walks ⟨⟨2⟩, [.var ⟨0⟩]⟩).1
    have rounds : 1 + ((endless.closure (.cls ⟨2⟩ [.var ⟨0⟩])).map
        fun e => (endless.parents e).length).sum = 7 := by
      cbv
    rwa [ClassTy.toTy, rounds, entries] at ends
  · rw [same isClass ⟨2⟩ [] [.var ⟨0⟩], entries]
    rfl

end LambdaTyping.ClassTable
