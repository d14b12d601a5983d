import LambdaTyping.Proofs.Hierarchy.BreadthFirst

/-!
# Chains of overriding methods

A method that is overridden may be overridden by one that is itself overridden, and so on. Where no
class stands above itself such chains end (`exists_last_override`): `ProperlyBelow` is transitive
and asymmetric there, so of the methods that override a given one some is overridden by none. If
that one is abstract it is left to be implemented, and the candidates stand for it; so an abstract
method is without a candidate only if some method below it has a body
(`exists_candidate_or_body`).
-/

namespace LambdaTyping.ClassTable

variable {t : ClassTable}

/-- No class stands above itself, save `Object`, which does where it is taken for an interface. -/
def AcyclicBelowObject (t : ClassTable) : Prop :=
  ∀ c e, Relation.TransGen (fun a b => b ∈ t.parents a) c e → e.head = c.head →
    c.head = t.wellKnown.object

/-- A table where no class stands above itself is one where none but `Object` does. -/
lemma Acyclic.belowObject (h : t.Acyclic) : t.AcyclicBelowObject :=
  fun c e path same => absurd same (h c e path)

/-- A member overrides another: it is not static, and has the signature of the other and an owner
properly below that of the other. -/
structure Overrides (t : ClassTable) (n m : Member) : Prop where
  notStatic : n.kind ≠ .static
  same : n.signature.sameAs t m.signature
  below : t.ProperlyBelow n.signature.owner m.signature.owner

section Order

variable (isClass : ∀ d ∈ t.classes, ∀ s ∈ d.supertypes, s.asClass?.isSome = true)

include isClass

/-- The classes above a class type do not depend on its type arguments. -/
lemma exists_reaches_of_head_eq {c c' e : ClassTy} (reach : t.Reaches c e)
    (head : c'.head = c.head) : ∃ e', t.Reaches c' e' ∧ e'.head = e.head := by
  obtain ⟨q, hq, hhead⟩ := exists_mem_classClosure_of_reaches isClass reach
  have classes : (t.classClosure c').map ClassTy.head = (t.classClosure c).map ClassTy.head :=
    map_head_classClosure isClass head.symm
  have mem := List.mem_map_of_mem (f := ClassTy.head) hq
  rw [← classes] at mem
  obtain ⟨e', he', same⟩ := List.mem_map.1 mem
  exact ⟨e', reaches_of_mem_classClosure he', same.trans hhead⟩

/-- A class that stands properly below another has a path up to a third that the other has. -/
lemma ProperlyBelow.exists_path {a b c : ClassId} (ab : t.ProperlyBelow a b) {e : ClassTy}
    (reach : t.Reaches ⟨b, []⟩ e) (he : e.head = c) :
    ∃ e', Relation.TransGen (fun a b => b ∈ t.parents a) ⟨a, []⟩ e' ∧ e'.head = c := by
  obtain ⟨ne, f, hf, rfl⟩ := (properlyBelow_iff_reaches isClass).1 ab
  obtain ⟨e', he', same⟩ : ∃ e', t.Reaches f e' ∧ e'.head = e.head :=
    exists_reaches_of_head_eq isClass reach rfl
  rcases Relation.reflTransGen_iff_eq_or_transGen.1 hf with rfl | path
  · exact absurd rfl ne
  · exact ⟨e', path.trans_left he', same.trans he⟩

/-- A class is properly below all that its superclasses are properly below. -/
lemma ProperlyBelow.trans {a b c : ClassId} (ab : t.ProperlyBelow a b) (bc : t.ProperlyBelow b c)
    (ne : a ≠ c) : t.ProperlyBelow a c := by
  obtain ⟨-, e, reach, he⟩ := (properlyBelow_iff_reaches isClass).1 bc
  obtain ⟨e', path, he'⟩ := ab.exists_path isClass reach he
  exact (properlyBelow_iff_reaches isClass).2 ⟨ne, e', path.to_reflTransGen, he'⟩

/-- Where none but `Object` stands above itself, no other class is below one that is below it. -/
lemma ProperlyBelow.asymm {a b : ClassId} (acyclic : t.AcyclicBelowObject)
    (ab : t.ProperlyBelow a b) (ba : t.ProperlyBelow b a) : a = t.wellKnown.object := by
  obtain ⟨-, e, reach, he⟩ := (properlyBelow_iff_reaches isClass).1 ba
  obtain ⟨e', path, he'⟩ := ab.exists_path isClass reach he
  exact acyclic _ _ path he'

/-- Overriding is transitive. -/
lemma Overrides.trans {l n m : Member} (acyclic : t.AcyclicBelowObject)
    (object : l.signature.owner ≠ t.wellKnown.object) (ln : t.Overrides l n)
    (nm : t.Overrides n m) : t.Overrides l m := by
  refine ⟨ln.notStatic, Signature.sameAs_iff.2 ?_, ln.below.trans isClass nm.below fun e => ?_⟩
  · exact (Signature.sameAs_iff.1 ln.same).trans (Signature.sameAs_iff.1 nm.same)
  · exact object (ln.below.asymm isClass acyclic (e ▸ nm.below))

/-- A chain of members, each overriding the one before, ends in one that no member overrides. -/
lemma exists_last_override (acyclic : t.AcyclicBelowObject) {c : ClassId} {d : ClassDecl}
    {m : Member} (hm : m ∈ t.members c d) :
    ∃ n ∈ t.members c d, (n = m ∨ t.Overrides n m) ∧ ∀ l ∈ t.members c d, ¬t.Overrides l n := by
  let overrides (l n : {n // n ∈ t.members c d}) : Prop := t.Overrides l.1 n.1
  have : IsTrans _ overrides := ⟨fun l n m ln nm =>
    ln.trans isClass acyclic (owner_ne_object l.2) nm⟩
  have : Std.Irrefl overrides := ⟨fun n self => self.below.1 rfl⟩
  have : Finite {n // n ∈ t.members c d} := (t.members c d).finite_toSet
  have ends : WellFounded overrides := Finite.wellFounded_of_trans_of_irrefl _
  obtain ⟨⟨n, hn⟩, least, last⟩ :=
    ends.has_min {n | n.1 = m ∨ t.Overrides n.1 m} ⟨⟨m, hm⟩, .inl rfl⟩
  refine ⟨n, hn, least, fun l hl step => last ⟨l, hl⟩ (.inr ?_) step⟩
  rcases least with rfl | below
  · exact step
  · exact step.trans isClass acyclic (owner_ne_object hl) below

end Order

/-- An abstract method that nothing overrides is left open, unless `Object` has it. -/
lemma leftOpen_of_not_overridden {ms : List Member} {m : Member} (isAbstract : m.kind = .abstract)
    (notOfObject : ∀ o ∈ t.objectMethods, ¬o.sameAs t m.signature)
    (last : ∀ n ∈ ms, ¬t.Overrides n m) : t.LeftOpen ms m := by
  refine ⟨isAbstract, fun d hd o ho dynamic same => ?_, fun n hn dynamic same below => ?_⟩
  · obtain ⟨o, ho, same⟩ :=
      List.any_eq_true.1 (objectMethods_any_iff.2 ⟨d, hd, o, ho, dynamic, same⟩)
    exact notOfObject o ho same
  · exact last n hn ⟨dynamic, same, below⟩

/-- No abstract method is lost where no class stands above itself: either one candidate has its
signature, or a method with a body does whose owner stands properly below. -/
theorem exists_candidate_or_body (t : ClassTable)
    (isClass : ∀ d ∈ t.classes, ∀ s ∈ d.supertypes, s.asClass?.isSome = true)
    (acyclic : t.AcyclicBelowObject) {c : ClassId} {d : ClassDecl} (hd : t.class? c = some d)
    {cs : List Signature} (h : (t.candidates c).Gives (some cs)) {m : Member}
    (hm : m ∈ t.members c d) (isAbstract : m.kind = .abstract)
    (notOfObject : ∀ o ∈ t.objectMethods, ¬o.sameAs t m.signature) :
    (∃! k, k ∈ cs ∧ k.sameAs t m.signature) ∨
      ∃ n ∈ t.members c d, (n.kind = .default ∨ n.kind = .concrete) ∧
        n.signature.sameAs t m.signature ∧
        t.ProperlyBelow n.signature.owner m.signature.owner := by
  obtain ⟨n, hn, chain, last⟩ := exists_last_override isClass acyclic hm
  have same : n.signature.key t = m.signature.key t := by
    rcases chain with rfl | overrides
    · rfl
    · exact Signature.sameAs_iff.1 overrides.same
  by_cases abstr : n.kind = .abstract
  · -- The chain ends in an abstract method, which is left open.
    left
    have notOfObject : ∀ o ∈ t.objectMethods, ¬o.sameAs t n.signature := by
      intro o ho
      rw [Signature.sameAs_iff, same, ← Signature.sameAs_iff]
      exact notOfObject o ho
    have isOpen := leftOpen_of_not_overridden abstr notOfObject last
    have mem : n.signature ∈ t.leftOpen c d :=
      List.mem_map_of_mem (List.mem_filter.2 ⟨hn, decide_eq_true isOpen⟩)
    obtain ⟨k, ⟨hk, alike⟩, only⟩ := (represents_of_gives hd h).unique _ mem
    simp only [Signature.sameAs_iff, same] at alike only ⊢
    exact ⟨k, ⟨hk, alike.symm⟩, fun l ⟨hl, alike⟩ => only l ⟨hl, alike.symm⟩⟩
  · -- It ends in a method with a body.
    right
    rcases chain with rfl | overrides
    · exact absurd isAbstract abstr
    · refine ⟨n, hn, ?_, overrides.same, overrides.below⟩
      have dynamic := overrides.notStatic
      cases hk : n.kind with
      | abstract => exact absurd hk abstr
      | default => exact .inl rfl
      | static => exact absurd hk dynamic
      | concrete => exact .inr rfl

/-- `Object` and the interfaces `A { Object run(); Object stop(); }`,
`B extends A { Object run(); }`, `D extends A { default Object stop() {..} }` and
`E extends B, D { }`, in this order. -/
def redeclared : ClassTable where
  classes := #[
    ⟨"Object", .cls, [], none, [], []⟩,
    ⟨"A", .interface, [], none, [],
      [⟨"run", [], [], .cls ⟨0⟩ [], .abstract⟩, ⟨"stop", [], [], .cls ⟨0⟩ [], .abstract⟩]⟩,
    ⟨"B", .interface, [], none, [.cls ⟨1⟩ []], [⟨"run", [], [], .cls ⟨0⟩ [], .abstract⟩]⟩,
    ⟨"D", .interface, [], none, [.cls ⟨1⟩ []], [⟨"stop", [], [], .cls ⟨0⟩ [], .default⟩]⟩,
    ⟨"E", .interface, [], none, [.cls ⟨2⟩ [], .cls ⟨3⟩ []], []⟩]
  params := #[]
  index := ∅
  wellKnown := ⟨⟨0⟩, ⟨0⟩, ⟨0⟩, ⟨0⟩, ⟨0⟩, ⟨0⟩⟩

/-- In the redeclared hierarchy `run` has the candidate of `B`, and `stop` has a body in `D`. -/
theorem exists_candidate_or_body_redeclared :
    (∀ d ∈ redeclared.classes, ∀ s ∈ d.supertypes, s.asClass?.isSome = true) ∧
      redeclared.AcyclicBelowObject ∧
      ∃ d cs, redeclared.class? ⟨4⟩ = some d ∧ cs = [⟨⟨2⟩, "run", [], [], .cls ⟨0⟩ []⟩] ∧
        (redeclared.candidates ⟨4⟩).Gives (some cs) ∧
        ∀ m ∈ redeclared.members ⟨4⟩ d, m.kind = .abstract →
          (∀ o ∈ redeclared.objectMethods, ¬o.sameAs redeclared m.signature) ∧
            ((∃! k, k ∈ cs ∧ k.sameAs redeclared m.signature) ∨
              ∃ n ∈ redeclared.members ⟨4⟩ d, (n.kind = .default ∨ n.kind = .concrete) ∧
                n.signature.sameAs redeclared m.signature ∧
                redeclared.ProperlyBelow n.signature.owner m.signature.owner) := by
  have isClass : ∀ d ∈ redeclared.classes, ∀ s ∈ d.supertypes, s.asClass?.isSome = true := by
    decide +kernel
  have acyclic : redeclared.AcyclicBelowObject :=
    (acyclic_of_rank isClass ClassId.raw (by decide +kernel)).belowObject
  have gives : (redeclared.candidates ⟨4⟩).Gives (some [⟨⟨2⟩, "run", [], [], .cls ⟨0⟩ []⟩]) :=
    ⟨0, [], by cbv⟩
  have ofObject : redeclared.objectMethods = [] := rfl
  refine ⟨isClass, acyclic, _, _, rfl, rfl, gives, fun m hm isAbstract => ?_⟩
  have notOfObject : ∀ o ∈ redeclared.objectMethods, ¬o.sameAs redeclared m.signature := by
    rw [ofObject]
    exact fun o ho => absurd ho List.not_mem_nil
  exact ⟨notOfObject,
    exists_candidate_or_body redeclared isClass acyclic rfl gives hm isAbstract notOfObject⟩

end LambdaTyping.ClassTable
