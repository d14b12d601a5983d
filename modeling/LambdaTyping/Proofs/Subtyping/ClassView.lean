import LambdaTyping.Proofs.Subtyping.View

/-!
# Views of class types

A class type is viewed as the entry for the class in the walk up from it. Where declarations keep to
their own type parameters the walk commutes with substitution, and so do the views
(`closure_apply`). Where no class is inherited in two different instantiations, a view of a view is
the view itself (`view_of_view`).
-/

namespace LambdaTyping.ClassTable

variable {t : ClassTable} {s : Subst}

section Substitution

variable (isClass : ∀ d ∈ t.classes, ∀ s ∈ d.supertypes, s.asClass?.isSome = true)
  (normal : ∀ d ∈ t.classes, ∀ s ∈ d.supertypes, s.Normal)
  (inScope : ∀ d ∈ t.classes, ∀ s ∈ d.supertypes, s.ScopedIn d.typeParams)

include isClass normal inScope

/-- The closure of a substituted class type is the substituted closure. -/
lemma classClosure_rebuild (hs : s.Normal) {c : ClassTy} (hc : c.Normal) :
    t.classClosure (c.rebuild s) = (t.classClosure c).map (ClassTy.rebuild s) :=
  closureFrom_rebuild isClass normal inScope hs (List.forall_mem_singleton.2 hc)

/-- The views of a substituted class type are its substituted views. -/
lemma classView?_rebuild (hs : s.Normal) {c : ClassTy} (hc : c.Normal) (target : ClassId) :
    t.classView? (c.rebuild s) target = (t.classView? c target).map (ClassTy.rebuild s) := by
  rw [classView?, classClosure_rebuild isClass normal inScope hs hc, List.find?_map]
  rfl

/-- The walk up from a substituted class type meets the class types that the walk up from the class
type meets, substituted, in the same order. So the views of a substituted class type are its views,
substituted. -/
theorem closure_apply (hs : s.Normal) {c : ClassTy} (hc : c.toTy.Normal) :
    (t.closure (s.apply c.toTy)).map ClassTy.toTy =
        (t.closure c.toTy).map (fun e => s.apply e.toTy) ∧
      ∀ target, ∃ r, (t.view c.toTy target).Gives r ∧
        (t.view (s.apply c.toTy) target).Gives (r.map s.apply) := by
  have args : c.Normal := Ty.normal_cls.1 hc
  have applied {e : ClassTy} (he : e ∈ t.classClosure c) : s.apply e.toTy = (e.rebuild s).toTy := by
    have above : e.toTy.Normal := Ty.normal_cls.2 (normal_of_mem_classClosure normal args he)
    rw [Subst.apply_eq_rebuild above, ClassTy.toTy_rebuild]
  have self : s.apply c.toTy = (c.rebuild s).toTy := applied (t.self_mem_classClosure c)
  rw [self]
  refine ⟨?_, fun target => ⟨_, gives_view_toTy_iff.2 rfl, gives_view_toTy_iff.2 ?_⟩⟩
  · calc (t.classClosure (c.rebuild s)).map ClassTy.toTy
        = (t.classClosure c).map fun e => (e.rebuild s).toTy := by
          rw [classClosure_rebuild isClass normal inScope hs args, List.map_map]
          rfl
      _ = (t.classClosure c).map fun e => s.apply e.toTy :=
          List.map_congr_left fun e he => (applied he).symm
  · rw [classView?_rebuild isClass normal inScope hs args]
    cases view : t.classView? c target with
    | none => rfl
    | some e => exact congrArg some (applied (mem_of_classView? view).1).symm

end Substitution

/-- `Object`, `Mark`, `Cell<E>`, `Pair<A, B> extends Cell<A & B>`, `Half<T> extends Pair<T>`, which
leaves an argument out, and `Both<U> extends Half<U>, Cell<U & Unknown>`, which reaches `Cell` on
two ways. -/
def pairs : ClassTable where
  classes := #[
    ⟨"Object", .cls, [], none, [], []⟩,
    ⟨"Mark", .interface, [], none, [], []⟩,
    ⟨"Cell", .interface, [⟨0⟩], none, [], []⟩,
    ⟨"Pair", .interface, [⟨1⟩, ⟨2⟩], none, [.cls ⟨2⟩ [.inter [.var ⟨1⟩, .var ⟨2⟩]]], []⟩,
    ⟨"Half", .interface, [⟨3⟩], none, [.cls ⟨3⟩ [.var ⟨3⟩]], []⟩,
    ⟨"Both", .interface, [⟨4⟩], none,
      [.cls ⟨4⟩ [.var ⟨4⟩], .cls ⟨2⟩ [.inter [.var ⟨4⟩, .unknown]]], []⟩]
  params := #[⟨"E", [], none⟩, ⟨"A", [], none⟩, ⟨"B", [], none⟩, ⟨"T", [], none⟩, ⟨"U", [], none⟩,
    ⟨"X", [], none⟩, ⟨"Y", [], none⟩]
  index := ∅
  wellKnown := ⟨⟨0⟩, ⟨0⟩, ⟨0⟩, ⟨0⟩, ⟨0⟩, ⟨0⟩⟩

/-- `Mark` for both `X` and `Y`. -/
def marks : Subst :=
  .ofList [(⟨5⟩, .cls ⟨1⟩ []), (⟨6⟩, .cls ⟨1⟩ [])]

/-- The members of `Cell<X & Y>` become one. -/
theorem closure_apply_pairs :
    (∀ d ∈ pairs.classes, ∀ s ∈ d.supertypes, s.asClass?.isSome = true) ∧
      (∀ d ∈ pairs.classes, ∀ s ∈ d.supertypes, s.Normal) ∧
      (∀ d ∈ pairs.classes, ∀ s ∈ d.supertypes, s.ScopedIn d.typeParams) ∧
      marks.Normal ∧ (Ty.cls ⟨3⟩ [.var ⟨5⟩, .var ⟨6⟩]).Normal ∧
      (pairs.closure (marks.apply (.cls ⟨3⟩ [.var ⟨5⟩, .var ⟨6⟩]))).map ClassTy.toTy =
        [.cls ⟨3⟩ [.cls ⟨1⟩ [], .cls ⟨1⟩ []], .cls ⟨2⟩ [.cls ⟨1⟩ []], .cls ⟨0⟩ []] ∧
      ∃ r, (pairs.view (.cls ⟨3⟩ [.var ⟨5⟩, .var ⟨6⟩]) ⟨2⟩).Gives r ∧
        (pairs.view (marks.apply (.cls ⟨3⟩ [.var ⟨5⟩, .var ⟨6⟩])) ⟨2⟩).Gives
          (r.map marks.apply) := by
  have isClass : ∀ d ∈ pairs.classes, ∀ s ∈ d.supertypes, s.asClass?.isSome = true := by
    decide +kernel
  have normal : ∀ d ∈ pairs.classes, ∀ s ∈ d.supertypes, s.Normal := by decide +kernel
  have inScope : ∀ d ∈ pairs.classes, ∀ s ∈ d.supertypes, s.ScopedIn d.typeParams := by
    decide +kernel
  have hs : marks.Normal := Subst.normal_ofList (by decide)
  have hc : (Ty.cls ⟨3⟩ [.var ⟨5⟩, .var ⟨6⟩]).Normal := by decide
  obtain ⟨walk, views⟩ :=
    closure_apply isClass normal inScope hs (c := ⟨⟨3⟩, [.var ⟨5⟩, .var ⟨6⟩]⟩) hc
  refine ⟨isClass, normal, inScope, hs, hc, walk.trans ?_, views ⟨2⟩⟩
  cbv

/-- Where no class is inherited in two different instantiations, what a class type is viewed as
through one of its views it is viewed as directly. -/
theorem view_of_view {c : ClassTy} (once : t.InheritsOnce c) {middle target : ClassId} {u v : Ty}
    (hu : (t.view c.toTy middle).Gives (some u)) (hv : (t.view u target).Gives (some v)) :
    (t.view c.toTy target).Gives (some v) := by
  obtain ⟨e, he, rfl⟩ := Option.map_eq_some_iff.1 (gives_view_toTy_iff.1 hu)
  obtain ⟨f, hf, rfl⟩ := Option.map_eq_some_iff.1 (gives_view_toTy_iff.1 hv)
  have below : t.Reaches c e := reaches_of_mem_classClosure (mem_of_classView? he).1
  have above : t.Reaches e f := reaches_of_mem_classClosure (mem_of_classView? hf).1
  have direct : t.classView? c target = some f :=
    (classView?_eq_some_iff once).2 ⟨below.trans above, (mem_of_classView? hf).2⟩
  exact gives_view_of_classView? direct

/-- Of the wildcard `Both<?>` and the raw use `Both`: both ways to `Cell` lead to one type. -/
theorem view_of_view_pairs :
    pairs.InheritsOnce ⟨⟨5⟩, [.wild]⟩ ∧ pairs.InheritsOnce ⟨⟨5⟩, []⟩ ∧
      (pairs.view (.cls ⟨5⟩ [.wild]) ⟨3⟩).Gives (some (.cls ⟨3⟩ [.wild])) ∧
      (pairs.view (.cls ⟨3⟩ [.wild]) ⟨2⟩).Gives (some (.cls ⟨2⟩ [.inter [.wild, .unknown]])) ∧
      (pairs.view (.cls ⟨5⟩ [.wild]) ⟨2⟩).Gives (some (.cls ⟨2⟩ [.inter [.wild, .unknown]])) ∧
      (pairs.view (.cls ⟨5⟩ []) ⟨3⟩).Gives (some (.cls ⟨3⟩ [])) ∧
      (pairs.view (.cls ⟨3⟩ []) ⟨2⟩).Gives (some (.cls ⟨2⟩ [])) ∧
      (pairs.view (.cls ⟨5⟩ []) ⟨2⟩).Gives (some (.cls ⟨2⟩ [])) := by
  have wildWalk : pairs.classClosure ⟨⟨5⟩, [.wild]⟩ = [⟨⟨5⟩, [.wild]⟩, ⟨⟨4⟩, [.wild]⟩,
      ⟨⟨2⟩, [.inter [.wild, .unknown]]⟩, ⟨⟨0⟩, []⟩, ⟨⟨3⟩, [.wild]⟩] := by
    cbv
  have rawWalk : pairs.classClosure ⟨⟨5⟩, []⟩ =
      [⟨⟨5⟩, []⟩, ⟨⟨4⟩, []⟩, ⟨⟨2⟩, []⟩, ⟨⟨0⟩, []⟩, ⟨⟨3⟩, []⟩] := by
    cbv
  have wild : pairs.InheritsOnce ⟨⟨5⟩, [.wild]⟩ := by
    refine inheritsOnce_of_closed ?_
    rw [wildWalk]
    decide +kernel
  have raw : pairs.InheritsOnce ⟨⟨5⟩, []⟩ := by
    refine inheritsOnce_of_closed ?_
    rw [rawWalk]
    decide +kernel
  have wildPair : (pairs.view (.cls ⟨5⟩ [.wild]) ⟨3⟩).Gives (some (.cls ⟨3⟩ [.wild])) :=
    gives_view_toTy_iff (c := ⟨_, _⟩).2 (by cbv)
  have wildCell : (pairs.view (.cls ⟨3⟩ [.wild]) ⟨2⟩).Gives
      (some (.cls ⟨2⟩ [.inter [.wild, .unknown]])) :=
    gives_view_toTy_iff (c := ⟨_, _⟩).2 (by cbv)
  have rawPair : (pairs.view (.cls ⟨5⟩ []) ⟨3⟩).Gives (some (.cls ⟨3⟩ [])) :=
    gives_view_toTy_iff (c := ⟨_, _⟩).2 (by cbv)
  have rawCell : (pairs.view (.cls ⟨3⟩ []) ⟨2⟩).Gives (some (.cls ⟨2⟩ [])) :=
    gives_view_toTy_iff (c := ⟨_, _⟩).2 (by cbv)
  exact ⟨wild, raw, wildPair, wildCell, view_of_view wild wildPair wildCell, rawPair, rawCell,
    view_of_view raw rawPair rawCell⟩

end LambdaTyping.ClassTable
