import LambdaTyping.Proofs.Subtyping.Conversion
import LambdaTyping.Proofs.Subtyping.Transitivity

/-!
# Compatibility with unknown types

A type of which less is known fits wherever the type fits (`compatible_of_forgets`): it is identical
to the same types whatever is forgotten, and below and assignable to the same types as long as
nothing is forgotten that the rules compare strictly. Where they do, what was compatible no longer
is (`not_compatible_brittle`).
-/

namespace LambdaTyping

namespace ClassTable

variable {t : ClassTable} {a a' b b' : Ty}

/-- Types that are identical stay so whatever is forgotten of either. A type below another, or
assignable to it, stays so as far as `Tolerates` goes: the question has no other answer, and it has
this answer if it never leaves a choice. -/
theorem compatible_of_forgets (t : ClassTable) (ha : a.Forgets (fun _ _ => True) a')
    (hb : b.Forgets (fun _ _ => True) b') :
    (a.identical b = true → a'.identical b' = true) ∧
      (t.Steady → t.Coarser a a' → t.Coarser b b' →
        ((t.subtype a b).Gives true →
          (∀ r, (t.subtype a' b').Gives r → r = true) ∧
            (t.Straight → a'.Flat → b'.Flat → (t.subtype a' b').Gives true)) ∧
        ((t.assignable a b).Gives true →
          (∀ r, (t.assignable a' b').Gives r → r = true) ∧
            (t.Straight → a'.Flat → b'.Flat → (t.assignable a' b').Gives true))) := by
  refine ⟨fun same => Ty.identical_forget same ha hb, fun steady coarser coarser' => ⟨?_, ?_⟩⟩
  · intro h
    have below := below_forget steady ((gives_subtype h).1 rfl) coarser coarser'
    refine ⟨fun r answer => (gives_subtype answer).2 below, fun straight flat flat' => ?_⟩
    exact gives_of_below_of_flat straight steady.isClass flat flat' below
  · intro h
    have converts := converts_forget steady ((gives_assignable h).1 rfl) coarser coarser'
    refine ⟨fun r answer => (gives_assignable answer).2 converts, fun straight flat flat' => ?_⟩
    exact gives_assignable_of_converts straight steady.isClass flat flat' converts

section Platform

/-- `ArrayList<Integer>` is below `List<? extends Number>`, and so is an `ArrayList` of unknown
elements below a `List` of elements with an unknown bound. -/
theorem compatible_of_forgets_integers :
    let list : Ty := .cls ⟨21⟩ [.unknown]
    let bounded : Ty := .cls ⟨20⟩ [.wildExtends .unknown]
    integers.Forgets (fun _ _ => True) list ∧ numbers.Forgets (fun _ _ => True) bounded ∧
      platform.Steady ∧ platform.Coarser integers list ∧ platform.Coarser numbers bounded ∧
      (platform.subtype integers numbers).Gives true ∧ platform.Straight ∧ list.Flat ∧
      bounded.Flat ∧ (platform.subtype list bounded).Gives true := by
  intro list bounded
  have anywhere : integers.Forgets (fun _ _ => True) list := .cls (.cons (.all _) .nil)
  have anywhere' : numbers.Forgets (fun _ _ => True) bounded :=
    .cls (.cons (.wildExtends (.all _) trivial) .nil)
  have steady : platform.Steady := by decide +kernel
  have coarser : platform.Coarser integers list := ⟨.cls (.cons (.all _) .nil), .inr rfl⟩
  have coarser' : platform.Coarser numbers bounded :=
    ⟨.cls (.cons (.wildExtends (.all _) ⟨fun _ => rfl, rfl⟩) .nil), .inr rfl⟩
  have below : (platform.subtype integers numbers).Gives true := ⟨3, [], by cbv⟩
  have straight : platform.Straight := linear_platform.straight lowerBound?_platform
  have flat : list.Flat := by decide
  have flat' : bounded.Flat := by decide
  obtain ⟨_, kept⟩ := compatible_of_forgets platform anywhere anywhere'
  obtain ⟨_, answered⟩ := (kept steady coarser coarser').1 below
  exact ⟨anywhere, anywhere', steady, coarser, coarser', below, straight, flat, flat',
    answered straight flat flat'⟩

end Platform

section Brittle

/-- Two types, and the same types with some parts forgotten. -/
structure Loss where
  sub : Ty
  sup : Ty
  sub' : Ty
  sup' : Ty
  forgets : sub.Forgets (fun _ _ => True) sub'
  forgets' : sup.Forgets (fun _ _ => True) sup'

/-- `Object`, `String`, `List<E>`, `B<X>`, `H<T> extends T`, `A<T> extends B<T[]>`,
`W<T> extends B<List<? extends T>>`, `I<T, U> extends B<T & U>` and `C extends B<B<? super C>>`. -/
def brittle : ClassTable where
  classes := #[
    ⟨"Object", .cls, [], none, [], []⟩,
    ⟨"String", .cls, [], some (.cls ⟨0⟩ []), [], []⟩,
    ⟨"List", .interface, [⟨0⟩], none, [], []⟩,
    ⟨"B", .interface, [⟨1⟩], none, [], []⟩,
    ⟨"H", .interface, [⟨2⟩], none, [.var ⟨2⟩], []⟩,
    ⟨"A", .interface, [⟨2⟩], none, [.cls ⟨3⟩ [.array (.var ⟨2⟩)]], []⟩,
    ⟨"W", .interface, [⟨2⟩], none, [.cls ⟨3⟩ [.cls ⟨2⟩ [.wildExtends (.var ⟨2⟩)]]], []⟩,
    ⟨"I", .interface, [⟨2⟩, ⟨3⟩], none, [.cls ⟨3⟩ [.inter [.var ⟨2⟩, .var ⟨3⟩]]], []⟩,
    ⟨"C", .interface, [], none, [.cls ⟨3⟩ [.cls ⟨3⟩ [.wildSuper (.cls ⟨8⟩ [])]]], []⟩]
  params := #[⟨"E", [], none⟩, ⟨"X", [], none⟩, ⟨"T", [], none⟩, ⟨"U", [], none⟩]
  index := ∅
  wellKnown := ⟨⟨0⟩, ⟨1⟩, ⟨0⟩, ⟨0⟩, ⟨0⟩, ⟨0⟩⟩

namespace Brittle

private def object : Ty := .cls ⟨0⟩ []
private def string : Ty := .cls ⟨1⟩ []
private def list (arg : Ty) : Ty := .cls ⟨2⟩ [arg]
private def base (arg : Ty) : Ty := .cls ⟨3⟩ [arg]

/-- What is forgotten here breaks what was compatible. -/
def losses : List Loss := [
  -- Arrays whose elements are no reference types are below equal arrays only.
  ⟨.array (.prim .int), .array (.prim .int), .array (.prim .int), .array .unknown, .same _,
    .array (.all _) trivial⟩,
  ⟨.array string, .array object, .array .unknown, .array object, .array (.all _) trivial, .same _⟩,
  -- A wildcard is included where the bound is `Object`, and not where it is unknown.
  ⟨list .wild, list (.wildExtends object), list .wild, list (.wildExtends .unknown), .same _,
    .cls (.cons (.wildExtends (.all _) trivial) .nil)⟩,
  -- Nothing but the whole intersection is below one that has a primitive type as a member.
  ⟨.inter [.prim .int, string], .inter [.prim .int, string], .inter [.prim .int, string],
    .inter [.prim .int, .unknown], .same _, .inter (.cons (.same _) (.cons (.all _) .nil)) trivial⟩,
  -- What stands above a class type comes to be such a type, or is lost, by what is put in.
  ⟨.cls ⟨4⟩ [string], string, .cls ⟨4⟩ [.unknown], string, .cls (.cons (.all _) .nil), .same _⟩,
  ⟨.cls ⟨5⟩ [string], base (.wildExtends (.array object)), .cls ⟨5⟩ [.unknown],
    base (.wildExtends (.array object)), .cls (.cons (.all _) .nil), .same _⟩,
  ⟨.cls ⟨6⟩ [object], base (.wildSuper (list .wild)), .cls ⟨6⟩ [.unknown],
    base (.wildSuper (list .wild)), .cls (.cons (.all _) .nil), .same _⟩,
  ⟨.cls ⟨7⟩ [string, string], base string, .cls ⟨7⟩ [string, .unknown], base string,
    .cls (.cons (.same _) (.cons (.all _) .nil)), .same _⟩]

/-- The class `C`. -/
private def circular : Ty := .cls ⟨8⟩ []

/-- `B<? super C>`, which is above `C` by what `C` extends. -/
private def aboveCircular : Ty := base (.wildSuper circular)

/-- What is forgotten here sends the question round in circles: `C` is not below `String`, and the
answer for the second member of the intersection is found; but if `C` is below the unknown type it
is asked whether it is below `B<? super C>`. -/
def knot : Loss where
  sub := .inter [base circular, base (.inter [string, aboveCircular])]
  sup := base (.wildExtends (.inter [string, aboveCircular]))
  sub' := .inter [base circular, base (.inter [string, aboveCircular])]
  sup' := base (.wildExtends (.inter [.unknown, aboveCircular]))
  forgets := .same _
  forgets' := .cls (.cons (.wildExtends (.inter (.cons (.all _) (.cons (.same _) .nil)) trivial)
    trivial) .nil)

end Brittle

/-- The question tied in a knot asks itself, so it has no end. -/
lemma not_ends_brittle_knot : ¬(brittle.subtype Brittle.knot.sub' Brittle.knot.sup').Ends := by
  have circle : brittle.subtypePlan Brittle.circular Brittle.aboveCircular =
      .every [.subtype Brittle.circular Brittle.aboveCircular] := by
    cbv
  have member : brittle.subtypePlan (Brittle.base Brittle.circular) Brittle.knot.sup' =
      .every [.subtype Brittle.circular (.inter [.unknown, Brittle.aboveCircular])] := by
    cbv
  have each : brittle.subtypePlan Brittle.circular (.inter [.unknown, Brittle.aboveCircular]) =
      .every [.subtype Brittle.circular .unknown,
        .subtype Brittle.circular Brittle.aboveCircular] := by
    cbv
  rintro ⟨r, h⟩
  rw [gives_subtype_iff, Brittle.knot, subtypePlan_inter_left rfl rfl] at h
  obtain ⟨r, h, _⟩ := Query.gives_bind_iff.1 h
  rw [Goal.pursue, gives_subtype_iff, ← Brittle.knot, member] at h
  obtain ⟨r, h, _⟩ := Query.gives_bind_iff.1 h
  rw [Goal.pursue, gives_subtype_iff, each] at h
  obtain ⟨first, unknown, h⟩ := Query.gives_bind_iff.1 h
  obtain rfl := unknown.unique (subtype_unknown brittle Brittle.circular)
  obtain ⟨r, h, _⟩ := Query.gives_bind_iff.1 h
  exact not_ends_of_plan circle ⟨r, h⟩

/-- All losses are answered within nine steps: with yes before the forgetting and with no after
it. -/
lemma gives_losses : Brittle.losses.all (fun l =>
    ((brittle.subtype l.sub l.sup).attempt 9).map Prod.fst = some true &&
      ((brittle.assignable l.sub l.sup).attempt 9).map Prod.fst = some true &&
        ((brittle.subtype l.sub' l.sup').attempt 9).map Prod.fst = some false &&
          ((brittle.assignable l.sub' l.sup').attempt 9).map Prod.fst = some false) = true := by
  cbv

/-- The losses turn compatible types into incompatible ones, and the knot turns an answer into
none. -/
theorem not_compatible_brittle :
    (∀ l ∈ Brittle.losses, l.sub.ProperType ∧ l.sup.ProperType ∧
      (brittle.subtype l.sub l.sup).Gives true ∧ (brittle.assignable l.sub l.sup).Gives true ∧
        (brittle.subtype l.sub' l.sup').Gives false ∧
          (brittle.assignable l.sub' l.sup').Gives false) ∧
      Brittle.knot.sub.ProperType ∧ Brittle.knot.sup.ProperType ∧
        (brittle.subtype Brittle.knot.sub Brittle.knot.sup).Gives true ∧
          ¬(brittle.subtype Brittle.knot.sub' Brittle.knot.sup').Ends := by
  refine ⟨fun l hl => ?_, by decide +kernel, by decide +kernel, ⟨9, [], by cbv⟩,
    not_ends_brittle_knot⟩
  have proper : ∀ l ∈ Brittle.losses, l.sub.ProperType ∧ l.sup.ProperType := by
    decide +kernel
  have answers := List.all_eq_true.1 gives_losses l hl
  simp only [Bool.and_eq_true, decide_eq_true_eq] at answers
  obtain ⟨⟨⟨below, assignable⟩, apart⟩, unassignable⟩ := answers
  obtain ⟨sub, sup⟩ := proper l hl
  exact ⟨sub, sup, Query.gives_of_attempt below, Query.gives_of_attempt assignable,
    Query.gives_of_attempt apart, Query.gives_of_attempt unassignable⟩

end Brittle

end ClassTable

end LambdaTyping
