import LambdaTyping.Proofs.Subtyping.Answers
import LambdaTyping.Proofs.Subtyping.Forgetting

/-!
# Assignability as a relation

`Converts` is assignability as a relation: subtyping, boxing followed by subtyping, or unboxing
followed by widening. A question that is answered at all is answered by whether there is a
conversion (`gives_assignable`). Conversions outlast the forgetting of parts (`converts_forget`).
-/

namespace LambdaTyping.ClassTable

variable {t : ClassTable} {a a' b b' : Ty}

/-- A value of the first type can be assigned to a variable of the second. -/
inductive Converts (t : ClassTable) : Ty → Ty → Prop
  | below {a b : Ty} : t.Below a b → Converts t a b
  | box {p : Primitive} {b : Ty} {c : ClassId} : b.isReference = true →
      t.lookup? p.boxName = some c → t.Below (.cls c []) b → Converts t (.prim p) b
  | unbox {a : Ty} {p q : Primitive} : t.unboxed? a = some p → p.widens q = true →
      Converts t a (.prim q)

/-- A primitive type is known not to be below a reference type. -/
lemma subtypePlan_prim_left {p : Primitive} (ref : b.isReference = true) :
    t.subtypePlan (.prim p) b = .known false := by
  unfold subtypePlan
  cases b with
  | void | unknown | prim => cases ref
  | _ => rfl

/-- Only class types are unboxed. -/
lemma exists_cls_of_unboxed {p : Primitive} (h : t.unboxed? a = some p) :
    ∃ c args, a = .cls c args := by
  cases a with
  | cls c args => exact ⟨c, args, rfl⟩
  | _ => cases h

section Answers

/-- A primitive type that is not below another type converts to it by boxing only. -/
lemma converts_prim_iff {p : Primitive} (apart : ¬t.Below (.prim p) b) :
    t.Converts (.prim p) b ↔
      b.isReference = true ∧ ∃ c, t.lookup? p.boxName = some c ∧ t.Below (.cls c []) b := by
  constructor
  · intro h
    cases h with
    | below h => exact absurd h apart
    | box ref box h => exact ⟨ref, _, box, h⟩
    | unbox unboxed => cases unboxed
  · rintro ⟨ref, c, box, h⟩
    exact .box ref box h

/-- A reference type that is not below another type converts to it by unboxing only. -/
lemma converts_iff_of_not_prim (plain : a.isPrimitive = false) (apart : ¬t.Below a b) :
    t.Converts a b ↔ ∃ q, b = .prim q ∧ (t.unboxed? a).any (fun p => p.widens q) = true := by
  constructor
  · intro h
    cases h with
    | below h => exact absurd h apart
    | box => cases plain
    | @unbox _ p q unboxed widens =>
      refine ⟨q, rfl, ?_⟩
      rwa [unboxed]
  · rintro ⟨q, rfl, unboxes⟩
    obtain ⟨p, unboxed, widens⟩ := (Option.any_eq_true _ _).1 unboxes
    exact .unbox unboxed widens

/-- A question that is answered is answered by whether there is a conversion. -/
theorem gives_assignable {r : Bool} (h : (t.assignable a b).Gives r) :
    r = true ↔ t.Converts a b := by
  obtain ⟨below, hbelow, h⟩ := Query.gives_bind_iff.1 h
  have settled := gives_subtype hbelow
  cases below with
  | true =>
    obtain rfl := Query.gives_pure_iff.1 h
    exact iff_of_true rfl (.below (settled.1 rfl))
  | false =>
    -- Only boxing and unboxing are left, of which the source type rules out one.
    have apart : ¬t.Below a b := fun h => nomatch settled.2 h
    rw [if_neg Bool.false_ne_true] at h
    cases a with
    | prim p =>
      rw [converts_prim_iff apart]
      dsimp only at h
      split at h
      · rename_i ref
        cases box : t.lookup? p.boxName with
        | none =>
          rw [box] at h
          obtain rfl := Query.gives_pure_iff.1 h
          exact iff_of_false Bool.false_ne_true fun ⟨_, _, absent, _⟩ => nomatch absent
        | some c =>
          rw [box] at h
          rw [gives_subtype h]
          constructor
          · exact fun h => ⟨ref, c, rfl, h⟩
          · rintro ⟨_, _, ⟨⟩, h⟩
            exact h
      · rename_i notRef
        obtain rfl := Query.gives_pure_iff.1 h
        exact iff_of_false Bool.false_ne_true fun ⟨ref, _⟩ => notRef ref
    | _ =>
      rw [converts_iff_of_not_prim rfl apart]
      cases b with
      | prim q =>
        obtain rfl := Query.gives_pure_iff.1 h
        constructor
        · exact fun unboxes => ⟨q, rfl, unboxes⟩
        · rintro ⟨_, ⟨⟩, unboxes⟩
          exact unboxes
      | _ =>
        obtain rfl := Query.gives_pure_iff.1 h
        exact iff_of_false Bool.false_ne_true fun ⟨_, same, _⟩ => nomatch same

/-- A question that has a derivation and no choice on the way is answered. -/
theorem gives_assignable_of_converts (straight : t.Straight)
    (isClass : ∀ d ∈ t.classes, ∀ s ∈ d.supertypes, s.asClass?.isSome = true) (ha : a.Flat)
    (hb : b.Flat) (h : t.Converts a b) : (t.assignable a b).Gives true := by
  cases h with
  | below h => exact assignable_of_subtype (gives_of_below_of_flat straight isClass ha hb h)
  | @box p _ c ref box h =>
    have boxed := gives_of_below_of_flat straight isClass (flat_cls_nil c) hb h
    have apart : (t.subtype (.prim p) b).Gives false :=
      gives_subtype_iff.2 (subtypePlan_prim_left ref ▸ gives_known_iff.2 rfl)
    apply Query.gives_bind_iff.2 ⟨false, apart, _⟩
    dsimp only
    rwa [if_neg Bool.false_ne_true, if_pos ref, box]
  | @unbox _ p q unboxed widens =>
    obtain ⟨c, args, rfl⟩ := exists_cls_of_unboxed unboxed
    have apart : (t.subtype (.cls c args) (.prim q)).Gives false :=
      gives_subtype_iff.2 (gives_known_iff.2 rfl)
    apply Query.gives_bind_iff.2 ⟨false, apart, _⟩
    dsimp only
    rw [if_neg Bool.false_ne_true, unboxed]
    exact Query.gives_pure_iff.2 widens

end Answers

/-- What converts to a type does so with some parts forgotten. -/
theorem converts_forget (steady : t.Steady) (h : t.Converts a b) (ha : t.Coarser a a')
    (hb : t.Coarser b b') : t.Converts a' b' := by
  by_cases known : a' = .unknown
  · rw [known]
    exact .below (below_of_unknown t b')
  by_cases known' : b' = .unknown
  · rw [known']
    exact .below (below_unknown t a')
  cases h with
  | below h => exact .below (below_forget steady h ha hb)
  | box ref box h =>
    cases ha.forgets.outline with
    | unknown => exact absurd rfl known
    | prim p =>
      have ref' := (kinds_of_forgets hb.forgets known').1.trans ref
      exact .box ref' box (below_forget steady h (.same _) hb)
  | unbox unboxed widens =>
    obtain ⟨c, args, rfl⟩ := exists_cls_of_unboxed unboxed
    cases hb.forgets.outline with
    | unknown => exact absurd rfl known'
    | prim q =>
      cases ha.forgets.outline with
      | unknown => exact absurd rfl known
      | cls => exact .unbox unboxed widens

end LambdaTyping.ClassTable
