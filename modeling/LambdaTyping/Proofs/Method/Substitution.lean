import LambdaTyping.Method.Signature
import LambdaTyping.Proofs.Table.Scoping
import LambdaTyping.Proofs.Type.Substitution
import Mathlib

/-!
# Substitutions one after the other

On normal types a composition of substitutions has the effect of the first followed by that of the
second (`apply_andThen`), although each of them brings intersections to normal form at another
moment. A declared method under a composition is the method under the first substitution, with the
second one applied to the types of its signature.
-/

namespace LambdaTyping

namespace Signature

/-- The signature with its parameter types and its return type replaced. -/
def mapTypes (f : Ty → Ty) (m : Signature) : Signature :=
  { m with params := m.params.map f, returnType := f m.returnType }

end Signature

namespace Subst

variable {s u : Subst} {t : Ty}

/-- In the place of a variable a composition puts what the first substitution puts there, seen
through the second. -/
lemma rebuild_andThen_var (hs : s.Normal) (v : TypeVarId) :
    (s.andThen u).rebuild (.var v) = u.rebuild (s.rebuild (.var v)) := by
  cases h : s.get? v with
  | none =>
    rw [rebuild_var, get?_andThen, h, Option.map_none, Option.none_or, rebuild_var_of_none h,
      rebuild_var]
  | some x =>
    rw [rebuild_var, get?_andThen, h, Option.map_some, Option.some_or, Option.getD_some,
      rebuild_var_of_some h, apply_eq_rebuild (hs v x h)]

/-- On types in normal form a composition does what its parts do one after the other. -/
lemma apply_andThen (hs : s.Normal) (hu : u.Normal) (ht : t.Normal) :
    (s.andThen u).apply t = u.apply (s.apply t) := by
  rw [apply_eq_rebuild ht, apply_eq_rebuild (hs.apply ht), apply_eq_rebuild ht]
  exact rebuild_rebuild hs hu fun v _ => rebuild_andThen_var hs v

/-- Composition law: to substitute by a composition is to substitute twice, in types and in the
signatures of declared methods. -/
theorem andThen_applies_in_turn (hs : s.Normal) (hu : u.Normal) :
    (∀ t, t.Normal → (s.andThen u).apply t = u.apply (s.apply t)) ∧
      ∀ (owner : ClassId) (m : MethodDecl), (∀ ty ∈ m.types, ty.Normal) →
        Signature.ofMethod owner m (s.andThen u) =
          (Signature.ofMethod owner m s).mapTypes u.apply := by
  refine ⟨fun t ht => apply_andThen hs hu ht, fun owner m normal => ?_⟩
  have params : m.params.map (s.andThen u).apply = (m.params.map s.apply).map u.apply := by
    rw [List.map_map]
    exact List.map_congr_left fun p hp => apply_andThen hs hu (normal p (List.mem_cons_of_mem _ hp))
  have result := apply_andThen hs hu (normal m.returnType List.mem_cons_self)
  rw [Signature.ofMethod, Signature.mapTypes, Signature.ofMethod, params, result]

/-- The members that the two substitutions bring together fall into one: `X & A` becomes
`Y & B & A`, then `A & B`. -/
theorem andThen_applies_in_turn_collapsing :
    let a : Ty := .cls ⟨0⟩ []
    let b : Ty := .cls ⟨1⟩ []
    let s := ofList [(⟨0⟩, .inter [.var ⟨1⟩, b])]
    let u := ofList [(⟨1⟩, a)]
    let ty : Ty := .inter [.var ⟨0⟩, a]
    let m : MethodDecl := ⟨"pick", [], [.var ⟨1⟩, ty], ty, .abstract⟩
    s.Normal ∧ u.Normal ∧ (∀ ty ∈ m.types, ty.Normal) ∧
      s.apply ty = .inter [.var ⟨1⟩, b, a] ∧ (s.andThen u).apply ty = .inter [a, b] ∧
        (Signature.ofMethod ⟨2⟩ m (s.andThen u)).params = [a, .inter [a, b]] := by
  intro a b s u ty m
  have hs : s.Normal := normal_ofList (by decide)
  have hu : u.Normal := normal_ofList (by decide)
  have normal : ∀ ty ∈ m.types, ty.Normal := by decide
  obtain ⟨types, methods⟩ := andThen_applies_in_turn hs hu
  refine ⟨hs, hu, normal, by cbv, ?_, ?_⟩
  · rw [types ty (by decide)]
    cbv
  · rw [methods ⟨2⟩ m normal]
    cbv

end Subst

end LambdaTyping
