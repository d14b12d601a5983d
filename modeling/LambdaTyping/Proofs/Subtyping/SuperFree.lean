import LambdaTyping.Proofs.Subtyping.Weight

/-!
# Questions that keep their sides

The sides of a subtype question change places by a wildcard `? super` on the right only. Where there
is none, a question leads on by opening its left side, or to a part of its right side. What stands
above a class type may be larger than the class type, but the right side never grows and, while it
stays as it is, the left side is opened, which ends if bounds are acyclic. So such a question ends
whatever the classes extend (`subtype_ends_of_superFree`); those about erased types on the right are
of this kind, whether or not there are lower bounds (`terminates_of_isErased`).
-/

namespace LambdaTyping

namespace Ty

/-- Whether the type is a wildcard `? super`. -/
def isWildSuper : Ty → Bool
  | .wildSuper _ => true
  | _ => false

/-- No wildcard `? super` occurs in the type, at any depth. -/
def SuperFree (x : Ty) : Prop :=
  x.Everywhere fun s => s.isWildSuper = false

instance (x : Ty) : Decidable x.SuperFree :=
  inferInstanceAs (Decidable (x.Everywhere _))

/-- All that occurs in an erased type is erased. -/
lemma IsErased.of_mem_subterms {x y : Ty} (h : x.IsErased) (hy : y ∈ x.subterms) : y.IsErased := by
  induction h with
  | array he ih =>
    rcases List.mem_cons.1 hy with rfl | hy
    · exact .array he
    · exact ih hy
  | cls c =>
    obtain rfl := List.mem_singleton.1 hy
    exact .cls c
  | _ =>
    obtain rfl := List.mem_singleton.1 hy
    constructor

end Ty

namespace ClassTable

variable {t : ClassTable} {b : Ty}

/-- Without a wildcard `? super` on the right the sides never change. -/
lemma terminates_of_superFree (acyclic : t.AcyclicBounds)
    (lower : ∀ v, .var v ∈ b.subterms → t.lowerBound? v = none) (hb : b.SuperFree) (a : Ty) :
    t.Terminates a b :=
  terminates_of_reflects_of_mem acyclic lower fun _ _ first => nomatch hb _ first.super

/-- A question with an erased type on the right terminates. -/
lemma terminates_of_isErased (acyclic : t.AcyclicBounds) (hb : b.IsErased) (a : Ty) :
    t.Terminates a b := by
  refine terminates_of_superFree acyclic (fun v hv => ?_) (fun s hs => ?_) a
  · cases hb.of_mem_subterms hv
  · cases hb.of_mem_subterms hs with
    | _ => rfl

/-- Where bounds do not come back to the variable that they bound and there are no lower bounds, a
question whether something is below a type without wildcards `? super` does not recur for ever, and
has an answer. Nothing is asked of the classes, which may extend themselves, or larger and larger
uses of themselves. -/
theorem subtype_ends_of_superFree (acyclic : t.AcyclicBounds)
    (lower : ∀ v, t.lowerBound? v = none) (hb : b.SuperFree) (a : Ty) :
    ¬t.RecursForever a b ∧ (t.subtype a b).Ends := by
  have terminates : t.Terminates a b := terminates_of_superFree acyclic (fun v _ => lower v) hb a
  exact ⟨not_recursForever_of_terminates terminates, ends_of_terminates terminates⟩

/-- `Object`, `N<X>`, `Grow<Y> extends N<N<? super Grow<Grow<Y>>>>, Ring<Y>` and
`Ring<Z> extends Grow<Ring<Z>>`, in this order, and `T extends Grow<T>`. -/
def expanding : ClassTable where
  classes := #[
    ⟨"Object", .cls, [], none, [], []⟩,
    ⟨"N", .interface, [⟨0⟩], none, [], []⟩,
    ⟨"Grow", .interface, [⟨1⟩], none,
      [.cls ⟨1⟩ [.cls ⟨1⟩ [.wildSuper (.cls ⟨2⟩ [.cls ⟨2⟩ [.var ⟨1⟩]])]], .cls ⟨3⟩ [.var ⟨1⟩]],
      []⟩,
    ⟨"Ring", .interface, [⟨2⟩], none, [.cls ⟨2⟩ [.cls ⟨3⟩ [.var ⟨2⟩]]], []⟩]
  params := #[⟨"X", [], none⟩, ⟨"Y", [], none⟩, ⟨"Z", [], none⟩,
    ⟨"T", [.cls ⟨2⟩ [.var ⟨3⟩]], none⟩]
  index := ∅
  wellKnown := ⟨⟨0⟩, ⟨0⟩, ⟨0⟩, ⟨0⟩, ⟨0⟩, ⟨0⟩⟩

/-- `T` is below `N<? extends N<?>>`, as `Grow<T>` is an `N<N<? super Grow<Grow<T>>>>`. -/
theorem subtype_ends_of_superFree_expanding :
    let sup : Ty := .cls ⟨1⟩ [.wildExtends (.cls ⟨1⟩ [.wild])]
    expanding.AcyclicBounds ∧ (∀ v, expanding.lowerBound? v = none) ∧ sup.SuperFree ∧
      ¬expanding.Acyclic ∧ ¬expanding.RecursForever (.var ⟨3⟩) sup ∧
        (expanding.subtype (.var ⟨3⟩) sup).Gives true := by
  intro sup
  have acyclic : expanding.AcyclicBounds := acyclicBounds_of_classes (by decide +kernel)
  have lower : ∀ v, expanding.lowerBound? v = none := lowerBound?_of_params (by decide +kernel)
  have superFree : sup.SuperFree := by decide
  obtain ⟨ended, -⟩ := subtype_ends_of_superFree acyclic lower superFree (.var ⟨3⟩)
  have yes : (expanding.subtype (.var ⟨3⟩) sup).Gives true := ⟨5, [], by cbv⟩
  have above : (⟨⟨3⟩, []⟩ : ClassTy) ∈ expanding.parents ⟨⟨2⟩, []⟩ := by decide +kernel
  have back : (⟨⟨2⟩, []⟩ : ClassTy) ∈ expanding.parents ⟨⟨3⟩, []⟩ := by decide +kernel
  refine ⟨acyclic, lower, superFree, fun hierarchy => ?_, ended, yes⟩
  exact hierarchy _ _ (.tail (.single above) back) rfl

end ClassTable

end LambdaTyping
