import LambdaTyping.Proofs.Subtyping.BoundOrder
import LambdaTyping.Proofs.Subtyping.View

/-!
# Views of several types together

The members of an intersection, or the bounds of a type variable, are looked at one after another.
`KeptOf` says which view is kept in the end: each view found is only compared with the one that has
been kept of those before it. A view that is kept is preferred to all others (`KeptOf.best`); if
none is kept, there is none, or two exclude each other (`KeptOf.none_cases`).
-/

namespace LambdaTyping.ClassTable

/-- Which view is preferred to which does not depend on the order of bounds. -/
lemma BoundsReordered.prefers {t t' : ClassTable} {vs : List TypeVarId}
    (h : t.BoundsReordered vs t') : t'.Prefers = t.Prefers := by
  funext a b
  simp only [Prefers, h.below_iff]

/-- Among these views what is preferred to one is preferred to all that this one is preferred to. -/
def Consistent (R : Ty → Ty → Prop) (S : Ty → Prop) : Prop :=
  ∀ a b c, S a → S b → S c → R a b → R b c → R a c

/-- Which view is kept of some types, if one has been found before: types without a view are passed
over, and views that exclude each other end the search. -/
inductive KeptOf (R : Ty → Ty → Prop) (looked : Ty → Option Ty → Prop) :
    Option Ty → List Ty → Option Ty → Prop
  | done {found : Option Ty} : KeptOf R looked found [] found
  | pass {found r : Option Ty} {m : Ty} {ms : List Ty} : looked m none →
      KeptOf R looked found ms r → KeptOf R looked found (m :: ms) r
  | start {r : Option Ty} {m x : Ty} {ms : List Ty} : looked m (some x) →
      KeptOf R looked (some x) ms r → KeptOf R looked none (m :: ms) r
  | merge {r : Option Ty} {m x a w : Ty} {ms : List Ty} : looked m (some x) →
      Chosen R a x (some w) → KeptOf R looked (some w) ms r → KeptOf R looked (some a) (m :: ms) r
  | clash {m x a : Ty} {ms : List Ty} : looked m (some x) → Chosen R a x none →
      KeptOf R looked (some a) (m :: ms) none

/-- The views of some types together are merged so. -/
lemma keptOf_of_gives {t : ClassTable} {target : ClassId} {seen : List TypeVarId}
    {found : Option Ty} {ms : List Ty} {r : Option Ty}
    (h : (t.viewMembers target seen found ms).Gives r) :
    KeptOf t.Prefers (fun m => (t.viewFrom target seen m).Gives) found ms r := by
  induction ms generalizing found with
  | nil =>
    rw [viewMembers] at h
    cases Query.gives_pure_iff.1 h
    exact .done
  | cons m ms ih =>
    rw [viewMembers] at h
    obtain ⟨view, looked, h⟩ := Query.gives_bind_iff.1 h
    cases view with
    | none => exact .pass looked (ih h)
    | some x =>
      cases found with
      | none => exact .start looked (ih h)
      | some a =>
        obtain ⟨merged, chosen, h⟩ := Query.gives_bind_iff.1 h
        cases merged with
        | some w => exact .merge looked (gives_mergeViews chosen) (ih h)
        | none =>
          cases Query.gives_pure_iff.1 h
          exact .clash looked (gives_mergeViews chosen)

namespace KeptOf

variable {R : Ty → Ty → Prop} {looked looked' : Ty → Option Ty → Prop} {found r r' : Option Ty}
  {ms : List Ty}

/-- What is kept of some types depends on the views that they have only. -/
lemma imp (h : KeptOf R looked found ms r)
    (imp : ∀ m ∈ ms, ∀ x, looked m x → looked' m x) : KeptOf R looked' found ms r := by
  induction h with
  | done => exact .done
  | pass hm _ ih =>
    obtain ⟨here, rest⟩ := List.forall_mem_cons.1 imp
    exact .pass (here _ hm) (ih rest)
  | start hm _ ih =>
    obtain ⟨here, rest⟩ := List.forall_mem_cons.1 imp
    exact .start (here _ hm) (ih rest)
  | merge hm chosen _ ih =>
    obtain ⟨here, rest⟩ := List.forall_mem_cons.1 imp
    exact .merge (here _ hm) chosen (ih rest)
  | clash hm chosen => exact .clash (imp _ List.mem_cons_self _ hm) chosen

/-- At most one view is kept, if no type has two. -/
lemma unique (h : KeptOf R looked found ms r) (h' : KeptOf R looked' found ms r')
    (same : ∀ m ∈ ms, ∀ x y, looked m x → looked' m y → y = x) : r' = r := by
  -- Both searches look at the same types, so they take the same steps.
  induction h with
  | done =>
    cases h'
    rfl
  | pass hm _ ih =>
    obtain ⟨here, rest⟩ := List.forall_mem_cons.1 same
    cases h' with
    | pass _ h' => exact ih h' rest
    | start hm' | merge hm' | clash hm' => cases here _ _ hm hm'
  | start hm _ ih =>
    obtain ⟨here, rest⟩ := List.forall_mem_cons.1 same
    cases h' with
    | pass hm' => cases here _ _ hm hm'
    | start hm' h' =>
      cases here _ _ hm hm'
      exact ih h' rest
  | merge hm chosen _ ih =>
    obtain ⟨here, rest⟩ := List.forall_mem_cons.1 same
    cases h' with
    | pass hm' => cases here _ _ hm hm'
    | merge hm' chosen' h' =>
      cases here _ _ hm hm'
      cases chosen.unique chosen'
      exact ih h' rest
    | clash hm' chosen' =>
      cases here _ _ hm hm'
      cases chosen.unique chosen'
  | clash hm chosen =>
    have here := same _ List.mem_cons_self
    cases h' with
    | pass hm' => cases here _ _ hm hm'
    | merge hm' chosen' =>
      cases here _ _ hm hm'
      cases chosen.unique chosen'
    | clash => rfl

section Search

variable {S : Ty → Prop} (one : ∀ m x y, looked m x → looked m y → y = x)
  (before : ∀ x ∈ found, S x) (views : ∀ m ∈ ms, ∀ x, looked m (some x) → S x)

include one before views

/-- A view that is kept is one of the views, and preferred to each other one. -/
lemma best (self : ∀ x, R x x) (consistent : Consistent R S) {w : Ty}
    (h : KeptOf R looked found ms (some w)) :
    S w ∧ (∀ x ∈ found, R w x) ∧ ∀ m ∈ ms, ∀ x, looked m (some x) → R w x := by
  obtain ⟨r, kept⟩ : ∃ r, r = some w := ⟨_, rfl⟩
  rw [← kept] at h
  induction h with
  | done =>
    subst kept
    exact ⟨before w rfl, fun x hx => Option.mem_some.1 hx ▸ self w, nofun⟩
  | pass hm _ ih =>
    obtain ⟨hw, first, rest⟩ := ih before (List.forall_mem_cons.1 views).2 kept
    exact ⟨hw, first, List.forall_mem_cons.2 ⟨fun x hx => (nomatch one _ _ _ hm hx), rest⟩⟩
  | start hm _ ih =>
    obtain ⟨here, views⟩ := List.forall_mem_cons.1 views
    obtain ⟨hw, first, rest⟩ := ih (fun y hy => Option.mem_some.1 hy ▸ here _ hm) views kept
    refine ⟨hw, (nofun), List.forall_mem_cons.2 ⟨fun y hy => ?_, rest⟩⟩
    cases one _ _ _ hm hy
    exact first _ rfl
  | @merge _ m x a b _ hm chosen _ ih =>
    -- The view kept in the end is preferred to the one kept here, and this to both it is chosen of.
    obtain ⟨here, views⟩ := List.forall_mem_cons.1 views
    obtain ⟨origin, overA, overX⟩ := chosen.preferred self
    have hb : S b := origin.elim (· ▸ before a rfl) (· ▸ here x hm)
    obtain ⟨hw, first, rest⟩ := ih (fun y hy => Option.mem_some.1 hy ▸ hb) views kept
    refine ⟨hw, fun y hy => ?_, List.forall_mem_cons.2 ⟨fun y hy => ?_, rest⟩⟩
    · cases Option.mem_some.1 hy
      exact consistent w b a hw hb (before a rfl) (first b rfl) overA
    · cases one _ _ _ hm hy
      exact consistent w b x hw hb (here x hm) (first b rfl) overX
  | clash => cases kept

/-- If no view is kept, there is none, or two exclude each other. -/
lemma none_cases (self : ∀ x, R x x) (h : KeptOf R looked found ms none) :
    (found = none ∧ ∀ m ∈ ms, ∀ x, ¬looked m (some x)) ∨
      ∃ a b, S a ∧ S b ∧ ¬R a b ∧ ¬R b a := by
  obtain ⟨r, kept⟩ : ∃ r, r = (none : Option Ty) := ⟨_, rfl⟩
  rw [← kept] at h
  induction h with
  | done => exact .inl ⟨kept, nofun⟩
  | pass hm _ ih =>
    refine (ih before (List.forall_mem_cons.1 views).2 kept).imp_left fun ⟨nothing, rest⟩ => ?_
    exact ⟨nothing, List.forall_mem_cons.2 ⟨fun x hx => (nomatch one _ _ _ hm hx), rest⟩⟩
  | start hm _ ih =>
    obtain ⟨here, views⟩ := List.forall_mem_cons.1 views
    have next := ih (fun y hy => Option.mem_some.1 hy ▸ here _ hm) views kept
    exact .inr (next.resolve_left fun h => nomatch h.1)
  | @merge _ m x a b _ hm chosen _ ih =>
    obtain ⟨here, views⟩ := List.forall_mem_cons.1 views
    have hb : S b := (chosen.preferred self).1.elim (· ▸ before a rfl) (· ▸ here x hm)
    have next := ih (fun y hy => Option.mem_some.1 hy ▸ hb) views kept
    exact .inr (next.resolve_left fun h => nomatch h.1)
  | clash hm chosen =>
    exact .inr ⟨_, _, before _ rfl, views _ List.mem_cons_self _ hm, chosen.exclude⟩

end Search

/-- A view that is preferred to all that come after it is kept. -/
lemma eq_of_best {a : Ty} (h : KeptOf R looked (some a) ms r)
    (best : ∀ m ∈ ms, ∀ x, looked m (some x) → R a x) : r = some a := by
  obtain ⟨found, before⟩ : ∃ found, found = some a := ⟨_, rfl⟩
  rw [← before] at h
  induction h with
  | done => exact before
  | pass _ _ ih => exact ih (List.forall_mem_cons.1 best).2 before
  | start => cases before
  | merge hm chosen _ ih =>
    cases before
    obtain ⟨here, best⟩ := List.forall_mem_cons.1 best
    cases chosen.unique (.first (here _ hm))
    exact ih best rfl
  | clash hm chosen =>
    cases before
    exact absurd (best _ List.mem_cons_self _ hm) chosen.exclude.1

end KeptOf

section Tables

variable {t t' : ClassTable} {target : ClassId} {vs seen : List TypeVarId}

/-- The type has no view in one of the tables that it does not have in the other. -/
def ViewsAgree (t t' : ClassTable) (target : ClassId) (seen : List TypeVarId) (ty : Ty) : Prop :=
  ∀ r r', (t.viewFrom target seen ty).Gives r → (t'.viewFrom target seen ty).Gives r' → r' = r

/-- Bounds of variables that the way to a type has come through do not matter to its views. -/
lemma BoundsReordered.viewsAgree (h : t.BoundsReordered vs t') (through : vs ⊆ seen) (ty : Ty) :
    t.ViewsAgree t' target seen ty := by
  have above {c : ClassTy} {r r' : Option Ty} (hr : (t.viewClass target c).Gives r)
      (hr' : (t'.viewClass target c).Gives r') : r' = r := by
    rw [gives_viewClass_iff] at hr hr'
    rw [← hr, ← hr', h.classView?]
  have members {seen : List TypeVarId} {ms : List Ty} {r r' : Option Ty}
      (each : ∀ m ∈ ms, t.ViewsAgree t' target seen m)
      (hr : (t.viewMembers target seen none ms).Gives r)
      (hr' : (t'.viewMembers target seen none ms).Gives r') : r' = r := by
    have kept := keptOf_of_gives hr'
    rw [h.prefers] at kept
    exact (keptOf_of_gives hr).unique kept each
  suffices both : (∀ seen ty, vs ⊆ seen → t.ViewsAgree t' target seen ty) ∧
      ∀ seen (ms : List Ty), vs ⊆ seen → ∀ m ∈ ms, t.ViewsAgree t' target seen m from
    both.1 seen ty through
  clear through
  apply view_induction t
  case array =>
    intro seen elem _ x y hx hy
    rw [viewFrom] at hx hy
    rw [h.isArraySuperclass] at hy
    exact hy.unique hx
  case inter =>
    intro seen ms ih through x y hx hy
    rw [viewFrom] at hx hy
    exact members (ih through) hx hy
  case met =>
    intro seen w met _ x y hx hy
    rw [viewFrom, if_pos met] at hx hy
    exact hy.unique hx
  case unbounded =>
    intro seen w fresh unbounded through x y hx hy
    have unbounded' := (h.rest w fun met => fresh (through met)).trans unbounded
    rw [viewFrom_unbounded fresh unbounded] at hx
    rw [viewFrom_unbounded fresh unbounded', h.wellKnown] at hy
    exact above hx hy
  case bounded =>
    intro seen w fresh b bs bounded ih through x y hx hy
    -- The variables with reordered bounds have all been met, so this one lists its bounds alike.
    have bounded' := (h.rest w fun met => fresh (through met)).trans bounded
    rw [viewFrom_bounded fresh bounded] at hx
    rw [viewFrom_bounded fresh bounded'] at hy
    exact members (ih (List.subset_cons_of_subset w through)) hx hy
  case wildExtends =>
    intro seen b ih through x y hx hy
    rw [viewFrom] at hx hy
    exact ih through x y hx hy
  case cls =>
    intro seen c args _ x y hx hy
    rw [viewFrom] at hx hy
    exact above hx hy
  case viewless =>
    intro seen ty viewless _ x y hx hy
    rw [viewless] at hx hy
    exact hy.unique hx
  case nil =>
    intro seen _
    exact List.forall_mem_nil _
  case cons =>
    intro seen m ms first rest through
    exact List.forall_mem_cons.2 ⟨first through, rest through⟩

end Tables

end LambdaTyping.ClassTable
