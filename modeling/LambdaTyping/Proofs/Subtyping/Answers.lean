import LambdaTyping.Proofs.Subtyping.Basic
import LambdaTyping.Proofs.Subtyping.Rules

/-!
# Questions with one way to go

Where no variable has two bounds and nothing is an intersection, subtyping never has to choose
between goals. A question about such types that has a derivation is then answered
(`gives_of_below`, `gives_of_below_of_flat`). `ComesTo` says which questions one may come down to.
-/

namespace LambdaTyping.ClassTable

variable {t : ClassTable} {a b p q : Ty}

section Questions

/-- A question about the first two types may come down to one about the last two. -/
inductive ComesTo (t : ClassTable) : Ty → Ty → Ty → Ty → Prop
  | every {a m : Ty} {ms : List Ty} : m ∈ ms → ComesTo t a (.inter ms) a m
  | some {m b : Ty} {ms : List Ty} : m ∈ ms → ComesTo t (.inter ms) b m b
  | bound {v : TypeVarId} {u b : Ty} : u ∈ t.upperBounds v → ComesTo t (.var v) b u b
  | lowerBound {v : TypeVarId} {a l : Ty} : t.lowerBound? v = some l → ComesTo t a (.var v) a l
  | wildcard {u b : Ty} : ComesTo t (.wildExtends u) b u b
  | argument {a b p q : Ty} : b.isWildcard = true → t.argumentGoal b a = .subtype p q →
      ComesTo t a b p q
  | element {d e : Ty} : ComesTo t (.array d) (.array e) d e
  | typeArgument {c d : ClassId} {as bs : List Ty} {e : ClassTy} {f x p q : Ty} :
      t.classView? ⟨c, as⟩ d = some e → f ∈ bs → x ∈ e.args →
      t.argumentGoal f x = .subtype p q → ComesTo t (.cls c as) (.cls d bs) p q

/-- A question about two class types comes down to their arguments. -/
lemma comesTo_of_classPlan {c d : ClassId} {as bs : List Ty}
    (h : Goal.subtype p q ∈ (t.classPlan ⟨c, as⟩ ⟨d, bs⟩).goals) :
    t.ComesTo (.cls c as) (.cls d bs) p q := by
  unfold classPlan at h
  split at h
  · cases List.mem_singleton.1 h
  · rename_i e view
    split at h
    · cases List.mem_singleton.1 h
    · split at h
      · rw [Plan.goals, ← List.map_uncurry_zip_eq_zipWith] at h
        obtain ⟨⟨f, x⟩, pair, goal⟩ := List.mem_map.1 h
        obtain ⟨hf, hx⟩ := List.of_mem_zip pair
        exact .typeArgument view hf hx goal
      · cases List.mem_singleton.1 h

/-- A question about a type variable on the left comes down to its bounds. -/
lemma comesTo_of_bounds {v : TypeVarId}
    (h : Goal.subtype p q ∈ (match t.upperBounds v with
      | [] => Plan.known (t.isObject b)
      | bounds => .any (bounds.map fun u => .subtype u b)).goals) : t.ComesTo (.var v) b p q := by
  split at h
  · cases List.mem_singleton.1 h
  · obtain ⟨u, hu, goal⟩ := List.mem_map.1 h
    cases goal
    exact .bound hu

/-- A question about a type variable on the right comes down to its lower bound. -/
lemma comesTo_of_lowerBound {v : TypeVarId}
    (h : Goal.subtype p q ∈ (match t.lowerBound? v with
      | none => Plan.known false
      | some l => .one (.subtype a l)).goals) : t.ComesTo a (.var v) p q := by
  split at h
  · cases List.mem_singleton.1 h
  · rename_i l lower
    cases List.mem_singleton.1 h
    exact .lowerBound lower

/-- A question about two array types comes down to their elements. -/
lemma comesTo_of_elements {d e : Ty}
    (h : Goal.subtype p q ∈ (if d.isReference && e.isReference then Plan.one (.subtype d e)
      else .known (d = e)).goals) : t.ComesTo (.array d) (.array e) p q := by
  split at h
  · cases List.mem_singleton.1 h
    exact .element
  · cases List.mem_singleton.1 h

/-- A question about an intersection on the right comes down to its members. -/
lemma comesTo_of_members {ms : List Ty}
    (h : Goal.subtype p q ∈ (Plan.every (ms.map fun m => .subtype a m)).goals) :
    t.ComesTo a (.inter ms) p q := by
  obtain ⟨m, hm, goal⟩ := List.mem_map.1 h
  cases goal
  exact .every hm

/-- A question about an intersection on the left comes down to its members. -/
lemma comesTo_of_member {ms : List Ty}
    (h : Goal.subtype p q ∈ (Plan.any (ms.map fun m => .subtype m b)).goals) :
    t.ComesTo (.inter ms) b p q := by
  obtain ⟨m, hm, goal⟩ := List.mem_map.1 h
  cases goal
  exact .some hm

/-- The goals of a plan are questions that its question may come down to. -/
lemma comesTo_of_mem_goals (h : Goal.subtype p q ∈ (t.subtypePlan a b).goals) :
    t.ComesTo a b p q := by
  unfold subtypePlan at h
  split at h
  · cases List.mem_singleton.1 h
  · -- By the rows of the table of plans, and within each row by its columns.
    cases a with
    | void | null | unknown | prim =>
      cases b with
      | _ => cases List.mem_singleton.1 h
    | inter ms =>
      cases b with
      | void | unknown | prim => cases List.mem_singleton.1 h
      | inter => exact comesTo_of_members h
      | _ => exact comesTo_of_member h
    | var v =>
      cases b with
      | void | unknown | prim => cases List.mem_singleton.1 h
      | inter => exact comesTo_of_members h
      | _ => exact comesTo_of_bounds h
    | wild | wildSuper =>
      cases b with
      | inter => exact comesTo_of_members h
      | var => exact comesTo_of_lowerBound h
      | _ => cases List.mem_singleton.1 h
    | wildExtends u =>
      cases b with
      | void | unknown | prim => cases List.mem_singleton.1 h
      | inter => exact comesTo_of_members h
      | var => exact comesTo_of_lowerBound h
      | _ =>
        cases List.mem_singleton.1 h
        exact .wildcard
    | array d =>
      cases b with
      | inter => exact comesTo_of_members h
      | var => exact comesTo_of_lowerBound h
      | wild | wildExtends | wildSuper => exact .argument rfl (List.mem_singleton.1 h).symm
      | array => exact comesTo_of_elements h
      | _ => cases List.mem_singleton.1 h
    | cls c args =>
      cases b with
      | inter => exact comesTo_of_members h
      | var => exact comesTo_of_lowerBound h
      | wild | wildExtends | wildSuper => exact .argument rfl (List.mem_singleton.1 h).symm
      | cls => exact comesTo_of_classPlan h
      | _ => cases List.mem_singleton.1 h

/-- Class types are compared in all their arguments, so there is nothing to choose from. -/
lemma classPlan_ne_any (t : ClassTable) (c d : ClassTy) (gs : List Goal) :
    t.classPlan c d ≠ .any gs := by
  unfold classPlan
  split
  · nofun
  · split
    · nofun
    · split
      · nofun
      · nofun

/-- A plan has a choice between goals only for an intersection, or for a variable with bounds to
choose from. -/
lemma length_le_one_of_any (single : ∀ v, (t.upperBounds v).length ≤ 1)
    (flat : a.isIntersection = false) {gs : List Goal} (h : t.subtypePlan a b = .any gs) :
    gs.length ≤ 1 := by
  unfold subtypePlan at h
  split at h
  · cases h
  · -- Only the rows of intersections and of type variables have a choice in them.
    cases a with
    | inter => cases flat
    | var v =>
      cases b with
      | void | unknown | prim | inter => cases h
      | _ =>
        dsimp only at h
        split at h
        · cases h
        · cases h
          rw [List.length_map]
          exact single v
    | array e =>
      cases b with
      | array f =>
        dsimp only at h
        split at h
        · cases h
        · cases h
      | var w =>
        dsimp only at h
        split at h
        · cases h
        · cases h
      | _ => cases h
    | cls c args =>
      cases b with
      | cls d args' => exact absurd h (classPlan_ne_any t _ _ gs)
      | var w =>
        dsimp only at h
        split at h
        · cases h
        · cases h
      | _ => cases h
    | wild | wildExtends | wildSuper =>
      cases b with
      | var w =>
        dsimp only at h
        split at h
        · cases h
        · cases h
      | _ => cases h
    | _ =>
      cases b with
      | _ => cases h

/-- A question that has a derivation is answered if it is of a kind that comes down to its own kind
only, and never asks what an intersection is below. -/
lemma gives_of_closed {R : Ty → Ty → Prop} (single : ∀ v, (t.upperBounds v).length ≤ 1)
    (flat : ∀ a b, R a b → a.isIntersection = false)
    (closed : ∀ a b p q, R a b → t.ComesTo a b p q → R p q) (asked : R a b)
    (h : t.Below a b) : (t.subtype a b).Gives true := by
  refine below_induction (P := fun a b => R a b → (t.subtype a b).Gives true) ?_ h asked
  intro a b h asked
  have goal (g : Goal) (hg : g ∈ (t.subtypePlan a b).goals)
      (met : g.Met t ∧ ∀ x y, g = .subtype x y → R x y → (t.subtype x y).Gives true) :
      (g.pursue t.subtype).Gives true := by
    cases g with
    | known holds => exact Query.gives_pure_iff.2 (Goal.met_known_iff.1 met.1)
    | subtype x y => exact met.2 x y rfl (closed a b x y asked (comesTo_of_mem_goals hg))
  rw [gives_subtype_iff]
  cases plan : t.subtypePlan a b with
  | every gs =>
    rw [plan] at h goal
    exact Query.gives_allM_true_iff.2 fun g hg => goal g hg (h g hg)
  | any gs =>
    -- With one goal to choose from, no other can keep the answer from being found.
    have one := length_le_one_of_any single (flat a b asked) plan
    rw [plan] at h goal
    obtain ⟨g, hg, met⟩ := h
    obtain ⟨_, rfl⟩ := List.length_eq_one_iff.1 (Nat.le_antisymm one (List.length_pos_of_mem hg))
    obtain rfl := List.mem_singleton.1 hg
    exact Query.gives_bind_iff.2 ⟨true, goal g hg met, Query.gives_pure_iff.2 rfl⟩

end Questions

/-- The declarations leave subtyping no choice: no variable has two bounds, and no intersection is
declared. -/
structure Linear (t : ClassTable) : Prop where
  single : ∀ v, (t.upperBounds v).length ≤ 1
  bounds : ∀ v, ∀ b ∈ t.upperBounds v, b.Rigid
  supertypes : ∀ d ∈ t.classes, ∀ s ∈ d.supertypes, s.Rigid

/-- A regular type without intersections. -/
structure SolidType (t : ClassTable) (x : Ty) : Prop where
  regular : t.RegularType x
  rigid : x.Rigid

/-- A regular type argument without intersections. -/
structure SolidArg (t : ClassTable) (x : Ty) : Prop where
  regular : t.RegularArg x
  rigid : x.Rigid

section Solid

variable {formal actual : Ty}

/-- The bound of a solid upper-bounded wildcard is a solid type. -/
lemma SolidArg.wildExtends {u : Ty} (h : t.SolidArg (.wildExtends u)) : t.SolidType u :=
  ⟨h.regular.wildExtends.type, (Ty.everywhere_wildExtends.1 h.rigid).2⟩

/-- The bound of a solid lower-bounded wildcard is a solid type. -/
lemma SolidArg.wildSuper {u : Ty} (h : t.SolidArg (.wildSuper u)) : t.SolidType u :=
  ⟨h.regular.wildSuper.type, (Ty.everywhere_wildSuper.1 h.rigid).2⟩

/-- Comparing solid type arguments comes down to solid types. -/
lemma solid_of_argumentGoal (hf : t.SolidArg formal) (ha : t.SolidArg actual)
    (h : t.argumentGoal formal actual = .subtype p q) : t.SolidType p ∧ t.SolidType q := by
  cases formal with
  | wildExtends u =>
    cases actual with
    | wildExtends x =>
      cases h
      exact ⟨ha.wildExtends, hf.wildExtends⟩
    | wild | wildSuper => cases h
    | _ =>
      cases h
      exact ⟨⟨⟨ha.regular, rfl⟩, ha.rigid⟩, hf.wildExtends⟩
  | wildSuper l =>
    cases actual with
    | wildSuper x =>
      cases h
      exact ⟨hf.wildSuper, ha.wildSuper⟩
    | wild | wildExtends => cases h
    | _ =>
      cases h
      exact ⟨hf.wildSuper, ⟨ha.regular, rfl⟩, ha.rigid⟩
  | _ => cases h

variable (reg : t.Regular) (linear : t.Linear)

include reg linear

/-- What stands directly above a class type without intersections has none. -/
lemma SolidArg.parent {c e : ClassTy} (h : t.SolidArg c.toTy) (he : e ∈ t.parents c) :
    t.SolidArg e.toTy := by
  refine ⟨h.regular.of_seen (Seen.self.above he), ?_⟩
  obtain ⟨d, hd, rfl | ⟨u, hu, ⟨raw, _⟩ | ⟨_, seen⟩⟩⟩ := mem_parents_cases reg.wellScoped.isClass he
  · exact Ty.everywhere_cls.2 ⟨⟨nofun, rfl⟩, nofun⟩
  · rw [isRawUse_of_length (h.regular.length hd)] at raw
    cases raw
  · have mem := mem_classes_of_class? hd
    rw [seen, Subst.apply_eq_rebuild (reg.normal d mem _ hu)]
    refine (linear.supertypes d mem _ hu).rebuild fun v hv => ?_
    have inScope := reg.wellScoped.supertypes d mem _ hu v hv
    have place := rebuild_instantiate_mem (t := t) (h.regular.length hd) inScope
    exact (Ty.everywhere_cls.1 h.rigid).2 _ (List.of_mem_zip place).2

/-- Nothing that stands above a class type without intersections has any. -/
lemma SolidArg.view {c e : ClassTy} (h : t.SolidArg c.toTy) (reach : t.Reaches c e) :
    ∀ x ∈ e.args, t.SolidArg x := by
  have all : t.SolidArg e.toTy := by
    induction reach with
    | refl => exact h
    | tail _ he ih => exact ih.parent reg linear he
  exact fun x hx => ⟨(all.regular.arg hx).1, (Ty.everywhere_cls.1 all.rigid).2 x hx⟩

/-- A question about such types comes down to questions about such types. -/
lemma solid_of_comesTo (ha : t.SolidType a) (hb : t.SolidType b) (h : t.ComesTo a b p q) :
    t.SolidType p ∧ t.SolidType q := by
  cases h with
  | every => cases hb.rigid.here.2
  | some => cases ha.rigid.here.2
  | bound hu => exact ⟨⟨(reg.bounds _ _ hu).type, linear.bounds _ _ hu⟩, hb⟩
  | @lowerBound v _ _ lower =>
    rw [reg.lowerBounds v] at lower
    cases lower
  | wildcard => cases ha.regular.notWildcard
  | argument wild =>
    rw [hb.regular.notWildcard] at wild
    cases wild
  | element =>
    exact ⟨⟨ha.regular.regular.array, (Ty.everywhere_array.1 ha.rigid).2⟩,
      hb.regular.regular.array, (Ty.everywhere_array.1 hb.rigid).2⟩
  | @typeArgument c _ as _ _ f x _ _ view hf hx goal =>
    have reach := reaches_of_mem_classClosure (mem_of_classView? view).1
    have formal : t.SolidArg f :=
      ⟨(hb.regular.regular.arg hf).1, (Ty.everywhere_cls.1 hb.rigid).2 f hf⟩
    have whole : t.SolidArg (ClassTy.toTy ⟨c, as⟩) := ⟨ha.regular.regular, ha.rigid⟩
    exact solid_of_argumentGoal formal (whole.view reg linear reach x hx) goal

/-- A question about such types that has a derivation is answered. -/
theorem gives_of_below (ha : t.SolidType a) (hb : t.SolidType b) (h : t.Below a b) :
    (t.subtype a b).Gives true :=
  gives_of_closed (R := fun a b => t.SolidType a ∧ t.SolidType b) linear.single
    (fun _ _ asked => asked.1.rigid.here.2)
    (fun _ _ _ _ asked come => solid_of_comesTo reg linear asked.1 asked.2 come) ⟨ha, hb⟩ h

end Solid

/-- The declarations leave subtyping no choice, whether or not all in them is known. -/
structure Straight (t : ClassTable) : Prop where
  single : ∀ v, (t.upperBounds v).length ≤ 1
  bounds : ∀ v, ∀ b ∈ t.upperBounds v, b.Flat
  lowerBounds : ∀ v, ∀ l ∈ t.lowerBound? v, l.Flat
  supertypes : ∀ d ∈ t.classes, ∀ s ∈ d.supertypes, s.Flat

/-- A linear table without lower bounds is straight. -/
lemma Linear.straight (linear : t.Linear) (lowerBounds : ∀ v, t.lowerBound? v = none) :
    t.Straight where
  single := linear.single
  bounds v b hb := fun s hs => (linear.bounds v b hb s hs).2
  lowerBounds v l hl := by
    rw [lowerBounds v] at hl
    cases hl
  supertypes d hd u hu := fun s hs => (linear.supertypes d hd u hu s hs).2

section Flat

/-- Comparing flat type arguments comes down to flat types. -/
lemma flat_of_argumentGoal {formal actual : Ty} (hf : formal.Flat) (ha : actual.Flat)
    (h : t.argumentGoal formal actual = .subtype p q) : p.Flat ∧ q.Flat := by
  cases formal with
  | wildExtends u =>
    have hu := (Ty.everywhere_wildExtends.1 hf).2
    cases actual with
    | wildExtends x =>
      cases h
      exact ⟨(Ty.everywhere_wildExtends.1 ha).2, hu⟩
    | wild | wildSuper => cases h
    | _ =>
      cases h
      exact ⟨ha, hu⟩
  | wildSuper l =>
    have hl := (Ty.everywhere_wildSuper.1 hf).2
    cases actual with
    | wildSuper x =>
      cases h
      exact ⟨hl, (Ty.everywhere_wildSuper.1 ha).2⟩
    | wild | wildExtends => cases h
    | _ =>
      cases h
      exact ⟨hl, ha⟩
  | _ => cases h

/-- A class type without arguments is flat. -/
lemma flat_cls_nil (c : ClassId) : (Ty.cls c []).Flat :=
  Ty.everywhere_cls.2 ⟨rfl, nofun⟩

/-- Erased types are flat. -/
lemma flat_of_isErased {x : Ty} (h : x.IsErased) : x.Flat := by
  induction h with
  | array _ ih => exact Ty.everywhere_array.2 ⟨rfl, ih⟩
  | _ => exact Ty.everywhere_of_atom rfl rfl

/-- An instantiation with flat types is flat at each type variable. -/
lemma flat_instantiate {d : ClassDecl} {args : List Ty} (h : ∀ a ∈ args, a.Flat)
    (v : TypeVarId) : ((t.instantiate d args).rebuild (.var v)).Flat := by
  cases hv : (t.instantiate d args).get? v with
  | none =>
    rw [Subst.rebuild_var_of_none hv]
    exact Ty.everywhere_of_atom rfl rfl
  | some x =>
    rw [Subst.rebuild_var_of_some hv]
    rcases get?_instantiate_cases hv with rfl | rfl | mem
    · exact flat_of_isErased (t.isErased_erasure _)
    · exact Ty.everywhere_of_atom rfl rfl
    · exact h x mem

variable (straight : t.Straight)
  (isClass : ∀ d ∈ t.classes, ∀ s ∈ d.supertypes, s.asClass?.isSome = true)

include straight isClass

/-- The parents of a flat class type are flat in a straight table. -/
lemma flat_parent {c e : ClassTy} (h : c.toTy.Flat) (he : e ∈ t.parents c) : e.toTy.Flat := by
  obtain ⟨d, hd, rfl | ⟨u, hu, ⟨_, rfl⟩ | ⟨_, seen⟩⟩⟩ := mem_parents_cases isClass he
  · exact flat_cls_nil _
  · exact flat_cls_nil _
  · have declared := straight.supertypes d (mem_classes_of_class? hd) _ hu
    rw [seen, Subst.apply]
    split
    · exact declared
    · exact declared.rebuild fun v _ => flat_instantiate (Ty.everywhere_cls.1 h).2 v

/-- What is reached from a flat class type is flat in a straight table. -/
lemma flat_view {c e : ClassTy} (h : c.toTy.Flat) (reach : t.Reaches c e) : e.toTy.Flat := by
  induction reach with
  | refl => exact h
  | tail _ he ih => exact flat_parent straight isClass ih he

/-- A question about types without intersections comes down to questions about such types. -/
lemma flat_of_comesTo (ha : a.Flat) (hb : b.Flat) (h : t.ComesTo a b p q) : p.Flat ∧ q.Flat := by
  cases h with
  | every => cases hb.here
  | some => cases ha.here
  | bound hu => exact ⟨straight.bounds _ _ hu, hb⟩
  | lowerBound lower => exact ⟨ha, straight.lowerBounds _ _ lower⟩
  | wildcard => exact ⟨(Ty.everywhere_wildExtends.1 ha).2, hb⟩
  | argument _ goal => exact flat_of_argumentGoal hb ha goal
  | element => exact ⟨(Ty.everywhere_array.1 ha).2, (Ty.everywhere_array.1 hb).2⟩
  | @typeArgument c _ as _ _ _ x _ _ view hf hx goal =>
    have whole : (ClassTy.toTy ⟨c, as⟩).Flat := ha
    have reach := reaches_of_mem_classClosure (mem_of_classView? view).1
    have above := flat_view straight isClass whole reach
    have formal := (Ty.everywhere_cls.1 hb).2 _ hf
    exact flat_of_argumentGoal formal ((Ty.everywhere_cls.1 above).2 x hx) goal

/-- A question about types without intersections that has a derivation is answered. -/
theorem gives_of_below_of_flat (ha : a.Flat) (hb : b.Flat) (h : t.Below a b) :
    (t.subtype a b).Gives true :=
  gives_of_closed (R := fun a b => a.Flat ∧ b.Flat) straight.single
    (fun _ _ asked => asked.1.here)
    (fun _ _ _ _ asked come => flat_of_comesTo straight isClass asked.1 asked.2 come) ⟨ha, hb⟩ h

end Flat

end LambdaTyping.ClassTable
