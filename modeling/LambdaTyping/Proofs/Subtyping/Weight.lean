import LambdaTyping.Proofs.Subtyping.Termination

/-!
# Weights that exclude reversals

A way to see from the declarations that no type reverses itself for ever. A class gets a weight, and
a type the number of wildcards `? super` that can be met one in another on a way into it, each class
on the way counting as much as it weighs. If no supertype that is declared weighs more than its
class, what is uncovered from a type weighs no more than the type, unless the bound of a variable is
on the way (`weight_le_of_uncovers`); and if no variable nests wildcards `? super` in its bounds,
every reversal leads to a lighter type or to an end (`reverses_wf`).

That bounds are acyclic is seen from the variables that they expose (`acyclicBounds_of_exposed`).
-/

namespace LambdaTyping

namespace Ty

mutual

/-- How many wildcards `? super` can be met one in another on a way into the type, where a class
counts as much as it weighs. -/
def weight (w : ClassId → Nat) : Ty → Nat
  | .cls c args => w c + weightOf w args
  | .wildSuper l => l.weight w + 1
  | .wildExtends u => u.weight w
  | .array e => e.weight w
  | .inter ms => weightOf w ms
  | .void | .null | .unknown | .prim _ | .var _ | .wild => 0

/-- The weight of the heaviest type of a list. -/
def weightOf (w : ClassId → Nat) : List Ty → Nat
  | [] => 0
  | t :: ts => max (t.weight w) (weightOf w ts)

end

mutual

/-- The variables that the type can be opened into by way of members and of wildcards `? extends`.
-/
def exposed : Ty → List TypeVarId
  | .var v => [v]
  | .inter ms => exposedOf ms
  | .wildExtends u => u.exposed
  | _ => []

/-- The variables that some type of the list can be opened into. -/
def exposedOf : List Ty → List TypeVarId
  | [] => []
  | t :: ts => t.exposed ++ exposedOf ts

end

/-- The variables exposed by a list are those exposed by its types. -/
lemma mem_exposedOf {v : TypeVarId} {ts : List Ty} :
    v ∈ exposedOf ts ↔ ∃ t ∈ ts, v ∈ t.exposed := by
  induction ts with
  | nil => simp [exposedOf]
  | cons t ts ih => simp [exposedOf, ih]

section Weight

variable {w : ClassId → Nat} {k : Nat}

/-- A list weighs at most as much as its types do. -/
lemma weightOf_le_iff {ts : List Ty} : weightOf w ts ≤ k ↔ ∀ t ∈ ts, t.weight w ≤ k := by
  induction ts with
  | nil => simp [weightOf]
  | cons t ts ih => simp [weightOf, ih]

/-- A type of a list weighs no more than the list. -/
lemma weight_le_weightOf {t : Ty} {ts : List Ty} (ht : t ∈ ts) : t.weight w ≤ weightOf w ts :=
  weightOf_le_iff.1 (Nat.le_refl _) t ht

/-- What occurs in a type weighs no more than the type. -/
lemma weight_le_of_mem_subterms {s t : Ty} (hs : s ∈ t.subterms) : s.weight w ≤ t.weight w := by
  induction t using rec_members with
  | array e ih | wildExtends e ih =>
    rcases List.mem_cons.1 hs with rfl | hs
    · exact Nat.le_refl _
    · exact ih hs
  | wildSuper l ih =>
    rcases List.mem_cons.1 hs with rfl | hs
    · exact Nat.le_refl _
    · exact Nat.le_succ_of_le (ih hs)
  | cls c args ih =>
    rcases List.mem_cons.1 hs with rfl | hs
    · exact Nat.le_refl _
    · obtain ⟨a, ha, hs⟩ := mem_subtermsOf.1 hs
      exact ((ih a ha hs).trans (weight_le_weightOf ha)).trans (Nat.le_add_left _ _)
  | inter ms ih =>
    rcases List.mem_cons.1 hs with rfl | hs
    · exact Nat.le_refl _
    · obtain ⟨m, hm, hs⟩ := mem_subtermsOf.1 hs
      exact (ih m hm hs).trans (weight_le_weightOf hm)
  | _ =>
    obtain rfl := List.mem_singleton.1 hs
    exact Nat.le_refl _

/-- Intersecting types weighs no more than they do. -/
lemma weight_intersection_le {ts : List Ty} (h : ∀ t ∈ ts, t.weight w ≤ k) :
    (intersection ts).weight w ≤ k :=
  intersection_of_forall (P := fun t => t.weight w ≤ k) (Nat.zero_le k) (fun _ => weightOf_le_iff) h

/-- A substitution adds to the weight of a type no more than what is put in weighs. -/
lemma weight_rebuild_le {s : Subst} (h : ∀ v, (s.rebuild (.var v)).weight w ≤ k) (t : Ty) :
    (s.rebuild t).weight w ≤ t.weight w + k := by
  have each {ts : List Ty} (ih : ∀ t ∈ ts, (s.rebuild t).weight w ≤ t.weight w + k) :
      ∀ t ∈ ts.map s.rebuild, t.weight w ≤ weightOf w ts + k := by
    refine List.forall_mem_map.2 fun t ht => (ih t ht).trans ?_
    exact Nat.add_le_add_right (weight_le_weightOf ht) k
  induction t using rec_members with
  | var v => exact (h v).trans (Nat.le_add_left _ _)
  | array e ih | wildExtends e ih => exact ih
  | wildSuper l ih =>
    rw [Subst.rebuild_wildSuper, weight, weight, Nat.add_right_comm]
    exact Nat.succ_le_succ ih
  | cls c args ih =>
    rw [Subst.rebuild_cls, weight, weight, Nat.add_assoc]
    exact Nat.add_le_add_left (weightOf_le_iff.2 (each ih)) _
  | inter ms ih =>
    rw [Subst.rebuild_inter]
    exact weight_intersection_le (each ih)
  | _ => exact Nat.zero_le _

end Weight

end Ty

namespace ClassTable

variable {t : ClassTable}

/-- No declared supertype weighs more than its class, and `Object` weighs nothing. -/
structure Weighted (t : ClassTable) (w : ClassId → Nat) : Prop where
  supertypes : ∀ i (hi : i < t.classes.size), ∀ s ∈ t.classes[i].supertypes, s.weight w ≤ w ⟨i⟩
  object : w t.wellKnown.object = 0

section Weighted

variable {w : ClassId → Nat} (weighted : t.Weighted w)

include weighted

/-- What stands directly above a class type weighs no more than it. -/
lemma weight_le_of_mem_parents {c e : ClassTy} (he : e ∈ t.parents c) :
    e.toTy.weight w ≤ c.toTy.weight w := by
  have declared {d : ClassDecl} (hd : t.class? c.head = some d) {s : Ty} (hs : s ∈ d.supertypes) :
      s.weight w ≤ w c.head := by
    obtain ⟨hi, rfl⟩ := Array.getElem?_eq_some_iff.1 hd
    exact weighted.supertypes _ hi s hs
  cases mem_parents_iff.1 he with
  | @declared d s _ hd full hs seen =>
    -- What is put in for a type parameter is an argument, or unknown where one is left out.
    have images (v : TypeVarId) :
        ((t.instantiate d c.args).rebuild (.var v)).weight w ≤ Ty.weightOf w c.args := by
      cases hv : (t.instantiate d c.args).get? v with
      | none =>
        rw [Subst.rebuild_var_of_none hv]
        exact Nat.zero_le _
      | some x =>
        rw [Subst.rebuild_var_of_some hv]
        rw [instantiate, full] at hv
        have hx := (List.of_mem_zip (Subst.mem_of_get?_ofList hv)).2
        rcases List.mem_append.1 hx with hx | hx
        · exact Ty.weight_le_weightOf hx
        · rw [List.eq_of_mem_replicate hx]
          exact Nat.zero_le _
    rw [← seen, Subst.apply]
    split
    · exact (declared hd hs).trans (Nat.le_add_right _ _)
    · exact (Ty.weight_rebuild_le images s).trans (Nat.add_le_add_right (declared hd hs) _)
  | @raw d u hd _ hu =>
    have head : w u.head ≤ w c.head := (Nat.le_add_right _ _).trans (declared hd hu)
    exact head.trans (Nat.le_add_right _ _)
  | root =>
    have nothing : (ClassTy.toTy ⟨t.wellKnown.object, []⟩).weight w = 0 := weighted.object
    rw [nothing]
    exact Nat.zero_le _

/-- What is uncovered from a type weighs no more than the type, or is uncovered from a variable. -/
lemma weight_le_of_uncovers {x y : Ty} (h : t.Uncovers x y) :
    y.weight w ≤ x.weight w ∨ ∃ v, t.Uncovers (.var v) y := by
  induction h with
  | self => exact .inl (Nat.le_refl _)
  | part _ hz ih =>
    rcases ih with le | ⟨v, hv⟩
    · exact .inl ((Ty.weight_le_of_mem_subterms hz).trans le)
    · exact .inr ⟨v, hv.part hz⟩
  | above _ he ih =>
    rcases ih with le | ⟨v, hv⟩
    · exact .inl ((weight_le_of_mem_parents weighted he).trans le)
    · exact .inr ⟨v, hv.above he⟩
  | @bound v _ _ hu _ => exact .inr ⟨v, .bound .self hu⟩

/-- Where every class has a weight and no variable nests wildcards `? super` in its bounds, no type
reverses itself for ever. -/
lemma reverses_wf (vars : ∀ v, t.Tidy (.var v) ∧ ∀ l, ¬t.Nests (.var v) l) :
    WellFounded fun l x => t.Reverses x l := by
  -- What is uncovered from a variable reverses nothing.
  have last {v : TypeVarId} {x : Ty} (hx : t.Uncovers (.var v) x) :
      Acc (fun l x => t.Reverses x l) x := by
    refine Acc.intro _ fun l ⟨_, nests⟩ => ?_
    exact absurd ((nests ((vars v).1.of_uncovers hx)).of_uncovers hx) ((vars v).2 l)
  suffices all : ∀ n x, x.weight w = n → Acc (fun l x => t.Reverses x l) x from
    ⟨fun x => all _ x rfl⟩
  intro n
  induction n using Nat.strong_induction_on with
  | _ n lighter =>
    rintro x rfl
    refine Acc.intro _ fun l ⟨hl, _⟩ => ?_
    rcases weight_le_of_uncovers weighted hl with le | ⟨v, hv⟩
    · exact lighter _ (Nat.lt_of_succ_le le) l rfl
    · exact last (hv.part Ty.mem_subterms_wildSuper)

end Weighted

/-- Whether the types of a list are closed under the ways to uncover, with wildcards as type
arguments only and none of the form `? super` in the floor of an argument. -/
def quiet (t : ClassTable) (xs : List Ty) : Bool :=
  xs.all fun x =>
    !x.misplacesWildcard && x.subterms.all xs.contains &&
      match x with
      | .cls c args =>
        (t.parents ⟨c, args⟩).all (fun e => xs.contains e.toTy) &&
          args.all fun a => a.floor?.toList.all fun q => q.subterms.all fun s =>
            match s with
            | .wildSuper _ => false
            | _ => true
      | .var v => (t.upperBounds v).all xs.contains
      | _ => true

/-- The types of a quiet list are tidy and nest no wildcards. -/
lemma tidy_of_quiet {xs : List Ty} {x : Ty} (h : t.quiet xs = true) (hx : x ∈ xs) :
    t.Tidy x ∧ ∀ l, ¬t.Nests x l := by
  simp only [quiet, List.all_eq_true, Bool.and_eq_true, Bool.not_eq_true', List.contains_iff_mem]
    at h
  have mem {y : Ty} (hy : t.Uncovers x y) : y ∈ xs := by
    refine hy.of_closed (P := (· ∈ xs)) (fun y hy z hz => ?_) (fun c hc e he => ?_)
      (fun v hv u hu => ?_) hx
    · exact (h y hy).1.2 z hz
    · exact List.contains_iff_mem.1 (List.all_eq_true.1 (Bool.and_eq_true_iff.1 (h _ hc).2).1 e he)
    · exact List.contains_iff_mem.1 (List.all_eq_true.1 (h _ hv).2 u hu)
  refine ⟨fun y hy => (h y (mem hy)).1.1, ?_⟩
  rintro l ⟨e, he, a, ha, q, floor, hl⟩
  have args := (Bool.and_eq_true_iff.1 (h _ (mem he)).2).2
  have inFloor := List.all_eq_true.1 (List.all_eq_true.1 args a ha) q (by simp [floor])
  cases List.all_eq_true.1 inFloor _ hl

/-- No variable nests wildcards `? super` in its bounds if those that have bounds are in such a
list. -/
lemma tidy_of_params {xs : List Ty} (h : t.quiet xs = true)
    (bounded : ∀ i (hi : i < t.params.size), t.params[i].upperBounds = [] ∨ .var ⟨i⟩ ∈ xs)
    (v : TypeVarId) : t.Tidy (.var v) ∧ ∀ l, ¬t.Nests (.var v) l := by
  have unbounded (none : t.upperBounds v = []) : t.quiet [.var v] = true := by
    simp [quiet, none, Ty.misplacesWildcard, Ty.subterms]
  cases hp : t.param? v with
  | none =>
    refine tidy_of_quiet (unbounded ?_) (List.mem_singleton_self _)
    rw [upperBounds, hp]
  | some p =>
    obtain ⟨hi, rfl⟩ := Array.getElem?_eq_some_iff.1 hp
    rcases bounded v.raw hi with none | mem
    · refine tidy_of_quiet (unbounded ?_) (List.mem_singleton_self _)
      rw [upperBounds, hp]
      exact none
    · exact tidy_of_quiet h mem

/-- Upper bounds are bounds of a type parameter that is declared. -/
lemma exists_param_of_mem_upperBounds {v : TypeVarId} {u : Ty} (hu : u ∈ t.upperBounds v) :
    ∃ p ∈ t.params, u ∈ p.upperBounds := by
  unfold upperBounds at hu
  split at hu
  · rename_i p hp
    exact ⟨p, Array.mem_of_getElem? hp, hu⟩
  · cases hu

/-- Bounds are acyclic if each variable ranks above those that its bounds expose. -/
lemma acyclicBounds_of_exposed (rank : TypeVarId → Nat)
    (h : ∀ i (hi : i < t.params.size), ∀ u ∈ t.params[i].upperBounds, ∀ w ∈ u.exposed,
      rank w < rank ⟨i⟩) : t.AcyclicBounds := by
  have bound {v w : TypeVarId} {u : Ty} (hu : u ∈ t.upperBounds v) (hw : w ∈ u.exposed) :
      rank w < rank v := by
    unfold upperBounds at hu
    split at hu
    · rename_i p hp
      obtain ⟨hi, rfl⟩ := Array.getElem?_eq_some_iff.1 hp
      exact h v.raw hi u hu w hw
    · cases hu
  have below {v : TypeVarId} {y : Ty} (path : Relation.TransGen t.Opens (.var v) y) :
      ∀ w ∈ y.exposed, rank w < rank v := by
    induction path with
    | single opens =>
      cases opens with
      | bound hu => exact fun w hw => bound hu hw
    | tail _ opens ih =>
      intro w hw
      cases opens with
      | member hm => exact ih w (Ty.mem_exposedOf.2 ⟨_, hm, hw⟩)
      | bound hu => exact (bound hu hw).trans (ih _ List.mem_cons_self)
      | wildcard => exact ih w hw
  exact fun v cycle => Nat.lt_irrefl _ (below cycle v List.mem_cons_self)

/-- Bounds that are class types lead back to no variable. -/
lemma acyclicBounds_of_classes
    (h : ∀ p ∈ t.params, ∀ u ∈ p.upperBounds, u.asClass?.isSome = true) : t.AcyclicBounds := by
  refine acyclicBounds_of_exposed (fun _ => 0) fun i hi u hu w hw => ?_
  obtain ⟨c, rfl⟩ := Ty.exists_eq_toTy (h _ (Array.getElem_mem hi) u hu)
  cases hw

/-- A table without lower bounds in its type parameters has none. -/
lemma lowerBound?_of_params (h : ∀ p ∈ t.params, p.lowerBound = none) (v : TypeVarId) :
    t.lowerBound? v = none := by
  rw [lowerBound?]
  cases hp : t.param? v with
  | none => rfl
  | some p => exact h p (Array.mem_of_getElem? hp)

end ClassTable

end LambdaTyping
