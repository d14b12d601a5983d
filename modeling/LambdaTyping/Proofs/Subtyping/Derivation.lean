import LambdaTyping.Proofs.Subtyping.Basic

/-!
# Derivations of subtyping

`Below` is subtyping as a relation: a derivation meets the goals of a plan, down to goals that are
known. A question that is answered at all is answered by whether there is a derivation
(`gives_subtype`). The rules of the relation are read off the table of plans, one shape at a time.
-/

namespace LambdaTyping

/-- The goal has a derivation. -/
inductive Goal.Met (t : ClassTable) : Goal → Prop
  | known : Met t (.known true)
  | every {a b : Ty} {gs : List Goal} : t.subtypePlan a b = .every gs → (∀ g ∈ gs, Met t g) →
      Met t (.subtype a b)
  | any {a b : Ty} {gs : List Goal} {g : Goal} : t.subtypePlan a b = .any gs → g ∈ gs → Met t g →
      Met t (.subtype a b)

/-- The goals that the plan asks for have the property. -/
def Plan.Holds (P : Goal → Prop) : Plan → Prop
  | .every gs => ∀ g ∈ gs, P g
  | .any gs => ∃ g ∈ gs, P g

/-- The goals that the plan asks for have derivations. -/
def Plan.Met (t : ClassTable) : Plan → Prop :=
  Plan.Holds (Goal.Met t)

section Plans

variable {t : ClassTable}

/-- A plan whose goals have a property has every weaker one. -/
lemma Plan.Holds.imp {P Q : Goal → Prop} {p : Plan} (h : p.Holds P) (pq : ∀ g, P g → Q g) :
    p.Holds Q := by
  cases p with
  | every gs => exact fun g hg => pq g (h g hg)
  | any gs =>
    obtain ⟨g, hg, hp⟩ := h
    exact ⟨g, hg, pq g hp⟩

/-- What is known is met if it holds. -/
@[simp] lemma Goal.met_known_iff {holds : Bool} : (Goal.known holds).Met t ↔ holds = true := by
  constructor
  · intro h
    cases h with
    | known => rfl
  · rintro rfl
    exact .known

/-- A single goal is met as a plan if it is met as a goal. -/
@[simp] lemma Plan.met_one_iff {g : Goal} : (Plan.one g).Met t ↔ g.Met t :=
  List.forall_mem_singleton

/-- A plan that is known is met if it holds. -/
@[simp] lemma Plan.met_known_iff {holds : Bool} : (Plan.known holds).Met t ↔ holds = true :=
  Plan.met_one_iff.trans Goal.met_known_iff

end Plans

namespace ClassTable

variable {t : ClassTable}

/-- Subtyping as a relation. -/
def Below (t : ClassTable) (a b : Ty) : Prop :=
  (Goal.subtype a b).Met t

/-- A type is below another if the plan for the two is met. -/
lemma below_iff {a b : Ty} : t.Below a b ↔ (t.subtypePlan a b).Met t := by
  constructor
  · intro h
    cases h with
    | every plan all =>
      rw [plan]
      exact all
    | any plan mem met =>
      rw [plan]
      exact ⟨_, mem, met⟩
  · intro h
    cases plan : t.subtypePlan a b with
    | every gs =>
      rw [plan] at h
      exact .every plan h
    | any gs =>
      rw [plan] at h
      obtain ⟨g, mem, met⟩ := h
      exact .any plan mem met

/-- Induction on derivations: a property that goes from the goals of a plan to the question. -/
lemma below_induction {P : Ty → Ty → Prop}
    (step : ∀ a b, (t.subtypePlan a b).Holds
      (fun g => g.Met t ∧ ∀ x y, g = .subtype x y → P x y) → P a b) {a b : Ty}
    (h : t.Below a b) : P a b := by
  obtain ⟨g, goal⟩ : ∃ g, g = Goal.subtype a b := ⟨_, rfl⟩
  rw [Below, ← goal] at h
  induction h generalizing a b with
  | known => cases goal
  | every plan all ih =>
    cases goal
    refine step _ _ ?_
    rw [plan]
    exact fun g hg => ⟨all g hg, fun x y e => ih g hg e⟩
  | any plan mem met ih =>
    cases goal
    refine step _ _ ?_
    rw [plan]
    exact ⟨_, mem, met, fun x y e => ih e⟩

section ClassTypes

/-- A property holds of two lists put together if it holds place by place. -/
lemma forall_mem_zipWith_iff {α β γ : Type} {f : α → β → γ} {Q : γ → Prop} {as : List α}
    {bs : List β} (length : as.length = bs.length) :
    (∀ g ∈ List.zipWith f as bs, Q g) ↔ List.Forall₂ (fun a b => Q (f a b)) as bs := by
  rw [← List.map_uncurry_zip_eq_zipWith, List.forall₂_iff_zip, List.forall_mem_map]
  exact ⟨fun h => ⟨length, fun mem => h _ mem⟩, fun h p hp => h.2 hp⟩

/-- What the plan for class types asks of a view: that it or the type above is raw, or that its
arguments are included place by place. -/
lemma classPlan_holds_iff {Q : Goal → Prop} (known : ∀ holds, Q (.known holds) ↔ holds = true) :
    (t.classPlan c d).Holds Q ↔ ∃ e, t.classView? c d.head = some e ∧
      ((d.args.isEmpty || e.args.isEmpty) = true ∨
        List.Forall₂ (fun formal actual => Q (t.argumentGoal formal actual)) d.args e.args) := by
  have settled (holds : Bool) : (Plan.known holds).Holds Q ↔ holds = true :=
    List.forall_mem_singleton.trans (known holds)
  unfold classPlan
  -- The plan is known without a view, in a raw use, and where the numbers of arguments differ.
  cases view : t.classView? c d.head with
  | none => simp [settled]
  | some e =>
    dsimp only
    split
    · rename_i raw
      exact iff_of_true ((settled true).2 rfl) ⟨e, rfl, .inl raw⟩
    · rename_i full
      split
      · rename_i length
        refine (forall_mem_zipWith_iff length).trans ?_
        constructor
        · exact fun all => ⟨e, rfl, .inr all⟩
        · rintro ⟨e', same, raw | all⟩
          · cases same
            exact absurd raw full
          · cases same
            exact all
      · rename_i length
        refine iff_of_false (fun h => nomatch (settled false).1 h) ?_
        rintro ⟨e', same, raw | all⟩
        · cases same
          exact absurd raw full
        · cases same
          exact length all.length_eq

end ClassTypes

section Answers

/-- An answer to a plan says whether its goals are met, if the answers to subtype questions do. -/
lemma met_of_pursue {f : Ty → Ty → Query Bool}
    (ih : ∀ a b r, (f a b).Gives r → (r = true ↔ t.Below a b)) {p : Plan} {r : Bool}
    (h : (p.pursue f).Gives r) : r = true ↔ p.Met t := by
  have goal {g : Goal} {r : Bool} (h : (g.pursue f).Gives r) : r = true ↔ g.Met t := by
    cases g with
    | known b =>
      obtain rfl := Query.gives_pure_iff.1 h
      exact Goal.met_known_iff.symm
    | subtype a b => exact ih a b r h
  cases p with
  | every gs =>
    cases r with
    | true => exact iff_of_true rfl fun g hg => (goal (Query.gives_allM_true_iff.1 h g hg)).1 rfl
    | false =>
      obtain ⟨g, hg, no⟩ := Query.exists_of_allM_false h
      exact iff_of_false Bool.false_ne_true fun all => nomatch (goal no).2 (all g hg)
  | any gs =>
    cases r with
    | true =>
      obtain ⟨g, hg, yes⟩ := Query.exists_of_anyM_true h
      exact iff_of_true rfl ⟨g, hg, (goal yes).1 rfl⟩
    | false =>
      refine iff_of_false Bool.false_ne_true ?_
      rintro ⟨g, hg, met⟩
      exact nomatch (goal (Query.forall_of_anyM_false h g hg)).2 met

/-- Answers are right within any number of steps, by induction on that number. -/
lemma gives_subtypeWithin (n : Nat) (a b : Ty) (r : Bool) (h : (t.subtypeWithin n a b).Gives r) :
    r = true ↔ t.Below a b := by
  induction n generalizing a b r with
  | zero =>
    obtain ⟨_, _, h⟩ := h
    cases h
  | succ n ih =>
    obtain ⟨_, _, h⟩ := Query.gives_bind_iff.1 h
    rw [below_iff]
    exact met_of_pursue ih h

/-- A question that is answered is answered by whether there is a derivation. -/
theorem gives_subtype {a b : Ty} {r : Bool} (h : (t.subtype a b).Gives r) :
    r = true ↔ t.Below a b := by
  obtain ⟨n, es, h⟩ := h
  exact gives_subtypeWithin n a b r ⟨n, es, h⟩

/-- A question that comes down to itself alone has no answer. -/
lemma not_ends_of_plan {a b : Ty} (h : t.subtypePlan a b = .every [.subtype a b]) :
    ¬(t.subtype a b).Ends := by
  have never (n : Nat) (r : Bool) : ¬(t.subtypeWithin n a b).Gives r := by
    induction n generalizing r with
    | zero =>
      rintro ⟨_, _, h⟩
      cases h
    | succ n ih =>
      intro answered
      obtain ⟨_, _, answered⟩ := Query.gives_bind_iff.1 answered
      rw [h] at answered
      obtain ⟨r, answered, _⟩ := Query.gives_bind_iff.1 answered
      exact ih r answered
  rintro ⟨r, n, es, h⟩
  exact never n r ⟨n, es, h⟩

end Answers

section Rules

variable {a b : Ty}

/-- A type is below itself. -/
@[refl] lemma below_self (t : ClassTable) (a : Ty) : t.Below a a := by
  refine below_iff.2 ?_
  unfold subtypePlan
  rw [if_pos rfl]
  exact Plan.met_known_iff.2 rfl

/-- The unknown type is below every type. -/
lemma below_of_unknown (t : ClassTable) (b : Ty) : t.Below .unknown b := by
  rw [below_iff, subtypePlan_of_unknown]
  exact Plan.met_known_iff.2 rfl

/-- Every type is below the unknown type. -/
lemma below_unknown (t : ClassTable) (a : Ty) : t.Below a .unknown := by
  rw [below_iff, subtypePlan_unknown]
  exact Plan.met_known_iff.2 rfl

/-- The type of `null` is below every reference type. -/
lemma below_null (h : b.isReference = true) : t.Below .null b := by
  refine below_iff.2 ?_
  unfold subtypePlan
  split
  · exact Plan.met_known_iff.2 rfl
  · cases b with
    | void | unknown | prim => cases h
    | _ => exact Plan.met_known_iff.2 rfl

/-- A reference type that is compared as a whole: no intersection, which is taken apart first, and
no wildcard. -/
structure IsWhole (b : Ty) : Prop where
  reference : b.isReference = true
  notIntersection : b.isIntersection = false
  notWildcard : b.isWildcard = false

/-- Of an intersection on the left some member has to be below a type that is no intersection. -/
lemma subtypePlan_inter_left {ms : List Ty} (ref : b.isReference = true)
    (flat : b.isIntersection = false) :
    t.subtypePlan (.inter ms) b = .any (ms.map fun m => .subtype m b) := by
  unfold subtypePlan
  cases b with
  | void | unknown | prim => cases ref
  | inter => cases flat
  | _ => exact if_neg nofun

/-- Of a type variable on the left some bound has to be below a type that is no intersection. -/
lemma subtypePlan_var_left {v : TypeVarId} (ref : b.isReference = true)
    (flat : b.isIntersection = false) (ne : Ty.var v ≠ b) :
    t.subtypePlan (.var v) b =
      match t.upperBounds v with
      | [] => .known (t.isObject b)
      | bounds => .any (bounds.map fun u => .subtype u b) := by
  unfold subtypePlan
  rw [if_neg ne]
  cases b with
  | void | unknown | prim => cases ref
  | inter => cases flat
  | _ => rfl

/-- A reference type is below an intersection if it is below all members. -/
lemma below_inter_of_forall {ms : List Ty} (ref : a.isReference = true)
    (h : ∀ m ∈ ms, t.Below a m) : t.Below a (.inter ms) := by
  by_cases same : a = .inter ms
  · rw [same]
  · rw [below_iff]
    unfold subtypePlan
    rw [if_neg same]
    cases a with
    | void | unknown | prim => cases ref
    | null => exact Plan.met_known_iff.2 rfl
    | _ => exact List.forall_mem_map.2 h

/-- A type below the lower bound of a type variable is below the variable. -/
lemma below_of_lowerBound {v : TypeVarId} {l : Ty} (ref : a.isReference = true)
    (flat : a.isIntersection = false) (notVar : ∀ w, a ≠ .var w)
    (lower : t.lowerBound? v = some l) (h : t.Below a l) : t.Below a (.var v) := by
  rw [below_iff]
  unfold subtypePlan
  rw [if_neg (notVar v)]
  cases a with
  | void | unknown | prim => cases ref
  | inter => cases flat
  | var w => exact absurd rfl (notVar w)
  | null => exact Plan.met_known_iff.2 rfl
  | _ =>
    dsimp only
    rw [lower]
    exact Plan.met_one_iff.2 h

/-- An upper-bounded wildcard is below what its bound is below. -/
lemma below_of_wildExtends {u : Ty} (ref : b.isReference = true) (flat : b.isIntersection = false)
    (notVar : ∀ w, b ≠ .var w) (h : t.Below u b) : t.Below (.wildExtends u) b := by
  by_cases same : Ty.wildExtends u = b
  · rw [same]
  · rw [below_iff]
    unfold subtypePlan
    rw [if_neg same]
    cases b with
    | void | unknown | prim => cases ref
    | inter => cases flat
    | var w => exact absurd rfl (notVar w)
    | _ => exact Plan.met_one_iff.2 h

/-- A type that a wildcard contains is below the wildcard. -/
lemma below_of_argument {formal : Ty} (ref : a.isReference = true) (flat : a.isIntersection = false)
    (notVar : ∀ w, a ≠ .var w) (plain : a.isWildcard = false) (wild : formal.isWildcard = true)
    (h : (t.argumentGoal formal a).Met t) : t.Below a formal := by
  rw [below_iff]
  unfold subtypePlan
  cases a with
  | void | unknown | prim => cases ref
  | inter => cases flat
  | var w => exact absurd rfl (notVar w)
  | wild | wildExtends | wildSuper => cases plain
  | null =>
    cases formal with
    | wild | wildExtends | wildSuper => exact Plan.met_known_iff.2 rfl
    | _ => cases wild
  | _ =>
    cases formal with
    | wild | wildExtends | wildSuper => exact Plan.met_one_iff.2 h
    | _ => cases wild

end Rules

end ClassTable

end LambdaTyping
