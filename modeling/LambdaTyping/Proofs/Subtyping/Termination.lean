import LambdaTyping.Proofs.Subtyping.Answers

/-!
# Where subtyping ends

A subtype question issues others. With no lower bounds, and bounds that do not come back to the
variable they bound, the questions that keep the two sides apart end: they open the left side and
leave the right one as it is, or take the right one apart (`ComesTo.cases`). Only a bound
`? super l` makes the sides change places: on the left then stands `l`, on the right something that
was uncovered from the left (`terminates_of_reflects`).

After two changes the left side is again on the left, where it has become the bound of a wildcard
`? super` that it uncovers itself. So subtyping ends if no type reverses itself in this way for ever
(`terminates`, `ends_of_terminates`). A wildcard that is the type argument of a class, as in a bound
`Comparable<? super T>`, does not count by itself, since it is taken apart by the change that it
causes; it counts inside a type argument only.
-/

namespace LambdaTyping

namespace Ty

/-- The type that all types a type argument stands for are above: the argument itself if it is no
wildcard, and the bound of `? super`. -/
def floor? : Ty → Option Ty
  | .wildSuper l => some l
  | .wild | .wildExtends _ => none
  | x => some x

/-- The type that all types a type argument stands for are below. -/
def ceiling? : Ty → Option Ty
  | .wildExtends u => some u
  | .wild | .wildSuper _ => none
  | x => some x

/-- The floor of a type argument occurs in it. -/
lemma mem_subterms_of_floor? {x q : Ty} (h : x.floor? = some q) : q ∈ x.subterms := by
  cases x with
  | wild | wildExtends => cases h
  | wildSuper =>
    cases h
    exact mem_subterms_wildSuper
  | _ =>
    cases h
    exact mem_subterms_self _

/-- The ceiling of a type argument occurs in it. -/
lemma mem_subterms_of_ceiling? {x p : Ty} (h : x.ceiling? = some p) : p ∈ x.subterms := by
  cases x with
  | wild | wildSuper => cases h
  | wildExtends =>
    cases h
    exact mem_subterms_wildExtends
  | _ =>
    cases h
    exact mem_subterms_self _

/-- The floor of a type argument without misplaced wildcards is no wildcard. -/
lemma notWildcard_of_floor? {x q : Ty} (plain : x.misplacesWildcard = false)
    (h : x.floor? = some q) : q.isWildcard = false := by
  cases x with
  | wild | wildExtends => cases h
  | wildSuper l =>
    cases h
    exact plain
  | _ =>
    cases h
    rfl

end Ty

namespace ClassTable

variable {t : ClassTable}

/-- A subtype question issues another. -/
def Issues (t : ClassTable) (x y : Ty × Ty) : Prop :=
  .subtype y.1 y.2 ∈ (t.subtypePlan x.1 x.2).goals

/-- A chain of subtype questions, each issued by the one before, that begins with this one and does
not end. -/
def RecursForever (t : ClassTable) (a b : Ty) : Prop :=
  ∃ chain : ℕ → Ty × Ty, chain 0 = (a, b) ∧ ∀ n, t.Issues (chain n) (chain (n + 1))

/-- No chain of subtype questions that begins with this one is endless: it terminates once those
that it issues do. -/
def Terminates (t : ClassTable) (a b : Ty) : Prop :=
  Acc (fun y x => t.Issues x y) (a, b)

/-- What a type is opened into where it stands on the left: the members of an intersection, the
bounds of a variable, the bound of a wildcard `? extends`. -/
inductive Opens (t : ClassTable) : Ty → Ty → Prop
  | member {m : Ty} {ms : List Ty} : m ∈ ms → Opens t (.inter ms) m
  | bound {v : TypeVarId} {u : Ty} : u ∈ t.upperBounds v → Opens t (.var v) u
  | wildcard {u : Ty} : Opens t (.wildExtends u) u

/-- No type variable comes back to itself by its bounds. -/
def AcyclicBounds (t : ClassTable) : Prop :=
  ∀ v, ¬Relation.TransGen t.Opens (.var v) (.var v)

/-- What can be uncovered from a type: the types that occur in it, the class types above class
types, the bounds of variables, and what can be uncovered from these. -/
inductive Uncovers (t : ClassTable) (x : Ty) : Ty → Prop
  | self : Uncovers t x x
  | part {y z : Ty} : Uncovers t x y → z ∈ y.subterms → Uncovers t x z
  | above {c e : ClassTy} : Uncovers t x c.toTy → e ∈ t.parents c → Uncovers t x e.toTy
  | bound {v : TypeVarId} {u : Ty} : Uncovers t x (.var v) → u ∈ t.upperBounds v → Uncovers t x u

/-- In all that can be uncovered from the type wildcards stand as type arguments only. -/
def Tidy (t : ClassTable) (x : Ty) : Prop :=
  ∀ y, t.Uncovers x y → y.misplacesWildcard = false

/-- A type argument that can be uncovered from the type has wildcards `? super l` in its floor. -/
def Nests (t : ClassTable) (x l : Ty) : Prop :=
  ∃ e : ClassTy, t.Uncovers x e.toTy ∧ ∃ a ∈ e.args, ∃ q, a.floor? = some q ∧
    .wildSuper l ∈ q.subterms

/-- The type may come to stand on the left again as `l`: it uncovers a wildcard `? super l`, inside
a type argument unless wildcards are misplaced. -/
def Reverses (t : ClassTable) (x l : Ty) : Prop :=
  t.Uncovers x (.wildSuper l) ∧ (t.Tidy x → t.Nests x l)

section Uncovers

variable {x y z : Ty}

/-- What can be uncovered from what can be uncovered from a type can be uncovered from the type. -/
lemma Uncovers.trans (xy : t.Uncovers x y) (yz : t.Uncovers y z) : t.Uncovers x z := by
  induction yz with
  | self => exact xy
  | part _ hz ih => exact ih.part hz
  | above _ he ih => exact ih.above he
  | bound _ hu ih => exact ih.bound hu

/-- What stands above a class type can be uncovered from it. -/
lemma uncovers_of_reaches {c e : ClassTy} (reach : t.Reaches c e) :
    t.Uncovers c.toTy e.toTy := by
  induction reach with
  | refl => exact .self
  | tail _ he ih => exact ih.above he

/-- The arguments of a class type that can be uncovered can be uncovered as well. -/
lemma Uncovers.arg {e : ClassTy} (he : t.Uncovers x e.toTy) (hy : y ∈ e.args) : t.Uncovers x y :=
  he.part (Ty.mem_subterms_cls hy)

/-- What a type is opened into can be uncovered from it. -/
lemma Opens.uncovers (h : t.Opens x y) : t.Uncovers x y := by
  cases h with
  | member hm => exact .part .self (Ty.mem_subterms_inter hm)
  | bound hu => exact .bound .self hu
  | wildcard => exact .part .self Ty.mem_subterms_wildExtends

/-- What can be uncovered from a tidy type is tidy. -/
lemma Tidy.of_uncovers (h : t.Tidy x) (hy : t.Uncovers x y) : t.Tidy y :=
  fun z hz => h z (hy.trans hz)

/-- Wildcards in a tidy type stand as type arguments only. -/
lemma Tidy.proper (h : t.Tidy x) : x.Proper :=
  fun s hs => h s (.part .self hs)

/-- A type nests the wildcards that what can be uncovered from it nests. -/
lemma Nests.of_uncovers {l : Ty} (xy : t.Uncovers x y) (h : t.Nests y l) : t.Nests x l := by
  obtain ⟨e, he, nested⟩ := h
  exact ⟨e, xy.trans he, nested⟩

/-- The wildcards that a type nests can be uncovered from it. -/
lemma Nests.uncovers {l : Ty} (h : t.Nests x l) : t.Uncovers x (.wildSuper l) := by
  obtain ⟨e, he, a, ha, q, floor, hl⟩ := h
  exact ((he.arg ha).part (Ty.mem_subterms_of_floor? floor)).part hl

/-- What can be uncovered stays within a collection that is closed under the ways to uncover. -/
lemma Uncovers.of_closed {P : Ty → Prop} (part : ∀ y, P y → ∀ z ∈ y.subterms, P z)
    (above : ∀ c : ClassTy, P c.toTy → ∀ e ∈ t.parents c, P e.toTy)
    (bound : ∀ v, P (.var v) → ∀ u ∈ t.upperBounds v, P u) (hx : P x) (h : t.Uncovers x y) :
    P y := by
  induction h with
  | self => exact hx
  | part _ hz ih => exact part _ ih _ hz
  | above _ he ih => exact above _ ih _ he
  | bound _ hu ih => exact bound _ ih _ hu

end Uncovers

section Steps

variable {a b p q : Ty}

/-- Type arguments are compared by a bound with a ceiling, or by a floor with a bound. -/
lemma goal_of_argument {formal actual : Ty} (h : t.argumentGoal formal actual = .subtype p q) :
    formal = .wildExtends q ∧ actual.ceiling? = some p ∨
      formal = .wildSuper p ∧ actual.floor? = some q := by
  cases formal with
  | wildExtends u =>
    cases actual with
    | wild | wildSuper => cases h
    | _ =>
      cases h
      exact .inl ⟨rfl, rfl⟩
  | wildSuper l =>
    cases actual with
    | wild | wildExtends => cases h
    | _ =>
      cases h
      exact .inr ⟨rfl, rfl⟩
  | _ => cases h

/-- The right side is taken apart, into no wildcard unless one is misplaced. -/
structure Descends (t : ClassTable) (a b p q : Ty) : Prop where
  left : t.Uncovers a p
  right : q ∈ b.subterms
  smaller : sizeOf q < sizeOf b
  plain : b.ProperType → q.isWildcard = false

/-- The sides change places: what stands on the left is the bound of a wildcard `? super`, what
stands on the right comes from the left. -/
inductive Swaps (t : ClassTable) : Ty → Ty → Ty → Ty → Prop
  | argument {a l q : Ty} : a.floor? = some q → Swaps t a (.wildSuper l) l q
  | typeArgument {c d e : ClassTy} {l x q : Ty} : t.Reaches c e → .wildSuper l ∈ d.args →
      x ∈ e.args → x.floor? = some q → Swaps t c.toTy d.toTy l q

/-- A question comes down to one about what the left side opens into, to one about a part of the
right side, or to one with the sides changed. -/
lemma ComesTo.cases (lower : ∀ v, b = .var v → t.lowerBound? v = none) (h : t.ComesTo a b p q) :
    t.Opens a p ∧ q = b ∨ t.Descends a b p q ∨ t.Swaps a b p q := by
  cases h with
  | every hm =>
    have size := List.sizeOf_lt_of_mem hm
    refine .inr (.inl ⟨.self, Ty.mem_subterms_inter hm, ?_, fun proper => ?_⟩)
    · simp only [Ty.inter.sizeOf_spec]
      omega
    · exact (Ty.proper_inter.1 proper.proper q hm).notWildcard
  | some hm => exact .inl ⟨.member hm, rfl⟩
  | bound hu => exact .inl ⟨.bound hu, rfl⟩
  | @lowerBound v _ _ hl =>
    rw [lower v rfl] at hl
    cases hl
  | wildcard => exact .inl ⟨.wildcard, rfl⟩
  | argument wild goal =>
    -- A bound `? extends` is taken apart where it stands, a bound `? super` changes places.
    rcases goal_of_argument goal with ⟨rfl, ceiling⟩ | ⟨rfl, floor⟩
    · exact .inr (.inl ⟨.part .self (Ty.mem_subterms_of_ceiling? ceiling),
        Ty.mem_subterms_wildExtends, by simp, fun proper => nomatch proper.notWildcard⟩)
    · exact .inr (.inr (.argument floor))
  | element =>
    exact .inr (.inl ⟨.part .self Ty.mem_subterms_array, Ty.mem_subterms_array, by simp,
      fun proper => (Ty.proper_array.1 proper.proper).notWildcard⟩)
  | @typeArgument c d as bs e f x _ _ view hf hx goal =>
    have reach := reaches_of_mem_classClosure (mem_of_classView? view).1
    rcases goal_of_argument goal with ⟨rfl, ceiling⟩ | ⟨rfl, floor⟩
    · have size := List.sizeOf_lt_of_mem hf
      refine .inr (.inl ⟨?_, ?_, ?_, fun proper => ?_⟩)
      · exact ((uncovers_of_reaches reach).arg hx).part (Ty.mem_subterms_of_ceiling? ceiling)
      · exact Ty.mem_subterms_trans (Ty.mem_subterms_cls hf) Ty.mem_subterms_wildExtends
      · simp only [Ty.wildExtends.sizeOf_spec, Ty.cls.sizeOf_spec] at size ⊢
        omega
      · exact (Ty.proper_wildExtends.1 (Ty.proper_cls.1 proper.proper _ hf)).notWildcard
    · exact .inr (.inr (.typeArgument (c := ⟨c, as⟩) (d := ⟨d, bs⟩) reach hf hx floor))

end Steps

/-- Opening the left side ends. -/
lemma opens_wf (acyclic : t.AcyclicBounds) : WellFounded fun y x => t.Opens x y := by
  -- By induction on the variables that have not been met on the way to the type.
  suffices h : ∀ n seen, t.paramsOutside seen = n → ∀ x,
      (∀ w ∈ seen, Relation.TransGen t.Opens (.var w) x) → Acc (fun y x => t.Opens x y) x from
    ⟨fun x => h _ [] rfl x nofun⟩
  intro n
  induction n using Nat.strong_induction_on with
  | _ n fewer =>
    rintro seen rfl x met
    induction x using Ty.rec_members with
    | var v =>
      refine Acc.intro _ fun u opens => ?_
      have step := opens
      cases opens with
      | bound hu =>
        have fresh : v ∉ seen := fun hv => acyclic v (met v hv)
        have declared : (t.param? v).isSome := by
          cases hv : t.param? v with
          | none =>
            rw [upperBounds, hv] at hu
            cases hu
          | some p => rfl
        refine fewer _ (paramsOutside_cons_lt declared fresh) (v :: seen) rfl u ?_
        exact List.forall_mem_cons.2 ⟨.single step, fun w hw => (met w hw).tail step⟩
    | inter ms ih =>
      refine Acc.intro _ fun m opens => ?_
      have step := opens
      cases opens with
      | member hm => exact ih m hm fun w hw => (met w hw).tail step
    | wildExtends u ih =>
      refine Acc.intro _ fun u' opens => ?_
      have step := opens
      cases opens with
      | wildcard => exact ih fun w hw => (met w hw).tail step
    | _ =>
      refine Acc.intro _ fun _ opens => ?_
      cases opens

/-- A question may come down to one about `p` and `q` by a first change of sides. -/
structure Reflects (t : ClassTable) (a b p q : Ty) : Prop where
  super : .wildSuper p ∈ b.subterms
  floor : ∃ x, t.Uncovers a x ∧ x.floor? = some q ∧
    (b.ProperType → ∃ e : ClassTy, t.Uncovers a e.toTy ∧ x ∈ e.args)

section Changes

variable {a b p q : Ty}

/-- A change of sides between what is uncovered from the left and a part of the right is a first
change. -/
lemma Swaps.reflects {x y : Ty} (hx : t.Uncovers a x) (hy : y ∈ b.subterms)
    (plain : b.ProperType → y.isWildcard = false) (h : t.Swaps x y p q) : t.Reflects a b p q := by
  cases h with
  | argument floor =>
    exact ⟨hy, x, hx, floor, fun proper => nomatch plain proper⟩
  | @typeArgument c d e _ z _ reach hl hz floor =>
    have above := hx.trans (uncovers_of_reaches reach)
    exact ⟨Ty.mem_subterms_trans hy (Ty.mem_subterms_cls hl), z, above.arg hz, floor,
      fun _ => ⟨e, above, hz⟩⟩

/-- A question terminates if those do that it may come down to by a first change of sides. Lower
bounds matter for the variables on the right only. -/
lemma terminates_of_reflects_of_mem (acyclic : t.AcyclicBounds)
    (lower : ∀ v, .var v ∈ b.subterms → t.lowerBound? v = none)
    (h : ∀ p q, t.Reflects a b p q → t.Terminates p q) :
    t.Terminates a b := by
  -- The sides stay apart: `x` comes from the left, and `y`, which occurs on the right, goes down.
  suffices all : ∀ n y, sizeOf y = n → y ∈ b.subterms → (b.ProperType → y.isWildcard = false) →
      ∀ x, t.Uncovers a x → t.Terminates x y from
    all _ b rfl b.mem_subterms_self (fun proper => proper.notWildcard) a .self
  intro n
  induction n using Nat.strong_induction_on with
  | _ n smaller =>
    rintro y rfl hy plain x
    induction x using (opens_wf acyclic).induction with
    | _ x opened =>
      intro hx
      refine Acc.intro _ fun ⟨p, q⟩ issued => ?_
      have unbounded : ∀ v, y = .var v → t.lowerBound? v = none := by
        rintro v rfl
        exact lower v hy
      rcases (comesTo_of_mem_goals issued).cases unbounded with ⟨opens, rfl⟩ | descends | swaps
      · exact opened p opens (hx.trans opens.uncovers)
      · refine smaller _ descends.smaller q rfl (Ty.mem_subterms_trans hy descends.right)
          (fun proper => descends.plain ⟨?_, plain proper⟩) p (hx.trans descends.left)
        exact fun s hs => proper.proper s (Ty.mem_subterms_trans hy hs)
      · exact h p q (swaps.reflects hx hy plain)

/-- A question terminates if all that it comes down to by a first change of sides do. -/
lemma terminates_of_reflects (acyclic : t.AcyclicBounds) (lower : ∀ v, t.lowerBound? v = none)
    (h : ∀ p q, t.Reflects a b p q → t.Terminates p q) : t.Terminates a b :=
  terminates_of_reflects_of_mem acyclic (fun v _ => lower v) h

variable (acyclic : t.AcyclicBounds) (lower : ∀ v, t.lowerBound? v = none)
  (reverses : WellFounded fun l x => t.Reverses x l)

include acyclic lower reverses

/-- A question about a tidy type on the right terminates. -/
lemma terminates_of_tidy_right (a : Ty) (hb : t.Tidy b) (plain : b.isWildcard = false) :
    t.Terminates a b := by
  induction a using reverses.induction generalizing b with
  | _ a ih =>
    refine terminates_of_reflects acyclic lower fun p q first => ?_
    obtain ⟨x, hx, floor, argument⟩ := first.floor
    obtain ⟨e, he, hxe⟩ := argument ⟨hb.proper, plain⟩
    have fromRight : t.Uncovers b p :=
      (Uncovers.self.part first.super).part Ty.mem_subterms_wildSuper
    refine terminates_of_reflects acyclic lower fun p' q' second => ?_
    have nests : t.Nests a p' := ⟨e, he, x, hxe, q, floor, second.super⟩
    obtain ⟨x', hx', floor', -⟩ := second.floor
    have tidy' := hb.of_uncovers (fromRight.trans hx')
    refine ih p' ⟨nests.uncovers, fun _ => nests⟩
      (tidy'.of_uncovers (.part .self (Ty.mem_subterms_of_floor? floor'))) ?_
    exact Ty.notWildcard_of_floor? (tidy' _ .self) floor'

/-- A question about a tidy type on the left terminates. -/
lemma terminates_of_tidy_left (ha : t.Tidy a) (b : Ty) : t.Terminates a b := by
  refine terminates_of_reflects acyclic lower fun p q first => ?_
  obtain ⟨x, hx, floor, -⟩ := first.floor
  have tidy := ha.of_uncovers hx
  exact terminates_of_tidy_right acyclic lower reverses p
    (tidy.of_uncovers (.part .self (Ty.mem_subterms_of_floor? floor)))
    (Ty.notWildcard_of_floor? (tidy x .self) floor)

/-- Every question terminates. -/
lemma terminates (a b : Ty) : t.Terminates a b := by
  induction a using reverses.induction generalizing b with
  | _ a ih =>
    by_cases ha : t.Tidy a
    · exact terminates_of_tidy_left acyclic lower reverses ha b
    · refine terminates_of_reflects acyclic lower fun p q first => ?_
      obtain ⟨x, hx, floor, -⟩ := first.floor
      refine terminates_of_reflects acyclic lower fun p' q' second => ih p' ⟨?_, fun tidy => ?_⟩ q'
      · exact (hx.part (Ty.mem_subterms_of_floor? floor)).part second.super
      · exact absurd tidy ha

end Changes

/-- A question that terminates is answered. -/
lemma ends_of_terminates {a b : Ty} (h : t.Terminates a b) : (t.subtype a b).Ends := by
  unfold Terminates at h
  generalize hx : (a, b) = x at h
  induction h generalizing a b with
  | intro x _ ih =>
    subst hx
    have goals : ∀ g ∈ (t.subtypePlan a b).goals, (g.pursue t.subtype).Ends := by
      intro g hg
      cases g with
      | known holds => exact Query.ends_pure holds
      | subtype p q => exact ih (p, q) hg rfl
    have ends : ((t.subtypePlan a b).pursue t.subtype).Ends := by
      cases plan : t.subtypePlan a b with
      | every gs => exact Query.allM_ends (by rwa [plan] at goals)
      | any gs => exact Query.anyM_ends (by rwa [plan] at goals)
    obtain ⟨r, hr⟩ := ends
    exact ⟨r, gives_subtype_iff.2 hr⟩

/-- A question that terminates does not recur for ever. -/
lemma not_recursForever_of_terminates {a b : Ty} (h : t.Terminates a b) : ¬t.RecursForever a b := by
  rintro ⟨chain, first, next⟩
  suffices never : ∀ n, ¬Acc (fun y x => t.Issues x y) (chain n) from never 0 (first ▸ h)
  intro n acc
  generalize hx : chain n = x at acc
  induction acc generalizing n with
  | intro x _ ih =>
    subst hx
    exact ih _ (next n) (n + 1) rfl

end ClassTable

end LambdaTyping
