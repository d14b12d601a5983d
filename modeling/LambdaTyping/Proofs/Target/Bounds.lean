import LambdaTyping.Proofs.Subtyping.Rules
import LambdaTyping.Proofs.Subtyping.Weight
import LambdaTyping.Proofs.Target.Grounding

/-!
# Ground type arguments and declared bounds

What stands for an argument `?` is the intersection of the bounds that the type parameter declares,
so it is below each of them (`ground_below_bounds`). An argument `? extends` is grounded to its own
bound, whether or not that is below the declared ones.
-/

namespace LambdaTyping

namespace Ty

mutual

/-- The types that an intersection is made of, at any depth, none of them an intersection; any other
type is its own only conjunct. -/
def conjuncts : Ty → List Ty
  | .inter ms => conjunctsOf ms
  | t => [t]

/-- The conjuncts of the types of a list. -/
def conjunctsOf : List Ty → List Ty
  | [] => []
  | t :: ts => t.conjuncts ++ conjunctsOf ts

end

/-- The conjuncts of a list are those of its types. -/
lemma mem_conjunctsOf {c : Ty} {ts : List Ty} : c ∈ conjunctsOf ts ↔ ∃ a ∈ ts, c ∈ a.conjuncts := by
  induction ts with
  | nil => simp [conjunctsOf]
  | cons a ts ih => simp [conjunctsOf, ih]

/-- A type that is no intersection is its only conjunct. -/
lemma conjuncts_of_not_intersection {t : Ty} (h : t.isIntersection = false) :
    t.conjuncts = [t] := by
  cases t with
  | inter ms => cases h
  | _ => rfl

/-- The conjuncts of a type are those of its members. -/
lemma mem_conjuncts_iff_members {c t : Ty} :
    c ∈ t.conjuncts ↔ ∃ m ∈ t.members, c ∈ m.conjuncts := by
  cases t with
  | inter ms => exact mem_conjunctsOf
  | _ => simp [members]

/-- Conjuncts are no intersections. -/
lemma isIntersection_of_mem_conjuncts {c t : Ty} (hc : c ∈ t.conjuncts) :
    c.isIntersection = false := by
  induction t using rec_members with
  | inter ms ih =>
    obtain ⟨m, hm, hc⟩ := mem_conjunctsOf.1 hc
    exact ih m hm hc
  | _ =>
    obtain rfl := List.mem_singleton.1 hc
    rfl

/-- The conjuncts of some types are those of their intersection. -/
lemma mem_conjuncts_intersection {ts : List Ty} {b c : Ty} (hb : b ∈ ts) (hc : c ∈ b.conjuncts) :
    c ∈ (intersection ts).conjuncts := by
  obtain ⟨m, hm, hc⟩ := mem_conjuncts_iff_members.1 hc
  have opened := mem_opened.2 ⟨b, hb, hm⟩
  unfold intersection
  split
  · rename_i none
    rw [none] at opened
    cases opened
  · rename_i one
    rw [one, List.mem_singleton] at opened
    rwa [← opened]
  · exact mem_conjunctsOf.2 ⟨m, opened, hc⟩

/-- The conjuncts of a type in normal form are its members. -/
lemma Normal.conjuncts_eq {t : Ty} (h : t.Normal) : t.conjuncts = t.members := by
  cases t with
  | inter ms =>
    have flat : ∀ ns : List Ty, (∀ m ∈ ns, m.isIntersection = false) → conjunctsOf ns = ns := by
      intro ns flat
      induction ns with
      | nil => rfl
      | cons n ns ih =>
        obtain ⟨head, tail⟩ := List.forall_mem_cons.1 flat
        rw [conjunctsOf, conjuncts_of_not_intersection head, ih tail, List.singleton_append]
    exact flat ms fun m hm => (h.of_mem_members hm).1
  | _ => rfl

/-- The type can be a bound, as far as it is known: all its conjuncts are reference types. -/
def CanBound (b : Ty) : Prop :=
  b.conjuncts ≠ [] ∧ ∀ c ∈ b.conjuncts, c.isReference = true ∨ c = .unknown

instance (b : Ty) : Decidable b.CanBound :=
  inferInstanceAs (Decidable (_ ∧ ∀ c ∈ b.conjuncts, _))

end Ty

namespace ClassTable

variable {t : ClassTable}

section Conjuncts

variable {a b c : Ty}

/-- A type is below its conjuncts. -/
lemma below_of_mem_conjuncts (hc : c ∈ a.conjuncts) (ref : c.isReference = true) : t.Below a c := by
  induction a using Ty.rec_members with
  | inter ms ih =>
    obtain ⟨m, hm, hc⟩ := Ty.mem_conjunctsOf.1 hc
    have below := ih m hm hc
    by_cases flat : c.isIntersection = false
    · exact below_of_member ref flat hm below
    · exact absurd (Ty.isIntersection_of_mem_conjuncts hc) flat
  | _ =>
    obtain rfl := List.mem_singleton.1 hc
    exact below_self t _

/-- A reference type that is below all conjuncts of a type is below the type. -/
lemma below_of_conjuncts (ref : a.isReference = true) (h : ∀ c ∈ b.conjuncts, t.Below a c) :
    t.Below a b := by
  induction b using Ty.rec_members with
  | inter ms ih =>
    refine below_inter_of_forall ref fun m hm => ih m hm fun c hc => ?_
    exact h c (Ty.mem_conjunctsOf.2 ⟨m, hm, hc⟩)
  | _ => exact h _ (List.mem_singleton_self _)

/-- An intersection is a reference type. -/
lemma isReference_of_isIntersection (h : a.isIntersection = true) : a.isReference = true := by
  cases a with
  | inter ms => rfl
  | _ => cases h

/-- The intersection of some types is below each of them that can be a bound. -/
lemma below_intersection {ts : List Ty} (hb : b ∈ ts) (bound : b.CanBound) :
    t.Below (.intersection ts) b := by
  obtain ⟨some, bounds⟩ := bound
  by_cases ref : (Ty.intersection ts).isReference = true
  · refine below_of_conjuncts ref fun c hc => ?_
    rcases bounds c hc with ref | rfl
    · exact below_of_mem_conjuncts (Ty.mem_conjuncts_intersection hb hc) ref
    · exact below_unknown t _
  · -- The intersection is one of the conjuncts of `b`, so it is unknown.
    obtain ⟨c, hc⟩ := List.exists_mem_of_ne_nil _ some
    have mem := Ty.mem_conjuncts_intersection hb hc
    rw [Ty.conjuncts_of_not_intersection
      (Bool.eq_false_iff.2 (mt isReference_of_isIntersection ref)), List.mem_singleton] at mem
    rw [← mem, (bounds c hc).resolve_left (mem ▸ ref)]
    exact below_of_unknown t b

/-- No intersection is below a type that is neither a reference type nor unknown. -/
lemma not_below_of_not_reference {ms : List Ty} (ref : ¬c.isReference = true) (ne : c ≠ .unknown) :
    ¬t.Below (.inter ms) c := by
  rw [below_iff]
  cases c with
  | void | prim => exact fun met => nomatch Plan.met_known_iff.1 met
  | unknown => exact absurd rfl ne
  | _ => exact absurd rfl ref

/-- An intersection of normal types is not below those of them that cannot be bounds, but for one
that it is itself. -/
lemma not_below_intersection {ts : List Ty} (normal : ∀ u ∈ ts, u.Normal) (hb : b ∈ ts)
    (bound : ¬b.CanBound) (ne : Ty.intersection ts ≠ b) : ¬t.Below (.intersection ts) b := by
  obtain ⟨ms, meet⟩ : ∃ ms, Ty.intersection ts = .inter ms := by
    cases h : Ty.intersection ts with
    | inter ms => exact ⟨ms, rfl⟩
    | _ =>
      have flat : (Ty.intersection ts).isIntersection = false := by
        rw [h]
        rfl
      exact absurd (Ty.eq_intersection_of_mem normal flat hb).symm ne
  have some : b.conjuncts ≠ [] := by
    rw [(normal b hb).conjuncts_eq]
    exact (normal b hb).members_ne_nil
  -- Some conjunct of the bound, neither a reference type nor unknown, has nothing else below it.
  obtain ⟨c, hc, ref, known⟩ : ∃ c ∈ b.conjuncts, ¬c.isReference = true ∧ c ≠ .unknown := by
    by_contra none
    refine bound ⟨some, fun c hc => ?_⟩
    by_contra neither
    exact none ⟨c, hc, not_or.1 neither⟩
  rw [meet] at ne ⊢
  rw [(normal b hb).conjuncts_eq] at hc
  have notBelow : ¬t.Below (.inter ms) c := not_below_of_not_reference ref known
  intro below
  refine notBelow ?_
  cases b with
  | inter ns =>
    rw [below_iff] at below
    unfold subtypePlan at below
    rw [if_neg ne] at below
    exact below _ (List.mem_map_of_mem hc)
  | _ =>
    obtain rfl := List.mem_singleton.1 hc
    exact below

end Conjuncts

section Ground

variable {m : TargetMethod} {v : TypeVarId} {b : Ty}

/-- The ground form of a type parameter is that of its argument. -/
lemma apply_groundSubst_var {x : Ty} (h : m.subst.get? v = some x) :
    (m.groundSubst t).apply (.var v) = t.groundArgument m.cls v x := by
  have ground : (m.groundSubst t).get? v = some (t.groundArgument m.cls v x) := by
    rw [m.get?_groundSubst, h, Option.map_some]
  rw [Subst.apply_eq_rebuild (Ty.normal_var v), Subst.rebuild_var_of_some ground]

/-- Bounds that mention no type parameter of the class are intersected. -/
lemma groundUnbounded_of_closed {c : ClassId}
    (closed : ∀ u ∈ t.upperBounds v, ∀ p ∈ t.typeParamsOf c, u.mentions p = false)
    (hb : b ∈ t.upperBounds v) : t.groundUnbounded c v = .intersection (t.upperBounds v) := by
  have some : ¬(t.upperBounds v).isEmpty = true := by
    rw [List.isEmpty_iff]
    exact List.ne_nil_of_mem hb
  have none : ¬((t.upperBounds v).any fun u => (t.typeParamsOf c).any fun p => u.mentions p) =
      true := by
    simp only [List.any_eq_true]
    rintro ⟨u, hu, p, hp, mentions⟩
    rw [closed u hu p hp] at mentions
    cases mentions
  rw [groundUnbounded, if_neg some, if_neg none]

/-- Where the bounds of a type parameter mention no type parameter of the class, what stands for the
argument `?` is below each bound that can be one, and the question about it is answered if no type
reverses itself for ever. Next to others, a bound with a primitive type in it has nothing below it.
What stands for an argument `? extends` is the argument's own bound. -/
theorem ground_below_bounds {x : Ty} (ground : (m.groundSubst t).apply (.var v) = x)
    (closed : ∀ u ∈ t.upperBounds v, ∀ p ∈ t.typeParamsOf m.cls, u.mentions p = false)
    (hb : b ∈ t.upperBounds v) :
    (m.subst.get? v = some .wild →
      (b.CanBound ∨ x = b →
        (∀ r, (t.subtype x b).Gives r → r = true) ∧
        (t.AcyclicBounds → (∀ w, t.lowerBound? w = none) →
          (WellFounded fun l y => t.Reverses y l) → (t.subtype x b).Gives true)) ∧
      ((∀ u ∈ t.upperBounds v, u.Normal) → ¬(b.CanBound ∨ x = b) →
        ∀ r, (t.subtype x b).Gives r → r = false)) ∧
      ∀ u, m.subst.get? v = some (.wildExtends u) → x = u := by
  refine ⟨fun given => ?_, fun u given => ?_⟩
  · rw [apply_groundSubst_var given, groundArgument, groundUnbounded_of_closed closed hb] at ground
    subst ground
    refine ⟨fun bound => ?_, fun normal bound r h => ?_⟩
    · have below : t.Below (.intersection (t.upperBounds v)) b := by
        rcases bound with bound | same
        · exact below_intersection hb bound
        · rw [same]
      refine ⟨fun r h => (gives_subtype h).2 below, fun acyclic lower reverses => ?_⟩
      obtain ⟨r, h⟩ := ends_of_terminates (terminates acyclic lower reverses _ b)
      rwa [(gives_subtype h).2 below] at h
    · obtain ⟨noBound, ne⟩ := not_or.1 bound
      have notBelow := not_below_intersection (t := t) normal hb noBound ne
      exact Bool.eq_false_iff.2 fun yes => notBelow ((gives_subtype h).1 yes)
  · rw [← ground, apply_groundSubst_var given, groundArgument]

end Ground

/-- `Object`, `Number`, `Comparable<C>` and
`Gauge<T extends Number & Comparable<Number>> { void read(T); }`, in this order. -/
def gaugeTable : ClassTable where
  classes := #[
    ⟨"Object", .cls, [], none, [], []⟩,
    ⟨"Number", .cls, [], some (.cls ⟨0⟩ []), [], []⟩,
    ⟨"Comparable", .interface, [⟨0⟩], none, [], []⟩,
    ⟨"Gauge", .interface, [⟨1⟩], none, [], [⟨"read", [], [.var ⟨1⟩], .void, .abstract⟩]⟩]
  params := #[⟨"C", [], none⟩, ⟨"T", [.cls ⟨1⟩ [], .cls ⟨2⟩ [.cls ⟨1⟩ []]], none⟩]
  index := ∅
  wellKnown := ⟨⟨0⟩, ⟨0⟩, ⟨1⟩, ⟨0⟩, ⟨0⟩, ⟨0⟩⟩

/-- The method of a `Gauge` with this type argument. -/
def gaugeMethod (arg : Ty) : TargetMethod where
  cls := ⟨3⟩
  signature := ⟨⟨3⟩, "read", [.var ⟨1⟩], [], .void⟩
  subst := .ofList [(⟨1⟩, arg)]

/-- A lambda for `Gauge<?>` has a parameter of the type `Number & Comparable<Number>`, which is
below both bounds. -/
theorem ground_below_bounds_gauge :
    gaugeTable.WellScoped ∧ gaugeTable.Proper ∧ gaugeTable.AcyclicBounds ∧
      (∃ cache', (gaugeTable.resolve .default .empty (.cls ⟨3⟩ [.wild])).Gives
        (.ok (.method (gaugeMethod .wild)), cache')) ∧
      (gaugeMethod .wild).parameterTypes gaugeTable =
        [.inter [.cls ⟨1⟩ [], .cls ⟨2⟩ [.cls ⟨1⟩ []]]] ∧
      ∀ b ∈ gaugeTable.upperBounds ⟨1⟩,
        (gaugeTable.subtype (.inter [.cls ⟨1⟩ [], .cls ⟨2⟩ [.cls ⟨1⟩ []]]) b).Gives true := by
  have acyclic : gaugeTable.AcyclicBounds := acyclicBounds_of_classes (by decide +kernel)
  have lower : ∀ v, gaugeTable.lowerBound? v = none := lowerBound?_of_params (by decide +kernel)
  have weighted : gaugeTable.Weighted fun _ => 0 := ⟨by decide +kernel, rfl⟩
  let uncovered : List Ty :=
    [.var ⟨1⟩, .cls ⟨1⟩ [], .cls ⟨2⟩ [.cls ⟨1⟩ []], .cls ⟨0⟩ []]
  have quiet : gaugeTable.quiet uncovered = true := by cbv
  have reverses : WellFounded fun l x => gaugeTable.Reverses x l :=
    reverses_wf weighted (tidy_of_params quiet (by decide +kernel))
  have closed : ∀ u ∈ gaugeTable.upperBounds ⟨1⟩,
      ∀ p ∈ gaugeTable.typeParamsOf (gaugeMethod .wild).cls, u.mentions p = false := by
    decide +kernel
  have bounds : ∀ u ∈ gaugeTable.upperBounds ⟨1⟩, u.CanBound := by decide +kernel
  refine ⟨by decide +kernel, by decide +kernel, acyclic,
    ⟨_, 4, [.targetResolved "Gauge<?>" "read"], by cbv⟩, by decide +kernel, fun b hb => ?_⟩
  have ground : ((gaugeMethod .wild).groundSubst gaugeTable).apply (.var ⟨1⟩) =
      .inter [.cls ⟨1⟩ [], .cls ⟨2⟩ [.cls ⟨1⟩ []]] := by
    decide +kernel
  obtain ⟨wild, -⟩ := ground_below_bounds ground closed hb
  exact ((wild (by decide +kernel)).1 (.inl (bounds b hb))).2 acyclic lower reverses

/-- A lambda for `Gauge<? extends Object>` has a parameter of the type `Object`, which is below
neither bound. -/
theorem ground_not_below_bound_gauge :
    gaugeTable.WellScoped ∧ gaugeTable.Proper ∧ gaugeTable.AcyclicBounds ∧
      (∃ cache', (gaugeTable.resolve .default .empty (.cls ⟨3⟩ [.wildExtends (.cls ⟨0⟩ [])])).Gives
        (.ok (.method (gaugeMethod (.wildExtends (.cls ⟨0⟩ [])))), cache')) ∧
      (∀ u ∈ gaugeTable.upperBounds ⟨1⟩, ∀ p ∈ gaugeTable.typeParamsOf ⟨3⟩,
        u.mentions p = false) ∧
      Ty.cls ⟨1⟩ [] ∈ gaugeTable.upperBounds ⟨1⟩ ∧
      ((gaugeMethod (.wildExtends (.cls ⟨0⟩ []))).groundSubst gaugeTable).apply (.var ⟨1⟩) =
        .cls ⟨0⟩ [] ∧
      (gaugeTable.subtype (.cls ⟨0⟩ []) (.cls ⟨1⟩ [])).Gives false :=
  ⟨by decide +kernel, by decide +kernel, acyclicBounds_of_classes (by decide +kernel),
    ⟨_, 4, [.targetResolved "Gauge<? extends Object>" "read"], by cbv⟩, by decide +kernel,
    by decide +kernel, by decide +kernel, 4, [], by cbv⟩

end ClassTable

end LambdaTyping
