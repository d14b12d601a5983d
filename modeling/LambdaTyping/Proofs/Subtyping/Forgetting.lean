import LambdaTyping.Proofs.Subtyping.Tolerance

/-!
# Subtyping with forgotten parts

What is below a type stays below it when parts of either are forgotten, within the limits that
`Tolerates` sets (`below_forget`). The rules are gone through one shape of types at a time.
-/

namespace LambdaTyping.ClassTable

variable {t : ClassTable} {a a' b b' : Ty}

section Steps

/-- The goal is met, and a goal about the same types with some parts forgotten is met as well. -/
def Withstands (t : ClassTable) (g : Goal) : Prop :=
  g.Met t ∧ ∀ x y, g = .subtype x y → ∀ x' y', t.Coarser x x' → t.Coarser y y' → t.Below x' y'

/-- What is known withstands forgetting if it holds. -/
lemma withstands_known_iff {holds : Bool} : t.Withstands (.known holds) ↔ holds = true :=
  ⟨fun h => Goal.met_known_iff.1 h.1, fun h => ⟨Goal.met_known_iff.2 h, nofun⟩⟩

/-- A plan that is known withstands forgetting if it holds. -/
lemma withstands_plan_known_iff {holds : Bool} :
    (Plan.known holds).Holds t.Withstands ↔ holds = true :=
  List.forall_mem_singleton.trans withstands_known_iff

/-- A goal that withstands forgetting gives what is below after it. -/
lemma Withstands.below {x x' y y' : Ty} (h : t.Withstands (.subtype x y)) (hx : t.Coarser x x')
    (hy : t.Coarser y y') : t.Below x' y' :=
  h.2 x y rfl x' y' hx hy

/-- What is left of `Object` is `Object`, unless nothing is left. -/
lemma isObject_forget {keeps : Ty → Ty → Prop} (h : a.Forgets keeps a') (known : a' ≠ .unknown)
    (object : t.isObject a = true) : t.isObject a' = true := by
  cases h.outline with
  | unknown => exact absurd rfl known
  | cls => exact object
  | _ => cases object

/-- What a type argument includes it includes with some parts forgotten. -/
lemma includes_forget {formal formal' actual actual' : Ty}
    (hf : formal.Forgets t.Tolerates formal') (ha : actual.Forgets t.Tolerates actual')
    (h : t.Withstands (t.argumentGoal formal actual)) : t.Includes formal' actual' := by
  cases hf.outline with
  | unknown => exact Goal.met_known_iff.2 (Ty.unknown_identical actual')
  | wild => exact .known
  | wildExtends hu kept =>
    obtain ⟨upper, object⟩ := coarser_upper hu kept
    cases ha.outline with
    | unknown => exact below_of_unknown t _
    | wild | wildSuper =>
      exact Goal.met_known_iff.2 (object (withstands_known_iff.1 h))
    | wildExtends hv kept' => exact h.below (coarser_upper hv kept').1 upper
    | _ => exact h.below ⟨ha, .inr rfl⟩ upper
  | wildSuper hl kept =>
    have lower := coarser_lower hl kept
    cases ha.outline with
    | unknown => exact below_unknown t _
    | wild | wildExtends => cases withstands_known_iff.1 h
    | wildSuper hm kept' => exact h.below lower (coarser_lower hm kept')
    | _ => exact h.below lower ⟨ha, .inr rfl⟩
  | _ =>
    have identical := withstands_known_iff.1 h
    exact Goal.met_known_iff.2 (Ty.identical_forget identical hf ha)

/-- Forgetting in a list neither empties nor fills it. -/
lemma isEmpty_forget {keeps : Ty → Ty → Prop} {as as' : List Ty}
    (h : List.Forall₂ (Ty.Forgets keeps) as as') : as'.isEmpty = as.isEmpty := by
  cases h with
  | nil => rfl
  | cons => rfl

/-- Type arguments include others place by place, with some parts forgotten. -/
lemma forall₂_includes_forget {as as' bs bs' : List Ty}
    (has : List.Forall₂ (Ty.Forgets t.Tolerates) as as')
    (hbs : List.Forall₂ (Ty.Forgets t.Tolerates) bs bs')
    (h : List.Forall₂ (fun b a => t.Withstands (t.argumentGoal b a)) bs as) :
    List.Forall₂ t.Includes bs' as' := by
  induction h generalizing as' bs' with
  | nil =>
    cases has
    cases hbs
    exact .nil
  | cons head _ ih =>
    cases has with
    | cons ha has =>
      cases hbs with
      | cons hb hbs => exact .cons (includes_forget hb ha head) (ih has hbs)

/-- The rule for class types applies with some parts forgotten. -/
lemma below_cls_forget (steady : t.Steady) {c d : ClassId} {as as' bs bs' : List Ty}
    (has : List.Forall₂ (Ty.Forgets t.Tolerates) as as')
    (hbs : List.Forall₂ (Ty.Forgets t.Tolerates) bs bs')
    (h : (t.classPlan ⟨c, as⟩ ⟨d, bs⟩).Holds t.Withstands) : t.Below (.cls c as') (.cls d bs') := by
  obtain ⟨e, view, args⟩ := (classPlan_holds_iff fun _ => withstands_known_iff).1 h
  have forgets : ForgetsArgs t.Tolerates ⟨c, as⟩ ⟨c, as'⟩ := ⟨rfl, has⟩
  obtain ⟨e', view', _, hes⟩ := exists_classView?_forget steady (lenient_tolerates t) forgets view
  refine below_cls ((classPlan_holds_iff fun _ => Goal.met_known_iff).2 ⟨e', view', ?_⟩)
  rcases args with raw | each
  · left
    rwa [isEmpty_forget hbs, isEmpty_forget hes]
  · exact .inr (forall₂_includes_forget hes hbs each)

/-- Of arrays the rule withstands forgetting in the elements. -/
lemma below_array_forget {e e' f f' : Ty} (ne : Ty.array e ≠ .array f)
    (he : e.Forgets t.Tolerates e') (keptE : e' = e ∨ t.Tolerates (.array e) (.array e'))
    (hf : f.Forgets t.Tolerates f') (keptF : f' = f ∨ t.Tolerates (.array f) (.array f'))
    (h : (if e.isReference && f.isReference then Plan.one (.subtype e f)
      else .known (e = f)).Holds t.Withstands) : t.Below (.array e') (.array f') := by
  obtain ⟨coarser, known⟩ := coarser_element he keptE
  obtain ⟨coarser', known'⟩ := coarser_element hf keptF
  split at h
  · rename_i ref
    rw [Bool.and_eq_true] at ref
    have goal := List.forall_mem_singleton.1 h
    exact below_array (isReference_forget he known ref.1) (isReference_forget hf known' ref.2)
      (goal.below coarser coarser')
  · have same := of_decide_eq_true (withstands_plan_known_iff.1 h)
    exact absurd (congrArg Ty.array same) ne

/-- The rule for a member of an intersection on the left withstands forgetting. -/
lemma below_member_forget {ms ms' : List Ty} (hms : List.Forall₂ t.Coarser ms ms')
    (hb : t.Coarser b b') (ref : b'.isReference = true) (flat : b'.isIntersection = false)
    (h : (Plan.any (ms.map fun m => .subtype m b)).Holds t.Withstands) :
    t.Below (.inter ms') b' := by
  obtain ⟨g, hg, met⟩ := h
  obtain ⟨m, hm, rfl⟩ := List.mem_map.1 hg
  obtain ⟨m', hm', coarser⟩ := Ty.exists_mem_of_forall₂_left hms hm
  exact below_of_member ref flat hm' (met.below coarser hb)

/-- The rule for the members of an intersection on the right withstands forgetting. -/
lemma below_members_forget {ns ns' : List Ty} (hns : List.Forall₂ t.Coarser ns ns')
    (ha : t.Coarser a a') (ref : a'.isReference = true)
    (h : (Plan.every (ns.map fun n => .subtype a n)).Holds t.Withstands) :
    t.Below a' (.inter ns') := by
  refine below_inter_of_forall ref fun n' hn' => ?_
  obtain ⟨n, hn, coarser⟩ := Ty.exists_mem_of_forall₂_right hns hn'
  exact (List.forall_mem_map.1 h n hn).below ha coarser

/-- The rule for a bound of a type variable on the left withstands forgetting. -/
lemma below_bound_forget {v : TypeVarId} (hb : t.Coarser b b') (known : b' ≠ .unknown)
    (ref : b'.isReference = true) (flat : b'.isIntersection = false)
    (h : (match t.upperBounds v with
      | [] => Plan.known (t.isObject b)
      | bounds => .any (bounds.map fun u => .subtype u b)).Holds t.Withstands) :
    t.Below (.var v) b' := by
  split at h
  · rename_i none
    exact below_of_unbounded ref flat none
      (isObject_forget hb.forgets known (withstands_plan_known_iff.1 h))
  · obtain ⟨g, hg, met⟩ := h
    obtain ⟨u, hu, rfl⟩ := List.mem_map.1 hg
    exact below_of_bound ref flat hu (met.below (.same u) hb)

/-- The rule for the lower bound of a type variable on the right withstands forgetting. -/
lemma below_lowerBound_forget {v : TypeVarId} (ha : t.Coarser a a') (ref : a'.isReference = true)
    (flat : a'.isIntersection = false) (notVar : ∀ w, a' ≠ .var w)
    (h : (match t.lowerBound? v with
      | none => Plan.known false
      | some l => .one (.subtype a l)).Holds t.Withstands) : t.Below a' (.var v) := by
  split at h
  · cases withstands_plan_known_iff.1 h
  · rename_i l lower
    have goal := List.forall_mem_singleton.1 h
    exact below_of_lowerBound ref flat notVar lower (goal.below ha (.same l))

/-- Each rule withstands forgetting if the goals that it asks for do: one case for each shape of the
two types. -/
lemma below_forget_step (steady : t.Steady) (h : (t.subtypePlan a b).Holds t.Withstands)
    (ha : t.Coarser a a') (hb : t.Coarser b b') : t.Below a' b' := by
  by_cases known : a' = .unknown
  · rw [known]
    exact below_of_unknown t b'
  by_cases known' : b' = .unknown
  · rw [known']
    exact below_unknown t a'
  by_cases same : a = b
  · subst same
    exact (below_and_includes_common a).1 a' b' ha hb
  -- What is left of both is known at the top, so that the rule for the types as they were applies.
  have shape := hb.forgets.outline
  unfold subtypePlan at h
  rw [if_neg same] at h
  cases ha.forgets.outline with
  | unknown => exact absurd rfl known
  | void =>
    cases shape with
    | unknown => exact absurd rfl known'
    | _ => cases withstands_plan_known_iff.1 h
  | null =>
    cases shape with
    | unknown => exact absurd rfl known'
    | void | prim => cases withstands_plan_known_iff.1 h
    | _ => exact below_null rfl
  | prim p =>
    cases shape with
    | unknown => exact absurd rfl known'
    | prim q => exact below_prim (withstands_plan_known_iff.1 h)
    | _ => cases withstands_plan_known_iff.1 h
  | inter hms kept =>
    have hms := forall₂_coarser_members hms kept
    cases shape with
    | unknown => exact absurd rfl known'
    | void | prim => cases withstands_plan_known_iff.1 h
    | inter hns kept' => exact below_members_forget (forall₂_coarser_members hns kept') ha rfl h
    | _ => exact below_member_forget hms hb rfl rfl h
  | var v =>
    cases shape with
    | unknown => exact absurd rfl known'
    | void | prim => cases withstands_plan_known_iff.1 h
    | inter hns kept' => exact below_members_forget (forall₂_coarser_members hns kept') ha rfl h
    | _ => exact below_bound_forget hb known' rfl rfl h
  | array he kept =>
    cases shape with
    | unknown => exact absurd rfl known'
    | void | prim | null => cases withstands_plan_known_iff.1 h
    | inter hns kept' => exact below_members_forget (forall₂_coarser_members hns kept') ha rfl h
    | var w => exact below_lowerBound_forget ha rfl rfl nofun h
    | wild | wildExtends | wildSuper =>
      have goal := List.forall_mem_singleton.1 h
      exact below_of_argument rfl rfl nofun rfl rfl (includes_forget hb.forgets ha.forgets goal)
    | array hf kept' => exact below_array_forget same he kept hf kept' h
    | cls => exact below_arrayClass (withstands_plan_known_iff.1 h)
  | cls has =>
    cases shape with
    | unknown => exact absurd rfl known'
    | void | prim | null | array => cases withstands_plan_known_iff.1 h
    | inter hns kept' => exact below_members_forget (forall₂_coarser_members hns kept') ha rfl h
    | var w => exact below_lowerBound_forget ha rfl rfl nofun h
    | wild | wildExtends | wildSuper =>
      have goal := List.forall_mem_singleton.1 h
      exact below_of_argument rfl rfl nofun rfl rfl (includes_forget hb.forgets ha.forgets goal)
    | cls hbs => exact below_cls_forget steady has hbs h
  | wild | wildSuper =>
    cases shape with
    | unknown => exact absurd rfl known'
    | inter hns kept' => exact below_members_forget (forall₂_coarser_members hns kept') ha rfl h
    | var w => exact below_lowerBound_forget ha rfl rfl nofun h
    | cls => exact below_iff.2 (Plan.met_known_iff.2 (withstands_plan_known_iff.1 h))
    | _ => cases withstands_plan_known_iff.1 h
  | wildExtends hu kept =>
    cases shape with
    | unknown => exact absurd rfl known'
    | void | prim => cases withstands_plan_known_iff.1 h
    | inter hns kept' => exact below_members_forget (forall₂_coarser_members hns kept') ha rfl h
    | var w => exact below_lowerBound_forget ha rfl rfl nofun h
    | _ =>
      have goal := List.forall_mem_singleton.1 h
      exact below_of_wildExtends rfl rfl nofun (goal.below (coarser_upper hu kept).1 hb)

/-- What is below a type stays below it, whatever is forgotten on either side that may be. -/
theorem below_forget (steady : t.Steady) (h : t.Below a b) (ha : t.Coarser a a')
    (hb : t.Coarser b b') : t.Below a' b' :=
  below_induction (P := fun a b => ∀ a' b', t.Coarser a a' → t.Coarser b b' → t.Below a' b')
    (fun _ _ h _ _ ha hb => below_forget_step steady h ha hb) h a' b' ha hb

end Steps

end LambdaTyping.ClassTable
