import LambdaTyping.Proofs.Query
import LambdaTyping.Proofs.Type.Identity
import LambdaTyping.Subtyping.Basic

/-!
# Subtyping by rules

A type is a subtype of itself, and a class type is one of another if the arguments that it has where
it is viewed as the class of the other are contained in the arguments there.
-/

namespace LambdaTyping

namespace ClassTable

variable {t : ClassTable}

/-- The type argument `formal` contains the type argument `actual`. -/
def Contains (t : ClassTable) (formal actual : Ty) : Prop :=
  ((t.argumentGoal formal actual).pursue t.subtype).Gives true

/-- Pursuing a single goal answers as the goal does. -/
lemma gives_one_iff {g : Goal} {r : Bool} :
    ((Plan.one g).pursue t.subtype).Gives r ↔ (g.pursue t.subtype).Gives r := by
  constructor
  · intro h
    obtain ⟨b, hb, h⟩ := Query.gives_bind_iff.1 h
    cases b with
    | false =>
      obtain rfl := Query.gives_pure_iff.1 h
      exact hb
    | true =>
      obtain rfl := Query.gives_pure_iff.1 h
      exact hb
  · intro h
    refine Query.gives_bind_iff.2 ⟨r, h, ?_⟩
    cases r with
    | false => exact Query.gives_pure_iff.2 rfl
    | true => exact Query.gives_pure_iff.2 rfl

/-- Pursuing what is known answers what is known. -/
lemma gives_known_iff {holds r : Bool} :
    ((Plan.known holds).pursue t.subtype).Gives r ↔ holds = r :=
  gives_one_iff.trans Query.gives_pure_iff

/-- A type is found to be a subtype of itself. -/
lemma subtype_self (t : ClassTable) (a : Ty) : (t.subtype a a).Gives true := by
  refine gives_subtype_iff.2 ?_
  unfold subtypePlan
  rw [if_pos rfl]
  exact gives_known_iff.2 rfl

/-- The unknown type is known to be below every type. -/
lemma subtypePlan_of_unknown (t : ClassTable) (b : Ty) :
    t.subtypePlan .unknown b = .known true := by
  unfold subtypePlan
  split
  · rfl
  · rfl

/-- Every type is known to be below the unknown type. -/
lemma subtypePlan_unknown (t : ClassTable) (a : Ty) : t.subtypePlan a .unknown = .known true := by
  unfold subtypePlan
  split
  · rfl
  · cases a with
    | _ => rfl

/-- The unknown type is a subtype of every type. -/
lemma subtype_of_unknown (t : ClassTable) (b : Ty) : (t.subtype .unknown b).Gives true := by
  refine gives_subtype_iff.2 ?_
  rw [subtypePlan_of_unknown]
  exact gives_known_iff.2 rfl

/-- Every type is a subtype of the unknown type. -/
lemma subtype_unknown (t : ClassTable) (a : Ty) : (t.subtype a .unknown).Gives true := by
  refine gives_subtype_iff.2 ?_
  rw [subtypePlan_unknown]
  exact gives_known_iff.2 rfl

/-- A subtype is assignable. -/
lemma assignable_of_subtype {a b : Ty} (h : (t.subtype a b).Gives true) :
    (t.assignable a b).Gives true :=
  Query.gives_bind_iff.2 ⟨true, h, Query.gives_pure_iff.2 rfl⟩

/-- An argument that is no wildcard contains the arguments identical to it. -/
lemma argumentGoal_of_not_wildcard {formal : Ty} (h : formal.isWildcard = false) (actual : Ty) :
    t.argumentGoal formal actual = .known (formal.identical actual) := by
  cases formal with
  | wild | wildExtends | wildSuper => cases h
  | _ => rfl

/-- An upper-bounded wildcard contains an argument if the argument is below its bound. -/
lemma argumentGoal_wildExtends {u a : Ty} (h : a.isWildcard = false) :
    t.argumentGoal (.wildExtends u) a = .subtype a u := by
  cases a with
  | wild | wildExtends | wildSuper => cases h
  | _ => rfl

/-- A lower-bounded wildcard contains an argument if its bound is below the argument. -/
lemma argumentGoal_wildSuper {l a : Ty} (h : a.isWildcard = false) :
    t.argumentGoal (.wildSuper l) a = .subtype l a := by
  cases a with
  | wild | wildExtends | wildSuper => cases h
  | _ => rfl

/-- A class type is a subtype if its view as the class of the other has arguments that those of the
other contain. -/
lemma subtype_of_contains {sub sup view : ClassTy} (hview : t.classView? sub sup.head = some view)
    (length : sup.args.length = view.args.length)
    (h : ∀ p ∈ sup.args.zip view.args, t.Contains p.1 p.2) :
    (t.subtype sub.toTy sup.toTy).Gives true := by
  refine gives_subtype_iff.2 ?_
  have plan : t.subtypePlan sub.toTy sup.toTy =
      if sub.toTy = sup.toTy then .known true else t.classPlan sub sup := rfl
  rw [plan]
  split
  · exact gives_known_iff.2 rfl
  · rw [classPlan, hview]
    dsimp only
    rw [if_pos length]
    split
    · exact gives_known_iff.2 rfl
    · refine Query.gives_allM_true_iff.2 fun g hg => ?_
      rw [← List.map_uncurry_zip_eq_zipWith] at hg
      obtain ⟨p, hp, rfl⟩ := List.mem_map.1 hg
      exact h p hp

end ClassTable

end LambdaTyping
