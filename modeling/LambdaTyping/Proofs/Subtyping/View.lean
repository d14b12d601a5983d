import LambdaTyping.Proofs.Hierarchy.Reachability
import LambdaTyping.Proofs.Subtyping.Derivation
import LambdaTyping.Subtyping.View

/-!
# Views of types

A view is found among the class types above those that the type is made of, and where several
members have one, one of theirs is chosen, by which is preferred to the other (`gives_mergeViews`).
So views have the properties that the table and the type have (`of_viewFrom`): they are normal, for
one (`normal_of_view`).
-/

namespace LambdaTyping.ClassTable

variable {t : ClassTable} {target : ClassId}

/-- The view of a class type is the entry for the class in its closure. -/
lemma gives_viewClass_iff {c : ClassTy} {r : Option Ty} :
    (t.viewClass target c).Gives r ↔ (t.classView? c target).map ClassTy.toTy = r := by
  simp [viewClass, Query.gives_bind_iff]

/-- The view of a class type is the entry for the class in the walk up from it. -/
lemma gives_view_toTy_iff {c : ClassTy} {r : Option Ty} :
    (t.view c.toTy target).Gives r ↔ (t.classView? c target).map ClassTy.toTy = r := by
  rw [view, ClassTy.toTy, viewFrom]
  exact gives_viewClass_iff

/-- A class type that has an entry for the class in its closure is viewed as it. -/
lemma gives_view_of_classView? {c e : ClassTy} (h : t.classView? c target = some e) :
    (t.view c.toTy target).Gives (some e.toTy) :=
  gives_view_toTy_iff.2 (congrArg (Option.map ClassTy.toTy) h)

section Preference

/-- Of two views of a type the first may be kept: it has fewer unknown parts, or as many and is
below the other. -/
def Prefers (t : ClassTable) (a b : Ty) : Prop :=
  a.placeholders < b.placeholders ∨ a.placeholders = b.placeholders ∧ t.Below a b

/-- Which of two views is kept: the first that is preferred to the other, if any. -/
inductive Chosen (R : Ty → Ty → Prop) (a b : Ty) : Option Ty → Prop
  | first : R a b → Chosen R a b (some a)
  | second : ¬R a b → R b a → Chosen R a b (some b)
  | neither : ¬R a b → ¬R b a → Chosen R a b none

section Chosen

variable {R : Ty → Ty → Prop} {a b w : Ty} {r r' : Option Ty}

/-- At most one of two views is chosen. -/
lemma Chosen.unique (h : Chosen R a b r) (h' : Chosen R a b r') : r' = r := by
  cases h with
  | first yes =>
    cases h' with
    | first => rfl
    | second no | neither no => exact absurd yes no
  | second no yes =>
    cases h' with
    | first yes' => exact absurd yes' no
    | second => rfl
    | neither _ no' => exact absurd yes no'
  | neither no no' =>
    cases h' with
    | first yes => exact absurd yes no
    | second _ yes => exact absurd yes no'
    | neither => rfl

/-- The view chosen is one of the two and is preferred to both. -/
lemma Chosen.preferred (self : ∀ x, R x x) (h : Chosen R a b (some w)) :
    (w = a ∨ w = b) ∧ R w a ∧ R w b := by
  cases h with
  | first yes => exact ⟨.inl rfl, self a, yes⟩
  | second _ yes => exact ⟨.inr rfl, yes, self b⟩

/-- Of two views none is chosen if they exclude each other. -/
lemma Chosen.exclude (h : Chosen R a b none) : ¬R a b ∧ ¬R b a := by
  cases h with
  | neither no no' => exact ⟨no, no'⟩

end Chosen

variable {a b : Ty}

/-- A view is preferred to itself. -/
@[refl] lemma prefers_self (t : ClassTable) (a : Ty) : t.Prefers a a :=
  .inr ⟨rfl, t.below_self a⟩

/-- Of two views with as many unknown parts the one is preferred that is below the other. -/
lemma prefers_iff_of_eq (same : a.placeholders = b.placeholders) :
    t.Prefers a b ↔ t.Below a b :=
  ⟨fun h => (h.resolve_left same.not_lt).2, fun h => .inr ⟨same, h⟩⟩

/-- A view with more unknown parts is never preferred. -/
lemma not_prefers_of_lt (less : a.placeholders < b.placeholders) : ¬t.Prefers b a :=
  fun h => h.elim less.not_gt fun h => less.ne' h.1

/-- Merging keeps the first view that is preferred to the other. -/
lemma gives_mergeViews {r : Option Ty} (h : (t.mergeViews a b).Gives r) :
    Chosen t.Prefers a b r := by
  unfold mergeViews at h
  split at h
  · rename_i same
    cases Query.gives_pure_iff.1 h
    exact .first (same ▸ t.prefers_self a)
  · split at h
    · rename_i less
      cases Query.gives_pure_iff.1 h
      exact .first (.inl less)
    · split at h
      · rename_i more
        cases Query.gives_pure_iff.1 h
        exact .second (not_prefers_of_lt more) (.inl more)
      · rename_i notLess notMore
        -- With as many unknown parts, subtyping decides which view is preferred.
        have same : a.placeholders = b.placeholders := by omega
        obtain ⟨below, hab, h⟩ := Query.gives_bind_iff.1 h
        obtain ⟨above, hba, h⟩ := Query.gives_bind_iff.1 h
        have forth := (gives_subtype hab).trans (prefers_iff_of_eq same).symm
        have back := (gives_subtype hba).trans (prefers_iff_of_eq same.symm).symm
        cases below with
        | true =>
          cases Query.gives_pure_iff.1 h
          exact .first (forth.1 rfl)
        | false =>
          have notFirst : ¬t.Prefers a b := fun prefers => nomatch forth.2 prefers
          cases above with
          | true =>
            cases Query.gives_pure_iff.1 h
            exact .second notFirst (back.1 rfl)
          | false =>
            cases Query.gives_pure_iff.1 h
            exact .neither notFirst fun prefers => nomatch back.2 prefers

/-- Of two views one is chosen, if any. -/
lemma eq_or_eq_of_mergeViews {v : Ty} (h : (t.mergeViews a b).Gives (some v)) : v = a ∨ v = b :=
  ((gives_mergeViews h).preferred t.prefers_self).1

end Preference

/-- The view of some types is that of the rest, given the view found so far or that of the first
type, or the one chosen of both. -/
lemma gives_viewMembers_cons {seen : List TypeVarId} {found : Option Ty} {m : Ty} {ms : List Ty}
    {v : Ty} (h : (t.viewMembers target seen found (m :: ms)).Gives (some v)) :
    ∃ next, (t.viewMembers target seen next ms).Gives (some v) ∧
      ∀ x ∈ next, x ∈ found ∨ (t.viewFrom target seen m).Gives (some x) := by
  rw [viewMembers] at h
  obtain ⟨view, hview, h⟩ := Query.gives_bind_iff.1 h
  cases view with
  | none => exact ⟨found, h, fun x hx => .inl hx⟩
  | some view =>
    cases found with
    | none =>
      refine ⟨some view, h, fun x hx => .inr ?_⟩
      cases hx
      exact hview
    | some before =>
      obtain ⟨merged, chosen, h⟩ := Query.gives_bind_iff.1 h
      cases merged with
      | none => cases Query.gives_pure_iff.1 h
      | some merged =>
        refine ⟨some merged, h, fun x hx => ?_⟩
        cases hx
        rcases eq_or_eq_of_mergeViews chosen with rfl | rfl
        · exact .inl rfl
        · exact .inr hview

section Variable

variable {seen : List TypeVarId} {v : TypeVarId}

/-- A type variable without bounds is viewed as `Object` is. -/
lemma viewFrom_unbounded (fresh : v ∉ seen) (unbounded : t.upperBounds v = []) :
    t.viewFrom target seen (.var v) = t.viewClass target ⟨t.wellKnown.object, []⟩ := by
  rw [viewFrom, if_neg fresh]
  split
  · rfl
  · rename_i b bs bounded
    rw [unbounded] at bounded
    cases bounded

/-- A type variable with bounds is viewed as these together are. -/
lemma viewFrom_bounded {b : Ty} {bs : List Ty} (fresh : v ∉ seen)
    (bounded : t.upperBounds v = b :: bs) :
    t.viewFrom target seen (.var v) = t.viewMembers target (v :: seen) none (b :: bs) := by
  rw [viewFrom, if_neg fresh]
  split
  · rename_i unbounded
    rw [unbounded] at bounded
    cases bounded
  · rename_i same
    rw [bounded] at same
    cases same
    rfl

end Variable

/-- Induction along the walk to a view, whatever has been found before on the way: a variable leads
on to its bounds unless it was met, and the types that lead nowhere have no view in any table. -/
lemma view_induction (t : ClassTable) {P : List TypeVarId → Ty → Prop}
    {Q : List TypeVarId → List Ty → Prop} (array : ∀ seen e, P seen (.array e))
    (inter : ∀ seen ms, Q seen ms → P seen (.inter ms)) (met : ∀ seen, ∀ v ∈ seen, P seen (.var v))
    (unbounded : ∀ seen, ∀ v ∉ seen, t.upperBounds v = [] → P seen (.var v))
    (bounded : ∀ seen, ∀ v ∉ seen, ∀ b bs, t.upperBounds v = b :: bs → Q (v :: seen) (b :: bs) →
      P seen (.var v))
    (wildExtends : ∀ seen b, P seen b → P seen (.wildExtends b))
    (cls : ∀ seen c args, P seen (.cls c args))
    (viewless : ∀ seen ty, (∀ (t : ClassTable) target seen, t.viewFrom target seen ty = pure none) →
      P seen ty)
    (nil : ∀ seen, Q seen []) (cons : ∀ seen m ms, P seen m → Q seen ms → Q seen (m :: ms)) :
    (∀ seen ty, P seen ty) ∧ ∀ seen ms, Q seen ms := by
  have both := viewFrom.mutual_induct t P (fun seen _ ms => Q seen ms) array inter met unbounded
    bounded wildExtends cls (fun seen => viewless seen .void fun _ _ _ => by rw [viewFrom])
    (fun seen => viewless seen .null fun _ _ _ => by rw [viewFrom])
    (fun seen => viewless seen .unknown fun _ _ _ => by rw [viewFrom])
    (fun seen p => viewless seen (.prim p) fun _ _ _ => by rw [viewFrom])
    (fun seen => viewless seen .wild fun _ _ _ => by rw [viewFrom])
    (fun seen l => viewless seen (.wildSuper l) fun _ _ _ => by rw [viewFrom])
    (fun seen _ => nil seen) fun seen _ m ms first rest _ => cons seen m ms first (rest none)
  exact ⟨both.1, fun seen ms => both.2 seen none ms⟩

section Kept

/-- From a property of types to one of their views: the first goes from a type to what it is viewed
through, the members of an intersection and bounds, and where a class type or an array is come to,
the second holds of its view. -/
lemma of_viewFrom {P Q : Ty → Prop}
    (array : ∀ e, P (.array e) → t.isArraySuperclass target = true → Q (.cls target []))
    (classes : ∀ c : ClassTy, P c.toTy → ∀ e, t.classView? c target = some e → Q e.toTy)
    (unbounded : ∀ v, P (.var v) → t.upperBounds v = [] → P t.objectType)
    (bounds : ∀ v, P (.var v) → ∀ b ∈ t.upperBounds v, P b)
    (members : ∀ ms, P (.inter ms) → ∀ m ∈ ms, P m) (wildcard : ∀ b, P (.wildExtends b) → P b)
    {seen : List TypeVarId} {ty v : Ty} (hty : P ty)
    (h : (t.viewFrom target seen ty).Gives (some v)) : Q v := by
  have above {c : ClassTy} (hc : P c.toTy) {v : Ty} (h : (t.viewClass target c).Gives (some v)) :
      Q v := by
    obtain ⟨e, he, rfl⟩ := Option.map_eq_some_iff.1 (gives_viewClass_iff.1 h)
    exact classes c hc e he
  suffices both : (∀ seen ty, P ty → ∀ v, (t.viewFrom target seen ty).Gives (some v) → Q v) ∧
      ∀ seen ms, (∀ m ∈ ms, P m) → ∀ found, (∀ x ∈ found, Q x) →
        ∀ v, (t.viewMembers target seen found ms).Gives (some v) → Q v from
    both.1 seen ty hty v h
  clear hty h
  apply view_induction t
  case array =>
    intro seen elem helem v h
    rw [viewFrom] at h
    split at h
    · rename_i superclass
      cases Query.gives_pure_iff.1 h
      exact array elem helem superclass
    · cases Query.gives_pure_iff.1 h
  case inter =>
    intro seen ms ih hms v h
    rw [viewFrom] at h
    exact ih (members ms hms) none (by simp) v h
  case met =>
    intro seen w met _ v h
    rw [viewFrom, if_pos met] at h
    cases Query.gives_pure_iff.1 h
  case unbounded =>
    intro seen w fresh none hw v h
    rw [viewFrom_unbounded fresh none] at h
    exact above (c := ⟨t.wellKnown.object, []⟩) (unbounded w hw none) h
  case bounded =>
    intro seen w fresh b bs bounded ih hw v h
    rw [viewFrom_bounded fresh bounded] at h
    have each : ∀ m ∈ b :: bs, P m := bounded ▸ bounds w hw
    exact ih each none (by simp) v h
  case wildExtends =>
    intro seen b ih hb v h
    rw [viewFrom] at h
    exact ih (wildcard b hb) v h
  case cls =>
    intro seen c args hc v h
    rw [viewFrom] at h
    exact above (c := ⟨c, args⟩) hc h
  case viewless =>
    intro seen ty viewless _ v h
    rw [viewless] at h
    cases Query.gives_pure_iff.1 h
  case nil =>
    intro seen _ found hfound v h
    rw [viewMembers] at h
    exact hfound v (Query.gives_pure_iff.1 h)
  case cons =>
    intro seen m ms first rest hms found hfound v h
    obtain ⟨hm, hms⟩ := List.forall_mem_cons.1 hms
    obtain ⟨next, h, origin⟩ := gives_viewMembers_cons h
    refine rest hms next (fun x hx => ?_) v h
    rcases origin x hx with before | here
    · exact hfound x before
    · exact first hm x here

/-- Views of normal types are normal. -/
lemma normal_of_view (supertypes : ∀ d ∈ t.classes, ∀ s ∈ d.supertypes, s.Normal)
    (bounds : ∀ v, ∀ b ∈ t.upperBounds v, b.Normal) {ty v : Ty} (hty : ty.Normal)
    (h : (t.view ty target).Gives (some v)) : v.Normal := by
  refine of_viewFrom (P := Ty.Normal) (fun _ _ _ => Ty.normal_cls.2 nofun)
    (fun c hc e he => ?_) (fun _ _ _ => rfl) (fun v _ => bounds v)
    (fun ms hms m hm => (hms.of_mem_members hm).2) (fun b => Ty.normal_wildExtends.1) hty h
  have mem := (mem_of_classView? he).1
  exact Ty.normal_cls.2 (normal_of_mem_classClosure supertypes (Ty.normal_cls.1 hc) mem)

end Kept

end LambdaTyping.ClassTable
