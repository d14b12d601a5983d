import LambdaTyping.Proofs.Hierarchy.Growth
import LambdaTyping.Proofs.Subtyping.Answers
import LambdaTyping.Proofs.Subtyping.View

/-!
# Subtyping in tables that grow

A subtype question about types over a closed table comes down to questions about types over it, so
it is the same query in every table that extends it, and so are assignability and views.
-/

namespace LambdaTyping

/-- A plan is pursued alike by functions that agree on its goals. -/
lemma Plan.pursue_congr {f g : Ty → Ty → Query Bool} {p : Plan}
    (h : ∀ x y, .subtype x y ∈ p.goals → f x y = g x y) : p.pursue f = p.pursue g := by
  have goal : ∀ x ∈ p.goals, Goal.pursue f x = Goal.pursue g x := by
    intro x hx
    cases x with
    | known b => rfl
    | subtype a b => exact h a b hx
  cases p with
  | every gs => exact Query.allM_congr goal
  | any gs => exact Query.anyM_congr goal

namespace ClassTable

variable {s t : ClassTable} {a b p q ty : Ty}

section Questions

/-- Comparing type arguments over a table asks about types over it. -/
lemma over_of_argumentGoal (ha : a.Over s) (hb : b.Over s) (h : s.argumentGoal a b = .subtype p q) :
    p.Over s ∧ q.Over s := by
  cases a with
  | wildExtends u =>
    cases b with
    | wild | wildSuper => cases h
    | wildExtends x =>
      cases h
      exact ⟨Ty.over_wildExtends.1 hb, Ty.over_wildExtends.1 ha⟩
    | _ =>
      cases h
      exact ⟨hb, Ty.over_wildExtends.1 ha⟩
  | wildSuper l =>
    cases b with
    | wild | wildExtends => cases h
    | wildSuper x =>
      cases h
      exact ⟨Ty.over_wildSuper.1 ha, Ty.over_wildSuper.1 hb⟩
    | _ =>
      cases h
      exact ⟨Ty.over_wildSuper.1 ha, hb⟩
  | _ => cases h

/-- No question leads out of the table. -/
lemma SelfContained.over_of_comesTo (self : s.SelfContained) (ha : a.Over s) (hb : b.Over s)
    (h : s.ComesTo a b p q) : p.Over s ∧ q.Over s := by
  cases h with
  | every hm => exact ⟨ha, Ty.over_inter.1 hb _ hm⟩
  | some hm => exact ⟨Ty.over_inter.1 ha _ hm, hb⟩
  | bound hu => exact ⟨self.over_upperBounds _ _ hu, hb⟩
  | lowerBound hl => exact ⟨ha, self.over_lowerBound hl⟩
  | wildcard => exact ⟨Ty.over_wildExtends.1 ha, hb⟩
  | argument _ goal => exact over_of_argumentGoal hb ha goal
  | element => exact ⟨Ty.over_array.1 ha, Ty.over_array.1 hb⟩
  | @typeArgument c d as bs e f x _ _ view hf hx goal =>
    have above := self.over_of_mem_classClosure (c := ⟨c, as⟩) ha (mem_of_classView? view).1
    exact over_of_argumentGoal ((Ty.over_cls.1 hb).2 f hf) ((Ty.over_cls.1 above).2 x hx) goal

end Questions

section Subtype

variable (self : s.SelfContained) (ext : s.Extends t)

include ext

/-- Type arguments are compared alike in both tables. -/
lemma Extends.argumentGoal : t.argumentGoal = s.argumentGoal := by
  funext a b
  unfold ClassTable.argumentGoal
  simp only [ext.isObject]

include self

/-- A class type over the first table is compared with others alike in both. -/
lemma Extends.classPlan {sub : ClassTy} (sup : ClassTy) (hsub : sub.toTy.Over s) :
    t.classPlan sub sup = s.classPlan sub sup := by
  rw [ClassTable.classPlan, ClassTable.classPlan, ext.classView? self hsub, ext.argumentGoal]

/-- Types over the first table have the same plan in both. -/
lemma Extends.subtypePlan (ha : a.Over s) (hb : b.Over s) :
    t.subtypePlan a b = s.subtypePlan a b := by
  have object : t.isObject = s.isObject := funext ext.isObject
  have arrays : t.isArraySuperclass = s.isArraySuperclass := funext ext.isArraySuperclass
  unfold ClassTable.subtypePlan
  rw [object, arrays, ext.argumentGoal]
  split
  · rfl
  · -- What the tables declare comes in by the bounds of type variables and by what stands above
    -- class types only.
    cases a with
    | var v =>
      have bounds := ext.upperBounds (Ty.over_var.1 ha)
      cases b with
      | void | unknown | prim | inter => dsimp only
      | _ =>
        dsimp only
        rw [bounds]
    | array | wild | wildSuper | wildExtends =>
      cases b with
      | var w =>
        dsimp only
        rw [ext.lowerBound? (Ty.over_var.1 hb)]
      | _ => dsimp only
    | cls c args =>
      cases b with
      | var w =>
        dsimp only
        rw [ext.lowerBound? (Ty.over_var.1 hb)]
      | cls d bs =>
        dsimp only
        exact ext.classPlan self ⟨d, bs⟩ ha
      | _ => dsimp only
    | _ =>
      cases b with
      | _ => dsimp only

/-- The plan for a type over the first table is traced alike in both. -/
lemma Extends.planEvents (ha : a.Over s) : t.planEvents a b = s.planEvents a b := by
  cases a with
  | cls c args =>
    cases b with
    | cls d bs =>
      simp only [ClassTable.planEvents, ext.closureEvents self ha]
    | _ => simp only [ClassTable.planEvents]
  | _ => simp only [ClassTable.planEvents]

/-- Types over the first table are compared alike in both within any number of steps, by induction
on that number. -/
lemma Extends.subtypeWithin (n : Nat) (ha : a.Over s) (hb : b.Over s) :
    t.subtypeWithin n a b = s.subtypeWithin n a b := by
  induction n generalizing a b with
  | zero => rfl
  | succ n ih =>
    rw [ClassTable.subtypeWithin, ClassTable.subtypeWithin, subtypeStep, subtypeStep,
      ext.planEvents self ha, ext.subtypePlan self ha hb]
    have goals : (s.subtypePlan a b).pursue (t.subtypeWithin n) =
        (s.subtypePlan a b).pursue (s.subtypeWithin n) := by
      refine Plan.pursue_congr fun x y goal => ?_
      obtain ⟨hx, hy⟩ := self.over_of_comesTo ha hb (comesTo_of_mem_goals goal)
      exact ih hx hy
    rw [goals]

/-- A subtype question is the same query in both tables. -/
lemma Extends.subtype (ha : a.Over s) (hb : b.Over s) : t.subtype a b = s.subtype a b := by
  refine Query.eq_of_attempt fun n => ?_
  show (t.subtypeWithin n a b).attempt n = (s.subtypeWithin n a b).attempt n
  rw [ext.subtypeWithin self n ha hb]

omit self in
/-- A type over the first table is unboxed alike in both. -/
lemma Extends.unboxed? (h : ty.Over s) : t.unboxed? ty = s.unboxed? ty := by
  cases ty with
  | cls c args => rw [ClassTable.unboxed?, ClassTable.unboxed?, ext.classes c (Ty.over_cls.1 h).1]
  | _ => rfl

/-- The classes of the boxes are the same in both tables. -/
lemma Extends.lookup?_boxName (p : Primitive) : t.lookup? p.boxName = s.lookup? p.boxName := by
  obtain ⟨c, found, -⟩ := self.boxes p
  have known : (s.classNamed? p.boxName).isSome = true := by
    rw [found]
    rfl
  rw [lookup?, lookup?, ext.index _ known, found]

omit ext in
/-- The box of a primitive type is a class of a self-contained table. -/
lemma SelfContained.over_box {p : Primitive} {c : ClassId} (h : s.lookup? p.boxName = some c) :
    (Ty.cls c []).Over s := by
  obtain ⟨box, found, held⟩ := self.boxes p
  rw [lookup?, found] at h
  cases h
  exact Ty.over_cls.2 ⟨held, List.forall_mem_nil _⟩

/-- Whether a value can be assigned is the same query in both tables. -/
lemma Extends.assignable (ha : a.Over s) (hb : b.Over s) : t.assignable a b = s.assignable a b := by
  unfold ClassTable.assignable
  rw [ext.subtype self ha hb]
  refine Query.bind_congr fun below _ => ?_
  cases below with
  | true => rw [if_pos rfl, if_pos rfl]
  | false =>
    rw [if_neg Bool.false_ne_true, if_neg Bool.false_ne_true]
    cases a with
    | prim p =>
      dsimp only
      split
      · rw [ext.lookup?_boxName self]
        split
        · rename_i c box
          exact ext.subtype self (self.over_box box) hb
        · rfl
      · rfl
    | _ =>
      cases b with
      | prim q =>
        dsimp only
        rw [ext.unboxed? ha]
      | _ => dsimp only

end Subtype

section View

variable {target : ClassId} (self : s.SelfContained) (ext : s.Extends t)

include self

/-- A view as a class of a self-contained table does not lead out of it. -/
lemma SelfContained.over_of_viewFrom (htarget : s.declares target = true)
    {seen : List TypeVarId} (h : ty.Over s) {v : Ty}
    (view : (s.viewFrom target seen ty).Gives (some v)) : v.Over s := by
  refine of_viewFrom (P := fun x => x.Over s)
    (fun _ _ _ => Ty.over_cls.2 ⟨htarget, List.forall_mem_nil _⟩) (fun c hc e he => ?_)
    (fun _ _ _ => self.over_objectType) (fun v _ => self.over_upperBounds v)
    (fun ms => Ty.over_inter.1) (fun b => Ty.over_wildExtends.1) h view
  exact self.over_of_mem_classClosure hc (mem_of_classView? he).1

include ext

/-- Views over the first table are merged alike in both. -/
lemma Extends.mergeViews (ha : a.Over s) (hb : b.Over s) : t.mergeViews a b = s.mergeViews a b := by
  rw [ClassTable.mergeViews, ClassTable.mergeViews, ext.subtype self ha hb, ext.subtype self hb ha]

/-- A class type over the first table is viewed alike in both. -/
lemma Extends.viewClass {c : ClassTy} (hc : c.toTy.Over s) :
    t.viewClass target c = s.viewClass target c := by
  rw [ClassTable.viewClass, ClassTable.viewClass, ext.closureEvents self hc,
    ext.classView? self hc]

/-- The view of a type is the same query in both tables. -/
lemma Extends.view (htarget : s.declares target = true) (h : ty.Over s) :
    t.view ty target = s.view ty target := by
  suffices both : (∀ seen ty, ty.Over s → t.viewFrom target seen ty = s.viewFrom target seen ty) ∧
      ∀ seen ms, (∀ m ∈ ms, m.Over s) → ∀ found, (∀ x ∈ found, Ty.Over s x) →
        t.viewMembers target seen found ms = s.viewMembers target seen found ms from
    both.1 [] ty h
  clear h
  apply view_induction s
  case array =>
    intro seen elem _
    rw [viewFrom, viewFrom, ext.isArraySuperclass]
  case inter =>
    intro seen ms ih hms
    rw [viewFrom, viewFrom, ih (Ty.over_inter.1 hms) none (by simp)]
  case met =>
    intro seen w met _
    rw [viewFrom, viewFrom, if_pos met, if_pos met]
  case unbounded =>
    intro seen w fresh unbounded hw
    have unbounded' := (ext.upperBounds (Ty.over_var.1 hw)).trans unbounded
    rw [viewFrom_unbounded fresh unbounded', viewFrom_unbounded fresh unbounded, ext.wellKnown]
    exact ext.viewClass self self.over_objectType
  case bounded =>
    intro seen w fresh b bs bounded ih hw
    have bounded' := (ext.upperBounds (Ty.over_var.1 hw)).trans bounded
    rw [viewFrom_bounded fresh bounded', viewFrom_bounded fresh bounded]
    exact ih (bounded ▸ self.over_upperBounds w) none (by simp)
  case wildExtends =>
    intro seen b ih hb
    rw [viewFrom, viewFrom, ih (Ty.over_wildExtends.1 hb)]
  case cls =>
    intro seen c args hc
    rw [viewFrom, viewFrom]
    exact ext.viewClass (c := ⟨c, args⟩) self hc
  case viewless =>
    intro seen ty viewless _
    rw [viewless, viewless]
  case nil =>
    intro seen _ found _
    rw [viewMembers, viewMembers]
  case cons =>
    intro seen m ms first rest hms found hfound
    obtain ⟨hm, hms⟩ := List.forall_mem_cons.1 hms
    rw [viewMembers, viewMembers, first hm]
    refine Query.bind_congr fun view hview => ?_
    cases view with
    | none =>
      dsimp only
      exact rest hms found hfound
    | some view =>
      have held := self.over_of_viewFrom htarget hm hview
      cases found with
      | none =>
        dsimp only
        exact rest hms (some view) fun x hx => Option.mem_some.1 hx ▸ held
      | some before =>
        dsimp only
        rw [ext.mergeViews self (hfound before rfl) held]
        refine Query.bind_congr fun merged chosen => ?_
        cases merged with
        | none => dsimp only
        | some merged =>
          dsimp only
          refine rest hms (some merged) fun x hx => ?_
          cases hx
          rcases eq_or_eq_of_mergeViews chosen with rfl | rfl
          · exact hfound merged rfl
          · exact held

end View

end ClassTable

end LambdaTyping
