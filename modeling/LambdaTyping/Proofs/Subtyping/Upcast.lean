import LambdaTyping.Proofs.Subtyping.Inclusion
import LambdaTyping.Proofs.Subtyping.View

/-!
# A type is below its views

A view is a class type above the type it is a view of (`below_of_viewFrom`). The rule for class
types compares the view with itself there, and each type argument includes itself; intersections,
variables and wildcards are below what one of their members or bounds is below.
-/

namespace LambdaTyping.ClassTable

variable {t : ClassTable} {target : ClassId}

/-- A type argument includes itself. -/
lemma includes_self (t : ClassTable) (a : Ty) : t.Includes a a := by
  cases a with
  | wild => exact Goal.met_known_iff.2 rfl
  | wildExtends u => exact t.below_self u
  | wildSuper l => exact t.below_self l
  | _ => exact (includes_iff_of_not_wildcard rfl).2 (Ty.identical_self _)

/-- A class type is below its views. -/
lemma below_of_classView? {c e : ClassTy} (h : t.classView? c target = some e) :
    t.Below c.toTy e.toTy := by
  obtain ⟨-, rfl⟩ := mem_of_classView? h
  refine below_cls ((classPlan_holds_iff fun _ => Goal.met_known_iff).2 ⟨e, h, .inr ?_⟩)
  exact List.forall₂_same.2 fun a _ => t.includes_self a

/-- A class type has views as the classes of the class types it is below. -/
lemma exists_classView?_of_below {c d : ClassTy} (h : t.Below c.toTy d.toTy) :
    ∃ e, t.classView? c d.head = some e := by
  have plan : t.subtypePlan c.toTy d.toTy =
      if c.toTy = d.toTy then .known true else t.classPlan c d := rfl
  rw [below_iff, plan] at h
  split at h
  · rename_i same
    have head : c.head = d.head := (Ty.cls.inj same).1
    exact ⟨c, head ▸ t.classView?_self c⟩
  · obtain ⟨e, view, -⟩ := (classPlan_holds_iff fun _ => Goal.met_known_iff).1 h
    exact ⟨e, view⟩

section Root

variable (root : ∀ d, t.class? t.wellKnown.object = some d → d.supertypes = [])

include root

/-- Nothing but `Object` stands above `Object`. -/
lemma head_of_reaches_object {args : List Ty} {e : ClassTy}
    (reach : t.Reaches ⟨t.wellKnown.object, args⟩ e) : e.head = t.wellKnown.object := by
  induction reach with
  | refl => rfl
  | tail _ he ih =>
    cases mem_parents_iff.1 he with
    | declared hd _ hs _ =>
      rw [ih] at hd
      rw [root _ hd] at hs
      cases hs
    | raw hd _ hu =>
      rw [ih] at hd
      rw [root _ hd] at hu
      cases hu
    | root => rfl

/-- A type variable without bounds is below what `Object` is below. -/
lemma below_var_of_below_object {v : TypeVarId} (unbounded : t.upperBounds v = []) {w : ClassTy}
    (h : t.Below t.objectType w.toTy) : t.Below (.var v) w.toTy := by
  refine below_of_unbounded rfl rfl unbounded (decide_eq_true ?_)
  obtain ⟨e, view⟩ := exists_classView?_of_below (c := ⟨t.wellKnown.object, []⟩) h
  obtain ⟨mem, head⟩ := mem_of_classView? view
  exact head.symm.trans (head_of_reaches_object root (reaches_of_mem_classClosure mem))

/-- A view is a class type of the class, and the type is below it. -/
lemma below_of_viewFrom {seen : List TypeVarId} {ty u : Ty}
    (h : (t.viewFrom target seen ty).Gives (some u)) :
    (∃ args, u = .cls target args) ∧ t.Below ty u := by
  -- What the type is viewed through is below no class type that the type is not below.
  refine of_viewFrom (P := fun x => ∀ w : ClassTy, t.Below x w.toTy → t.Below ty w.toTy)
    (Q := fun u => (∃ args, u = .cls target args) ∧ t.Below ty u) (fun e he superclass => ?_)
    (fun c hc e he => ?_) (fun v hv unbounded w hw => ?_) (fun v hv b hb w hw => ?_)
    (fun ms hms m hm w hw => ?_) (fun b hb w hw => ?_) (fun _ hw => hw) h
  · exact ⟨⟨[], rfl⟩, he ⟨target, []⟩ (below_arrayClass superclass)⟩
  · have above := hc e (below_of_classView? he)
    obtain ⟨-, rfl⟩ := mem_of_classView? he
    exact ⟨⟨e.args, rfl⟩, above⟩
  · exact hv w (below_var_of_below_object root unbounded hw)
  · exact hv w (below_of_bound rfl rfl hb hw)
  · exact hms w (below_of_member rfl rfl hm hw)
  · exact hb w (below_of_wildExtends rfl rfl nofun hw)

/-- A view is really a supertype: it is a class type of the class, and to whether the type is a
subtype of it there is no answer but that it is. -/
theorem subtype_of_view {ty u : Ty} (h : (t.view ty target).Gives (some u)) :
    (∃ args, u = .cls target args) ∧ ∀ r, (t.subtype ty u).Gives r → r = true := by
  obtain ⟨ofClass, below⟩ := below_of_viewFrom root h
  exact ⟨ofClass, fun r hr => (gives_subtype hr).2 below⟩

end Root

/-- `Object`, `Mark`, `Cell<E>` and `Box<T> extends Cell<T>`. Of the type variables that belong to
no class `V` has the bounds `W` and `Box<Unknown>`, and `W` the bound `Mark & ? extends Box<Mark>`.
-/
def nestedBounds : ClassTable where
  classes := #[
    ⟨"Object", .cls, [], none, [], []⟩,
    ⟨"Mark", .interface, [], none, [], []⟩,
    ⟨"Cell", .interface, [⟨0⟩], none, [], []⟩,
    ⟨"Box", .interface, [⟨1⟩], none, [.cls ⟨2⟩ [.var ⟨1⟩]], []⟩]
  params := #[⟨"E", [], none⟩, ⟨"T", [], none⟩, ⟨"V", [.var ⟨3⟩, .cls ⟨3⟩ [.unknown]], none⟩,
    ⟨"W", [.inter [.cls ⟨1⟩ [], .wildExtends (.cls ⟨3⟩ [.cls ⟨1⟩ []])]], none⟩]
  index := ∅
  wellKnown := ⟨⟨0⟩, ⟨0⟩, ⟨0⟩, ⟨0⟩, ⟨0⟩, ⟨0⟩⟩

/-- `V` is viewed as `Cell` through `W`, which leaves nothing unknown. -/
theorem subtype_of_view_nestedBounds :
    (∀ d, nestedBounds.class? nestedBounds.wellKnown.object = some d → d.supertypes = []) ∧
      (nestedBounds.view (.var ⟨2⟩) ⟨2⟩).Gives (some (.cls ⟨2⟩ [.cls ⟨1⟩ []])) ∧
      (nestedBounds.subtype (.var ⟨2⟩) (.cls ⟨2⟩ [.cls ⟨1⟩ []])).Gives true := by
  have root : ∀ d, nestedBounds.class? nestedBounds.wellKnown.object = some d →
      d.supertypes = [] := by
    rintro _ ⟨⟩
    rfl
  have view : (nestedBounds.view (.var ⟨2⟩) ⟨2⟩).Gives (some (.cls ⟨2⟩ [.cls ⟨1⟩ []])) :=
    ⟨9, [], by cbv⟩
  have ends : (nestedBounds.subtype (.var ⟨2⟩) (.cls ⟨2⟩ [.cls ⟨1⟩ []])).Ends :=
    ⟨true, 9, [], by cbv⟩
  obtain ⟨r, hr⟩ := ends
  exact ⟨root, view, (subtype_of_view root view).2 r hr ▸ hr⟩

end LambdaTyping.ClassTable
