import LambdaTyping.Proofs.Subtyping.Merging
import LambdaTyping.Proofs.Subtyping.Weight

/-!
# The order in which types are looked at

Views of several types are merged from left to right, and each is only compared with the one that
has been kept so far. So which view is kept may depend on the order of the members of an
intersection, or of the bounds of a type variable (`view_depends_on_order`). The order makes no
difference exactly where the views are unbiased (`view_orderFree_iff`): those that are preferred to
all others are identical, and if there are any, no two views exclude each other.
-/

namespace LambdaTyping.ClassTable

section Orders

/-- A view that is preferred to each other one. -/
def IsBest (R : Ty → Ty → Prop) (S : Ty → Prop) (w : Ty) : Prop :=
  S w ∧ ∀ x, S x → R w x

/-- No order of the views is needed to choose among them: the best views are identical, and if there
are any, no two views exclude each other. -/
structure Unbiased (R : Ty → Ty → Prop) (S : Ty → Prop) : Prop where
  comparable : ∀ w, IsBest R S w → ∀ a b, S a → S b → R a b ∨ R b a
  identical : ∀ w w', IsBest R S w → IsBest R S w' → w.identical w' = true

/-- Both views are none, or they are identical. -/
def alike : Option Ty → Option Ty → Bool
  | none, none => true
  | some a, some b => a.identical b
  | _, _ => false

/-- Both questions are answered, and alike. -/
def SameView (x y : Query (Option Ty)) : Prop :=
  ∃ r r', x.Gives r ∧ y.Gives r' ∧ alike r r' = true

/-- The question about some types is answered alike in all their orders. -/
def OrderFree (ask : List Ty → Query (Option Ty)) (ms : List Ty) : Prop :=
  ∀ ms₁ ms₂, ms₁.Perm ms → ms₂.Perm ms → SameView (ask ms₁) (ask ms₂)

/-- The types are viewed so. -/
def ViewsOf (looked : Ty → Option Ty → Prop) (ms : List Ty) (x : Ty) : Prop :=
  ∃ m ∈ ms, looked m (some x)

/-- A view is like itself. -/
lemma alike_self (r : Option Ty) : alike r r = true := by
  cases r with
  | none => rfl
  | some a => exact Ty.identical_self a

/-- There is only one order of no types. -/
lemma orderFree_nil {ask : List Ty → Query (Option Ty)} (ends : (ask []).Ends) :
    OrderFree ask [] := by
  intro ms₁ ms₂ perm₁ perm₂
  obtain ⟨r, hr⟩ := ends
  rw [perm₁.eq_nil, perm₂.eq_nil]
  exact ⟨r, r, hr, hr, alike_self r⟩

/-- No types have no views that could be biased. -/
lemma unbiased_nil {R : Ty → Ty → Prop} {looked : Ty → Option Ty → Prop} :
    Unbiased R (ViewsOf looked []) := by
  have nothing {x : Ty} (h : ViewsOf looked [] x) : False := by
    obtain ⟨m, hm, _⟩ := h
    cases hm
  exact ⟨fun w best => (nothing best.1).elim, fun w w' best => (nothing best.1).elim⟩

end Orders

section Pair

variable {R : Ty → Ty → Prop} {S : Ty → Prop} {a b : Ty} (self : ∀ x, R x x)
  (pair : ∀ x, S x → x = a ∨ x = b)

include self pair

/-- Preferences among two views are consistent. -/
lemma consistent_of_pair : Consistent R S := by
  intro x y z hx hy hz hxy hyz
  by_cases first : x = y
  · rwa [first]
  · by_cases second : y = z
    · rwa [← second]
    · have back : x = z := by grind
      rw [back]
      exact self z

/-- Two views are unbiased if only the first is preferred to the other. -/
lemma unbiased_of_pair (ha : S a) (first : R a b) (notSecond : ¬R b a) : Unbiased R S := by
  have eq_of_best {w : Ty} (best : IsBest R S w) : w = a := by
    refine (pair w best.1).resolve_right ?_
    rintro rfl
    exact notSecond (best.2 a ha)
  refine ⟨fun _ _ x y hx hy => ?_, fun w w' best best' => ?_⟩
  · rcases pair x hx with rfl | rfl
    · rcases pair y hy with rfl | rfl
      · exact .inl (self _)
      · exact .inl first
    · rcases pair y hy with rfl | rfl
      · exact .inr first
      · exact .inl (self _)
  · rw [eq_of_best best, eq_of_best best']
    exact Ty.identical_self a

end Pair

section Asked

variable {R : Ty → Ty → Prop} {looked : Ty → Option Ty → Prop} {ms : List Ty}
  {ask : List Ty → Query (Option Ty)} (one : ∀ m x y, looked m x → looked m y → y = x)
  (ends : ∀ ms', ms'.Perm ms → (ask ms').Ends)
  (kept : ∀ ms' r, ms'.Perm ms → (ask ms').Gives r → KeptOf R looked none ms' r)

include one ends kept

/-- The best view is kept where it is met first. -/
lemma exists_order_of_isBest {w : Ty} (best : IsBest R (ViewsOf looked ms) w) :
    ∃ ms', ms'.Perm ms ∧ (ask ms').Gives (some w) := by
  obtain ⟨⟨m, hm, hw⟩, wins⟩ := best
  have perm : (m :: ms.erase m).Perm ms := (List.perm_cons_erase hm).symm
  refine ⟨_, perm, ?_⟩
  obtain ⟨r, hr⟩ := ends _ perm
  cases kept _ _ perm hr with
  | pass hm' => cases one _ _ _ hm' hw
  | start hm' rest =>
    cases one _ _ _ hm' hw
    rwa [rest.eq_of_best fun n hn x hx => wins x ⟨n, List.mem_of_mem_erase hn, hx⟩] at hr

/-- No view is kept where two that exclude each other are met first. -/
lemma exists_order_of_clash (self : ∀ x, R x x) {a b : Ty} (ha : ViewsOf looked ms a)
    (hb : ViewsOf looked ms b) (notFirst : ¬R a b) (notSecond : ¬R b a) :
    ∃ ms', ms'.Perm ms ∧ (ask ms').Gives none := by
  obtain ⟨m, hm, ha⟩ := ha
  obtain ⟨n, hn, hb⟩ := hb
  have ne : n ≠ m := by
    rintro rfl
    cases one _ _ _ ha hb
    exact notFirst (self a)
  have hn : n ∈ ms.erase m := (List.mem_erase_of_ne ne).2 hn
  have perm : (m :: n :: (ms.erase m).erase n).Perm ms :=
    ((List.perm_cons_erase hm).trans ((List.perm_cons_erase hn).cons m)).symm
  refine ⟨_, perm, ?_⟩
  obtain ⟨r, hr⟩ := ends _ perm
  cases kept _ _ perm hr with
  | pass hm' => cases one _ _ _ hm' ha
  | start hm' rest =>
    cases one _ _ _ hm' ha
    cases rest with
    | pass hn' => cases one _ _ _ hn' hb
    | merge hn' chosen =>
      cases one _ _ _ hn' hb
      cases chosen.unique (.neither notFirst notSecond)
    | clash => exact hr

/-- Where preferences are consistent, the order makes no difference exactly if none is needed. -/
lemma orderFree_iff (self : ∀ x, R x x) (consistent : Consistent R (ViewsOf looked ms)) :
    OrderFree ask ms ↔ Unbiased R (ViewsOf looked ms) := by
  constructor
  · intro free
    have same {r r' : Option Ty} (h : ∃ ms', ms'.Perm ms ∧ (ask ms').Gives r)
        (h' : ∃ ms', ms'.Perm ms ∧ (ask ms').Gives r') : alike r r' = true := by
      obtain ⟨ms₁, perm₁, h₁⟩ := h
      obtain ⟨ms₂, perm₂, h₂⟩ := h'
      obtain ⟨s, s', hs, hs', agree⟩ := free ms₁ ms₂ perm₁ perm₂
      rwa [hs.unique h₁, hs'.unique h₂] at agree
    -- A best view wins in some order, and a clash ends the search in another.
    refine ⟨fun w best a b ha hb => ?_, fun w w' best best' => ?_⟩
    · by_contra exclude
      rw [not_or] at exclude
      cases same (exists_order_of_isBest one ends kept best)
        (exists_order_of_clash one ends kept self ha hb exclude.1 exclude.2)
    · exact same (exists_order_of_isBest one ends kept best)
        (exists_order_of_isBest one ends kept best')
  · intro unbiased
    have views {ms' : List Ty} (perm : ms'.Perm ms) :
        ∀ m ∈ ms', ∀ x, looked m (some x) → ViewsOf looked ms x :=
      fun m hm x hx => ⟨m, perm.mem_iff.1 hm, hx⟩
    have wins {ms' : List Ty} {w : Ty} (perm : ms'.Perm ms) (h : (ask ms').Gives (some w)) :
        IsBest R (ViewsOf looked ms) w := by
      obtain ⟨hw, -, rest⟩ := (kept _ _ perm h).best one nofun (views perm) self consistent
      refine ⟨hw, fun x hx => ?_⟩
      obtain ⟨m, hm, hx⟩ := hx
      exact rest m (perm.mem_iff.2 hm) x hx
    have loses {ms' : List Ty} {w : Ty} (perm : ms'.Perm ms) (h : (ask ms').Gives none) :
        ¬IsBest R (ViewsOf looked ms) w := by
      intro best
      rcases (kept _ _ perm h).none_cases one nofun (views perm) self with
        ⟨-, nothing⟩ | ⟨a, b, ha, hb, no, no'⟩
      · obtain ⟨⟨m, hm, hw⟩, _⟩ := best
        exact nothing m (perm.mem_iff.2 hm) w hw
      · exact (unbiased.comparable w best a b ha hb).elim no no'
    intro ms₁ ms₂ perm₁ perm₂
    obtain ⟨r₁, h₁⟩ := ends ms₁ perm₁
    obtain ⟨r₂, h₂⟩ := ends ms₂ perm₂
    refine ⟨r₁, r₂, h₁, h₂, ?_⟩
    -- As a best view is never lost to a clash, the answers in two orders are of one kind.
    cases r₁ with
    | none =>
      cases r₂ with
      | none => rfl
      | some w => exact absurd (wins perm₂ h₂) (loses perm₁ h₁)
    | some w =>
      cases r₂ with
      | none => exact absurd (wins perm₁ h₁) (loses perm₂ h₂)
      | some w' => exact unbiased.identical w w' (wins perm₁ h₁) (wins perm₂ h₂)

end Asked

section Tables

variable {t : ClassTable} {target : ClassId}

/-- The types are viewed so, met on the way through the bounds of some variables. -/
def Viewed (t : ClassTable) (target : ClassId) (seen : List TypeVarId) : List Ty → Ty → Prop :=
  ViewsOf fun m => (t.viewFrom target seen m).Gives

/-- A type variable is viewed as its bounds together are, in the order they have been put in. -/
lemma viewMembers_of_bounds {v : TypeVarId} {bs : List Ty} {r : Option Ty}
    (perm : bs.Perm (t.upperBounds v)) (nonempty : t.upperBounds v ≠ [])
    (h : ((t.setUpperBounds v bs).view (.var v) target).Gives r) :
    ((t.setUpperBounds v bs).viewMembers target [v] none bs).Gives r := by
  cases bs with
  | nil => exact absurd perm.nil_eq.symm nonempty
  | cons b bs =>
    rwa [view, viewFrom_bounded List.not_mem_nil (upperBounds_setUpperBounds_self perm)] at h

/-- Where preferences among the views are consistent, the view of an intersection is the same for
all orders of its members exactly if the views are unbiased, and so it is with the bounds of a type
variable. -/
theorem view_orderFree_iff (t : ClassTable) (target : ClassId) :
    (∀ ms, (∀ ms', ms'.Perm ms → (t.view (.inter ms') target).Ends) →
      Consistent t.Prefers (t.Viewed target [] ms) →
        (OrderFree (fun ms => t.view (.inter ms) target) ms ↔
          Unbiased t.Prefers (t.Viewed target [] ms))) ∧
    ∀ v, (∀ b ∈ t.upperBounds v, (t.viewFrom target [v] b).Ends) →
      (∀ bs, bs.Perm (t.upperBounds v) → ((t.setUpperBounds v bs).view (.var v) target).Ends) →
      Consistent t.Prefers (t.Viewed target [v] (t.upperBounds v)) →
        (OrderFree (fun bs => (t.setUpperBounds v bs).view (.var v) target) (t.upperBounds v) ↔
          Unbiased t.Prefers (t.Viewed target [v] (t.upperBounds v))) := by
  refine ⟨fun ms ends consistent => ?_, fun v bounds ends consistent => ?_⟩
  · refine orderFree_iff (fun _ _ _ hx hy => hy.unique hx) ends (fun ms' r _ h => ?_)
      t.prefers_self consistent
    rw [view, viewFrom] at h
    exact keptOf_of_gives h
  · cases declared : t.upperBounds v with
    | nil => exact iff_of_true (orderFree_nil (ends [] (declared ▸ .rfl))) unbiased_nil
    | cons b bs =>
      have nonempty : t.upperBounds v ≠ [] := declared ▸ List.cons_ne_nil b bs
      rw [← declared]
      refine orderFree_iff (fun _ _ _ hx hy => hy.unique hx) ends (fun bs' r perm h => ?_)
        t.prefers_self consistent
      have reordered := boundsReordered_setUpperBounds perm
      have kept := keptOf_of_gives (viewMembers_of_bounds perm nonempty h)
      rw [reordered.prefers] at kept
      refine kept.imp fun u hu x hx => ?_
      obtain ⟨y, hy⟩ := bounds u (perm.mem_iff.1 hu)
      rwa [reordered.viewsAgree (List.Subset.refl _) u y x hy hx]

end Tables

section Cells

/-- `Object`, `Number`, `Comparable`, `Integer extends Number implements Comparable`, `Cell<E>` and
`Box<T> extends Cell<T>`, with a type variable `V` that has these bounds. -/
def cells (bounds : List Ty) : ClassTable where
  classes := #[
    ⟨"Object", .cls, [], none, [], []⟩,
    ⟨"Number", .cls, [], some (.cls ⟨0⟩ []), [], []⟩,
    ⟨"Comparable", .interface, [], none, [], []⟩,
    ⟨"Integer", .cls, [], some (.cls ⟨1⟩ []), [.cls ⟨2⟩ []], []⟩,
    ⟨"Cell", .interface, [⟨0⟩], none, [], []⟩,
    ⟨"Box", .interface, [⟨1⟩], none, [.cls ⟨4⟩ [.var ⟨1⟩]], []⟩]
  params := #[⟨"E", [], none⟩, ⟨"T", [], none⟩, ⟨"V", bounds, none⟩]
  index := ∅
  wellKnown := ⟨⟨0⟩, ⟨0⟩, ⟨1⟩, ⟨3⟩, ⟨0⟩, ⟨0⟩⟩

namespace Cells

private def integer : Ty := .cls ⟨3⟩ []
private def cell (arg : Ty) : Ty := .cls ⟨4⟩ [arg]
private def integers : Ty := cell integer
private def numbers : Ty := cell (.wildExtends (.cls ⟨1⟩ []))

/-- `Box<Integer>` and `Cell<? extends Number>`. -/
def boxFirst : List Ty := [.cls ⟨5⟩ [integer], numbers]

/-- The two types are viewed as `Cell<Integer>` and `Cell<? extends Number>`. -/
lemma viewed_boxFirst {seen : List TypeVarId} {x : Ty} :
    (cells boxFirst).Viewed ⟨4⟩ seen boxFirst x ↔ x = integers ∨ x = numbers := by
  have first : ((cells boxFirst).viewFrom ⟨4⟩ seen (.cls ⟨5⟩ [integer])).Gives (some integers) :=
    ⟨0, [], by cbv⟩
  have second : ((cells boxFirst).viewFrom ⟨4⟩ seen numbers).Gives (some numbers) :=
    ⟨0, [], by cbv⟩
  constructor
  · rintro ⟨m, hm, hx⟩
    rcases List.mem_pair.1 hm with rfl | rfl
    · cases hx.unique first
      exact .inl rfl
    · cases hx.unique second
      exact .inr rfl
  · rintro (rfl | rfl)
    · exact ⟨_, List.mem_cons_self, first⟩
    · exact ⟨_, List.mem_cons_of_mem _ List.mem_cons_self, second⟩

/-- Of the views `Cell<Integer>` is below the other one. -/
lemma unbiased_boxFirst (seen : List TypeVarId) :
    Unbiased (cells boxFirst).Prefers ((cells boxFirst).Viewed ⟨4⟩ seen boxFirst) := by
  have known : integers.placeholders = numbers.placeholders := rfl
  have below : ((cells boxFirst).subtype integers numbers).Gives true := ⟨3, [], by cbv⟩
  have notAbove : ((cells boxFirst).subtype numbers integers).Gives false := ⟨3, [], by cbv⟩
  refine unbiased_of_pair (prefers_self _) (fun _ => viewed_boxFirst.1)
    (viewed_boxFirst.2 (.inl rfl)) ((prefers_iff_of_eq known).2 ((gives_subtype below).1 rfl))
    fun prefers => ?_
  exact Bool.false_ne_true ((gives_subtype notAbove).2 ((prefers_iff_of_eq known.symm).1 prefers))

end Cells

/-- The view of the two types as `Cell` does not depend on their order, as members and as bounds. -/
theorem view_orderFree_iff_boxFirst :
    let t := cells Cells.boxFirst
    (∀ ms, ms.Perm Cells.boxFirst → (t.view (.inter ms) ⟨4⟩).Ends) ∧
      Consistent t.Prefers (t.Viewed ⟨4⟩ [] Cells.boxFirst) ∧
      OrderFree (fun ms => t.view (.inter ms) ⟨4⟩) Cells.boxFirst ∧
      t.upperBounds ⟨2⟩ = Cells.boxFirst ∧
      (∀ b ∈ t.upperBounds ⟨2⟩, (t.viewFrom ⟨4⟩ [⟨2⟩] b).Ends) ∧
      (∀ bs, bs.Perm (t.upperBounds ⟨2⟩) →
        ((t.setUpperBounds ⟨2⟩ bs).view (.var ⟨2⟩) ⟨4⟩).Ends) ∧
      Consistent t.Prefers (t.Viewed ⟨4⟩ [⟨2⟩] (t.upperBounds ⟨2⟩)) ∧
      OrderFree (fun bs => (t.setUpperBounds ⟨2⟩ bs).view (.var ⟨2⟩) ⟨4⟩) (t.upperBounds ⟨2⟩) := by
  intro t
  have consistent (seen : List TypeVarId) :
      Consistent t.Prefers (t.Viewed ⟨4⟩ seen Cells.boxFirst) :=
    consistent_of_pair t.prefers_self fun _ => Cells.viewed_boxFirst.1
  have members : ∀ ms, ms.Perm Cells.boxFirst → (t.view (.inter ms) ⟨4⟩).Ends := by
    intro ms perm
    rcases List.perm_pair.1 perm with rfl | rfl
    · exact ⟨_, 3, [], by cbv⟩
    · exact ⟨_, 3, [], by cbv⟩
  have views : ∀ b ∈ Cells.boxFirst, (t.viewFrom ⟨4⟩ [⟨2⟩] b).Ends := by
    intro b hb
    rcases List.mem_pair.1 hb with rfl | rfl
    · exact ⟨_, 0, [], by cbv⟩
    · exact ⟨_, 0, [], by cbv⟩
  have bounds : ∀ bs, bs.Perm Cells.boxFirst →
      ((t.setUpperBounds ⟨2⟩ bs).view (.var ⟨2⟩) ⟨4⟩).Ends := by
    intro bs perm
    rcases List.perm_pair.1 perm with rfl | rfl
    · exact ⟨_, 3, [], by cbv⟩
    · exact ⟨_, 3, [], by cbv⟩
  obtain ⟨inter, var⟩ := view_orderFree_iff t ⟨4⟩
  exact ⟨members, consistent _, (inter _ members (consistent _)).2 (Cells.unbiased_boxFirst _), rfl,
    views, bounds, consistent _,
    (var ⟨2⟩ views bounds (consistent _)).2 (Cells.unbiased_boxFirst _)⟩

namespace Cells

/-- Class types in two orders. -/
def orders : List (List Ty × List Ty) := [
  -- The last is below the other two, which exclude each other and may be compared before it.
  ([numbers, cell (.wildExtends (.cls ⟨2⟩ [])), integers],
    [integers, numbers, cell (.wildExtends (.cls ⟨2⟩ []))]),
  -- These are below each other.
  ([integers, .cls ⟨4⟩ []], [.cls ⟨4⟩ [], integers]),
  ([cell .wild, cell (.wildExtends (.cls ⟨0⟩ []))],
    [cell (.wildExtends (.cls ⟨0⟩ [])), cell .wild])]

/-- Whether both questions are answered within so many steps, and not alike. -/
def differWithin (n : Nat) (x y : Query (Option Ty)) : Bool :=
  match x.attempt n, y.attempt n with
  | some (r, _), some (r', _) => !alike r r'
  | _, _ => false

/-- Questions that are answered differently within some steps have different views. -/
lemma not_sameView {n : Nat} {x y : Query (Option Ty)} (h : differWithin n x y = true) :
    ¬SameView x y := by
  rintro ⟨r, r', hr, hr', same⟩
  unfold differWithin at h
  split at h
  · rename_i s es s' es' hs hs'
    rw [hr.unique ⟨n, es, hs⟩, hr'.unique ⟨n, es', hs'⟩] at same
    rw [same] at h
    cases h
  · cases h

/-- The class types are viewed differently in their two orders, as members and as bounds. -/
lemma differ_orders : orders.all (fun (ms, ms') =>
    differWithin 4 ((cells ms).view (.inter ms) ⟨4⟩) ((cells ms).view (.inter ms') ⟨4⟩) &&
      differWithin 4 ((cells ms).view (.var ⟨2⟩) ⟨4⟩)
        (((cells ms).setUpperBounds ⟨2⟩ ms').view (.var ⟨2⟩) ⟨4⟩)) = true := by
  cbv

end Cells

/-- Distinct class types may have another view in another order, or have one only there, though no
bounds are cyclic. -/
theorem view_depends_on_order :
    (∀ p ∈ Cells.orders, (∀ m ∈ p.1, m.asClass?.isSome = true) ∧ 2 ≤ p.1.length ∧ p.1.Nodup ∧
      p.2.Perm p.1 ∧ (cells p.1).AcyclicBounds ∧ (cells p.1).upperBounds ⟨2⟩ = p.1) ∧
    (∀ p ∈ Cells.orders,
      ¬SameView ((cells p.1).view (.inter p.1) ⟨4⟩) ((cells p.1).view (.inter p.2) ⟨4⟩)) ∧
    ∀ p ∈ Cells.orders,
      ¬SameView ((cells p.1).view (.var ⟨2⟩) ⟨4⟩)
        (((cells p.1).setUpperBounds ⟨2⟩ p.2).view (.var ⟨2⟩) ⟨4⟩) := by
  have shape : ∀ p ∈ Cells.orders, (∀ m ∈ p.1, m.asClass?.isSome = true) ∧ 2 ≤ p.1.length ∧
      p.1.Nodup ∧ p.2.Perm p.1 := by
    decide +kernel
  refine ⟨fun p hp => ?_, fun p hp => ?_, fun p hp => ?_⟩
  · obtain ⟨classes, two, distinct, perm⟩ := shape p hp
    refine ⟨classes, two, distinct, perm, acyclicBounds_of_classes fun q hq u hu => ?_, rfl⟩
    simp only [cells, List.mem_toArray, List.mem_cons, List.not_mem_nil, or_false] at hq
    rcases hq with rfl | rfl | rfl
    · cases hu
    · cases hu
    · exact classes u hu
  · have differ := List.all_eq_true.1 Cells.differ_orders p hp
    exact Cells.not_sameView (Bool.and_eq_true_iff.1 differ).1
  · have differ := List.all_eq_true.1 Cells.differ_orders p hp
    exact Cells.not_sameView (Bool.and_eq_true_iff.1 differ).2

end Cells

end LambdaTyping.ClassTable
