import LambdaTyping.Proofs.Hierarchy.Reachability
import LambdaTyping.Proofs.Type.Identity

/-!
# Regular types

A type is regular if it is well formed at its top, and so is all that can be seen from it: the types
it is built of, and the class types that stand above class types. Wildcards are not captured, so a
wildcard may come to stand anywhere in what is seen above a class type; in a regular type it stands
as a type argument only. What stands above a regular class type is regular (`RegularArg.view`).
-/

namespace LambdaTyping.ClassTable

variable {t : ClassTable}

/-- What can be seen from a type: the types that occur in it, and the class types that stand above
class types, with what can be seen from these. -/
inductive Seen (t : ClassTable) (x : Ty) : Ty → Prop
  | self : Seen t x x
  | part {y z : Ty} : Seen t x y → z ∈ y.subterms → Seen t x z
  | above {c e : ClassTy} : Seen t x c.toTy → e ∈ t.parents c → Seen t x e.toTy

/-- Whether the type is well formed at its top. Classes are declared and have an argument for each
type parameter, type arguments are reference types, and so are bounds of wildcards and members of
intersections, which are no wildcards themselves. -/
def isSoundAt (t : ClassTable) : Ty → Bool
  | .unknown => false
  | .array e => !e.isWildcard
  | .cls c args =>
    (t.class? c).any fun d => args.length = d.typeParams.length && args.all Ty.isReference
  | .wildExtends b | .wildSuper b => b.isReference && !b.isWildcard
  | .inter ms =>
    2 ≤ ms.length && ms.Nodup &&
      ms.all fun m => m.isReference && !m.isWildcard && !m.isIntersection
  | _ => true

/-- A regular type argument, which may be a wildcard. -/
def RegularArg (t : ClassTable) (x : Ty) : Prop :=
  ∀ y, t.Seen x y → t.isSoundAt y = true

/-- A regular type. -/
structure RegularType (t : ClassTable) (x : Ty) : Prop where
  regular : t.RegularArg x
  notWildcard : x.isWildcard = false

/-- A regular reference type. -/
structure RegularRef (t : ClassTable) (x : Ty) : Prop where
  type : t.RegularType x
  reference : x.isReference = true

/-- A table without cycles, of regular bounds, in which `Object` stands above every class. -/
structure Regular (t : ClassTable) : Prop where
  wellScoped : t.WellScoped
  normal : ∀ d ∈ t.classes, ∀ s ∈ d.supertypes, s.Normal
  acyclic : t.Acyclic
  single : t.SingleInstantiation
  acyclicBounds : ∀ v, t.boundCycle? [] (.var v) = none
  bounds : ∀ v, ∀ b ∈ t.upperBounds v, t.RegularRef b
  lowerBounds : ∀ v, t.lowerBound? v = none
  object : ∃ d, t.class? t.wellKnown.object = some d ∧ d.typeParams = []
  rootless : t.parents ⟨t.wellKnown.object, []⟩ = []
  rooted : ∀ c d, t.class? c = some d →
    ∃ e, t.Reaches ⟨c, d.typeParams.map .var⟩ e ∧ e.head = t.wellKnown.object
  /-- Only superclasses of arrays stand above superclasses of arrays. -/
  arrays : ∀ c d, t.class? c = some d → t.isArraySuperclass c = true →
    ∀ p ∈ t.classesAbove d, t.isArraySuperclass p = true

section Seen

/-- What can be seen from what can be seen from a type can be seen from the type. -/
lemma Seen.trans {x y z : Ty} (xy : t.Seen x y) (yz : t.Seen y z) : t.Seen x z := by
  induction yz with
  | self => exact xy
  | part _ hz ih => exact ih.part hz
  | above _ he ih => exact ih.above he

/-- What stands above a class type can be seen from it. -/
lemma seen_of_reaches {c e : ClassTy} (reach : t.Reaches c e) : t.Seen c.toTy e.toTy := by
  induction reach with
  | refl => exact .self
  | tail _ he ih => exact ih.above he

end Seen

section Parts

variable {x y : Ty}

/-- What can be seen from a regular type argument is regular. -/
lemma RegularArg.of_seen (h : t.RegularArg x) (hy : t.Seen x y) : t.RegularArg y :=
  fun z hz => h z (hy.trans hz)

/-- What occurs in a regular type argument is regular. -/
lemma RegularArg.of_mem_subterms (h : t.RegularArg x) (hy : y ∈ x.subterms) : t.RegularArg y :=
  h.of_seen (Seen.self.part hy)

/-- A regular type argument is well formed at its top. -/
lemma RegularArg.here (h : t.RegularArg x) : t.isSoundAt x = true :=
  h x .self

/-- Nothing in a regular type argument is unknown. -/
lemma RegularArg.known (h : t.RegularArg x) : x.Everywhere (· ≠ .unknown) := by
  rintro s hs rfl
  exact absurd (h.of_mem_subterms hs).here Bool.false_ne_true

/-- The elements of a regular array type are regular. -/
lemma RegularArg.array {e : Ty} (h : t.RegularArg (.array e)) : t.RegularType e := by
  refine ⟨h.of_mem_subterms Ty.mem_subterms_array, ?_⟩
  simpa [isSoundAt] using h.here

/-- The bound of a regular upper-bounded wildcard is a regular reference type. -/
lemma RegularArg.wildExtends {b : Ty} (h : t.RegularArg (.wildExtends b)) : t.RegularRef b := by
  have here := h.here
  simp only [isSoundAt, Bool.and_eq_true, Bool.not_eq_true'] at here
  exact ⟨⟨h.of_mem_subterms Ty.mem_subterms_wildExtends, here.2⟩, here.1⟩

/-- The bound of a regular lower-bounded wildcard is a regular reference type. -/
lemma RegularArg.wildSuper {b : Ty} (h : t.RegularArg (.wildSuper b)) : t.RegularRef b := by
  have here := h.here
  simp only [isSoundAt, Bool.and_eq_true, Bool.not_eq_true'] at here
  exact ⟨⟨h.of_mem_subterms Ty.mem_subterms_wildSuper, here.2⟩, here.1⟩

/-- The class of a regular class type is declared, with as many type parameters as there are
arguments. -/
lemma RegularArg.declared {c : ClassId} {args : List Ty} (h : t.RegularArg (.cls c args)) :
    ∃ d, t.class? c = some d ∧ args.length = d.typeParams.length := by
  obtain ⟨d, hd, here⟩ := Option.any_eq_true _ _ |>.1 h.here
  rw [Bool.and_eq_true, decide_eq_true_eq] at here
  exact ⟨d, hd, here.1⟩

/-- A regular class type has as many arguments as its class has type parameters. -/
lemma RegularArg.length {c : ClassId} {d : ClassDecl} {args : List Ty}
    (h : t.RegularArg (.cls c args)) (hd : t.class? c = some d) :
    args.length = d.typeParams.length := by
  obtain ⟨d', hd', length⟩ := h.declared
  cases hd.symm.trans hd'
  exact length

/-- The type arguments of a regular class type are regular and of reference types. -/
lemma RegularArg.arg {c : ClassId} {args : List Ty} (h : t.RegularArg (.cls c args)) {a : Ty}
    (ha : a ∈ args) : t.RegularArg a ∧ a.isReference = true := by
  obtain ⟨d, _, here⟩ := Option.any_eq_true _ _ |>.1 h.here
  rw [Bool.and_eq_true, List.all_eq_true] at here
  exact ⟨h.of_mem_subterms (Ty.mem_subterms_cls ha), here.2 a ha⟩

/-- A member of a regular intersection is compared as a whole. -/
lemma RegularArg.member {ms : List Ty} (h : t.RegularArg (.inter ms)) {m : Ty} (hm : m ∈ ms) :
    t.RegularRef m ∧ m.isIntersection = false := by
  have here := h.here
  simp only [isSoundAt, Bool.and_eq_true, List.all_eq_true, Bool.not_eq_true'] at here
  obtain ⟨⟨reference, plain⟩, flat⟩ := here.2 m hm
  exact ⟨⟨⟨h.of_mem_subterms (Ty.mem_subterms_inter hm), plain⟩, reference⟩, flat⟩

/-- A regular intersection has two members at least, and none of them twice. -/
lemma RegularArg.members {ms : List Ty} (h : t.RegularArg (.inter ms)) :
    2 ≤ ms.length ∧ ms.Nodup := by
  have here := h.here
  simp only [isSoundAt, Bool.and_eq_true, decide_eq_true_eq] at here
  exact here.1

/-- Regular type arguments are in normal form. -/
lemma RegularArg.normal (h : t.RegularArg x) : x.Normal := by
  induction x using Ty.rec_members with
  | array e ih => exact Ty.normal_array.2 (ih h.array.regular)
  | wildExtends b ih => exact Ty.normal_wildExtends.2 (ih h.wildExtends.type.regular)
  | wildSuper b ih => exact Ty.normal_wildSuper.2 (ih h.wildSuper.type.regular)
  | cls c args ih => exact Ty.normal_cls.2 fun a ha => ih a ha (h.arg ha).1
  | inter ms ih =>
    refine Ty.normal_inter.2 ⟨h.members.1, h.members.2, fun m hm => ?_⟩
    obtain ⟨member, flat⟩ := h.member hm
    exact ⟨flat, ih m hm member.type.regular⟩
  | _ => rfl

end Parts

section Views

variable {c : ClassId} {d : ClassDecl} {args : List Ty} (h : t.RegularArg (.cls c args))

include h

/-- What stands above a regular class type is regular. -/
lemma RegularArg.view {e : ClassTy} (reach : t.Reaches ⟨c, args⟩ e) : t.RegularArg e.toTy :=
  h.of_seen (seen_of_reaches reach)

variable (reg : t.Regular) (hd : t.class? c = some d)

include reg hd

/-- What a regular class type reaches is what its class reaches within its own declaration, at the
type arguments. -/
lemma RegularArg.reaches_iff {e : ClassTy} :
    t.Reaches ⟨c, args⟩ e ↔ e = ⟨c, args⟩ ∨
      ∃ x, Relation.TransGen (fun a b => b ∈ t.parents a) ⟨c, d.typeParams.map .var⟩ x ∧
        e = x.rebuild (t.instantiate d args) :=
  reaches_iff_self reg.wellScoped reg.normal hd (h.length hd) fun _ ha => (h.arg ha).1.normal

/-- A regular class type inherits each class once. -/
lemma RegularArg.inheritsOnce : t.InheritsOnce ⟨c, args⟩ := by
  intro e e' reach reach' head
  rcases (h.reaches_iff reg hd).1 reach with rfl | ⟨x, hx, rfl⟩
  · rcases (h.reaches_iff reg hd).1 reach' with rfl | ⟨y, hy, rfl⟩
    · rfl
    · have apart := reg.acyclic _ y hy
      exact absurd head.symm apart
  · rcases (h.reaches_iff reg hd).1 reach' with rfl | ⟨y, hy, rfl⟩
    · have apart := reg.acyclic _ x hx
      exact absurd head apart
    · rw [reg.single c d hd x y hx.to_reflTransGen hy.to_reflTransGen head]

end Views

section Checks

/-- A type is regular if some types that include it are well formed, and all that is seen from them
directly is among them. -/
lemma regularArg_of_closed {x : Ty} {ys : List Ty} (hx : x ∈ ys)
    (sound : ∀ y ∈ ys, t.isSoundAt y = true ∧ (∀ z ∈ y.subterms, z ∈ ys) ∧
      ∀ c ∈ y.asClass?, ∀ e ∈ t.parents c, e.toTy ∈ ys) : t.RegularArg x := by
  have seen {y : Ty} (hy : t.Seen x y) : y ∈ ys := by
    induction hy with
    | self => exact hx
    | part _ hz ih => exact (sound _ ih).2.1 _ hz
    | above _ he ih => exact (sound _ ih).2.2 _ (Ty.asClass?_toTy _) _ he
  exact fun y hy => (sound y (seen hy)).1

/-- Whether the walk up from each class, within its own declaration, meets `Object`. -/
def walksRooted (t : ClassTable) : Bool :=
  t.classes.toList.zipIdx.all fun (d, i) =>
    (t.classClosure ⟨⟨i⟩, d.typeParams.map .var⟩).any fun e => e.head = t.wellKnown.object

/-- In a table whose walks are rooted each class reaches `Object`. -/
lemma rooted_of_walksRooted (h : t.walksRooted = true) (c : ClassId) (d : ClassDecl)
    (hd : t.class? c = some d) :
    ∃ e, t.Reaches ⟨c, d.typeParams.map .var⟩ e ∧ e.head = t.wellKnown.object := by
  have walk := List.all_eq_true.1 h _ (mem_zipIdx_of_class? hd)
  obtain ⟨e, he, head⟩ := List.any_eq_true.1 walk
  exact ⟨e, reaches_of_mem_classClosure he, of_decide_eq_true head⟩

/-- A type parameter that is not declared has no upper bounds. -/
lemma upperBounds_of_undeclared {v : TypeVarId} (h : t.param? v = none) : t.upperBounds v = [] := by
  rw [upperBounds, h]

/-- Bounds are acyclic if those of the declared type variables are. -/
lemma boundCycle?_of_params
    (h : (List.range t.params.size).all (fun i => t.boundCycle? [] (.var ⟨i⟩) = none) = true)
    (v : TypeVarId) : t.boundCycle? [] (.var v) = none := by
  by_cases declared : v.raw < t.params.size
  · exact of_decide_eq_true (List.all_eq_true.1 h v.raw (List.mem_range.2 declared))
  · have none : t.param? v = none := Array.getElem?_eq_none (Nat.le_of_not_lt declared)
    rw [boundCycle?, if_neg List.not_mem_nil]
    split
    · rename_i b hb
      rw [firstBound?, upperBounds_of_undeclared none] at hb
      cases hb
    · rfl

end Checks

end LambdaTyping.ClassTable
