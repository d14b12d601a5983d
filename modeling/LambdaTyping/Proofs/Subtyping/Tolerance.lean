import LambdaTyping.Proofs.Hierarchy.Forgetting
import LambdaTyping.Proofs.Subtyping.Inclusion

/-!
# Where parts of a type may be forgotten

`Tolerates` says where something may be forgotten inside a type. Elsewhere the rules for arrays, for
wildcards bounded by `Object` and for intersections do not treat an unknown type as one that fits.
Two types that are one type with some parts forgotten are below each other
(`below_and_includes_common`).
-/

namespace LambdaTyping

/-- A type that stands in an intersection as a reference type, or is unknown there. The members of
an intersection that stands there do so too. -/
inductive Ty.IsOperand : Ty → Prop
  | unknown : IsOperand .unknown
  | plain {m : Ty} : m.isReference = true → m.isIntersection = false → m.isWildcard = false →
      IsOperand m
  | inter {ms : List Ty} : (∀ m ∈ ms, IsOperand m) → IsOperand (.inter ms)

namespace Ty.IsOperand

variable {m m' : Ty}

/-- An operand is no wildcard. -/
lemma notWildcard (h : m.IsOperand) : m.isWildcard = false := by
  cases h with
  | plain _ _ plain => exact plain
  | _ => rfl

/-- The members of an operand are operands. -/
lemma member {ms : List Ty} (h : (Ty.inter ms).IsOperand) (hm : m ∈ ms) : m.IsOperand := by
  cases h with
  | plain _ flat => cases flat
  | inter all => exact all m hm

/-- An operand with some parts forgotten is an operand. -/
lemma forget {keeps : Ty → Ty → Prop} (h : m.IsOperand) (hm : m.Forgets keeps m') :
    m'.IsOperand := by
  induction h generalizing m' with
  | unknown =>
    cases hm.outline
    exact .unknown
  | plain ref flat plain =>
    cases hm.outline with
    | unknown => exact .unknown
    | inter => cases flat
    | _ => exact .plain ref rfl plain
  | inter _ ih =>
    cases hm.outline with
    | unknown => exact .unknown
    | inter each _ =>
      refine .inter fun n hn => ?_
      obtain ⟨m, mem, forgets⟩ := exists_mem_of_forall₂_right each hn
      exact ih m mem forgets

end Ty.IsOperand

namespace ClassTable

variable {t : ClassTable} {a a' b b' : Ty}

/-- Where something may be forgotten inside a node: inside the elements of an array, but not all of
them; inside the bound of a wildcard, and all of it unless it is `Object` above; and in
intersections of reference types. What stands there as a wildcard is left alone. -/
def Tolerates (t : ClassTable) : Ty → Ty → Prop
  | .array e, .array e' => e' ≠ .unknown ∧ e.isWildcard = false
  | .wildExtends u, .wildExtends u' =>
    (u' = .unknown → t.isObject u = false) ∧ u.isWildcard = false
  | .wildSuper l, .wildSuper _ => l.isWildcard = false
  | .inter ms, .inter _ => (Ty.inter ms).IsOperand
  | _, _ => True

/-- Inside an element or a bound something may be forgotten, unless it is a wildcard. -/
lemma lenient_tolerates (t : ClassTable) : Ty.Lenient t.Tolerates :=
  fun _ _ known plain => ⟨⟨known, plain⟩, ⟨fun unknown => absurd unknown known, plain⟩, plain⟩

/-- The second type is the first with some parts forgotten, and a wildcard at the top is as it was.
-/
structure Coarser (t : ClassTable) (a a' : Ty) : Prop where
  forgets : a.Forgets t.Tolerates a'
  plain : a' = a ∨ a.isWildcard = false

/-- A type is as coarse as itself. -/
lemma Coarser.same (a : Ty) : t.Coarser a a :=
  ⟨.same a, .inl rfl⟩

/-- Nothing is forgotten of a wildcard at the top. -/
lemma Coarser.eq_of_wildcard (h : t.Coarser a a') (wild : a.isWildcard = true) : a' = a := by
  rcases h.plain with same | plain
  · exact same
  · rw [wild] at plain
    cases plain

section Parts

variable {e e' u u' l l' : Ty} {ms ms' : List Ty}

/-- The elements of an array become coarser, and not all of them is forgotten. -/
lemma coarser_element (he : e.Forgets t.Tolerates e')
    (kept : e' = e ∨ t.Tolerates (.array e) (.array e')) :
    t.Coarser e e' ∧ (e' = .unknown → e = .unknown) := by
  rcases kept with rfl | ⟨known, plain⟩
  · exact ⟨.same e', id⟩
  · exact ⟨⟨he, .inr plain⟩, fun unknown => absurd unknown known⟩

/-- The bound of an upper-bounded wildcard becomes coarser, and `Object` stays `Object` there. -/
lemma coarser_upper (hu : u.Forgets t.Tolerates u')
    (kept : u' = u ∨ t.Tolerates (.wildExtends u) (.wildExtends u')) :
    t.Coarser u u' ∧ (t.isObject u = true → t.isObject u' = true) := by
  rcases kept with rfl | ⟨object, plain⟩
  · exact ⟨.same u', id⟩
  · refine ⟨⟨hu, .inr plain⟩, fun isObject => ?_⟩
    cases hu.outline with
    | unknown =>
      rw [object rfl] at isObject
      cases isObject
    | cls => exact isObject
    | _ => cases isObject

/-- The bound of a lower-bounded wildcard becomes coarser. -/
lemma coarser_lower (hl : l.Forgets t.Tolerates l')
    (kept : l' = l ∨ t.Tolerates (.wildSuper l) (.wildSuper l')) : t.Coarser l l' := by
  rcases kept with rfl | plain
  · exact .same l'
  · exact ⟨hl, .inr plain⟩

/-- The members of an intersection become coarser. -/
lemma forall₂_coarser_members (hms : List.Forall₂ (Ty.Forgets t.Tolerates) ms ms')
    (kept : ms' = ms ∨ t.Tolerates (.inter ms) (.inter ms')) :
    List.Forall₂ t.Coarser ms ms' := by
  rcases kept with rfl | operands
  · exact List.forall₂_same.2 fun m _ => .same m
  · refine Ty.forall₂_imp_of_mem hms fun m hm m' _ h => ?_
    exact ⟨h, .inr (operands.member hm).notWildcard⟩

/-- A type of which not everything is forgotten is still of its kind. -/
lemma kinds_of_forgets {keeps : Ty → Ty → Prop} (h : a.Forgets keeps a') (known : a' ≠ .unknown) :
    a'.isReference = a.isReference ∧ a'.isIntersection = a.isIntersection ∧
      a'.isWildcard = a.isWildcard := by
  cases h.outline with
  | unknown => exact absurd rfl known
  | _ => exact ⟨rfl, rfl, rfl⟩

/-- Forgetting makes nothing a wildcard. -/
lemma plain_of_forgets {keeps : Ty → Ty → Prop} (h : a.Forgets keeps a')
    (plain : a.isWildcard = false) : a'.isWildcard = false := by
  by_cases known : a' = .unknown
  · rw [known]
    rfl
  · rw [(kinds_of_forgets h known).2.2, plain]

/-- What is no reference type and is not forgotten altogether is as it was. -/
lemma eq_of_forgets {keeps : Ty → Ty → Prop} (h : a.Forgets keeps a')
    (known : a' = .unknown → a = .unknown) (ref : ¬a.isReference = true) : a' = a := by
  cases h.outline with
  | unknown => exact (known rfl).symm
  | void | prim => rfl
  | _ => exact absurd rfl ref

/-- A reference type that is not forgotten altogether is still one. -/
lemma isReference_forget {keeps : Ty → Ty → Prop} (h : a.Forgets keeps a')
    (known : a' = .unknown → a = .unknown) (ref : a.isReference = true) :
    a'.isReference = true := by
  rwa [(kinds_of_forgets h fun unknown => ?_).1]
  rw [known unknown] at ref
  cases ref

end Parts

section Intersections

/-- What is below an intersection is below each member. -/
lemma below_member {bs : List Ty} (hb : (Ty.inter bs).IsOperand)
    (self : ∀ x ∈ bs, t.Below (.inter bs) x) (h : t.Below a (.inter bs)) {x : Ty} (hx : x ∈ bs) :
    t.Below a x := by
  by_cases same : a = .inter bs
  · rw [same]
    exact self x hx
  · rw [below_iff] at h
    unfold subtypePlan at h
    rw [if_neg same] at h
    cases a with
    | unknown => exact below_of_unknown t x
    | void | prim => cases Plan.met_known_iff.1 h
    | null =>
      cases hb.member hx with
      | unknown => exact below_unknown t _
      | plain ref => exact below_null ref
      | inter => exact below_null rfl
    | _ => exact List.forall_mem_map.1 h x hx

/-- An intersection is below what a member is below. -/
lemma below_inter_of_below {ms : List Ty} {m : Ty} (hb : b.IsOperand) (hm : m ∈ ms)
    (h : t.Below m b) : t.Below (.inter ms) b := by
  induction hb generalizing ms m with
  | unknown => exact below_unknown t _
  | plain ref flat => exact below_of_member ref flat hm h
  | inter all ih =>
    refine below_inter_of_forall rfl fun x hx => ih x hx hm ?_
    exact below_member (.inter all) (fun y hy => ih y hy hy (below_self t y)) h hx

/-- An intersection is below another whose members each have one below in the first. -/
lemma below_inter_of_members {ms ns : List Ty} (hb : (Ty.inter ns).IsOperand)
    (h : ∀ n ∈ ns, ∃ m ∈ ms, t.Below m n) : t.Below (.inter ms) (.inter ns) := by
  refine below_inter_of_forall rfl fun n hn => ?_
  obtain ⟨m, hm, below⟩ := h n hn
  exact below_inter_of_below (hb.member hn) hm below

end Intersections

section Common

variable {x x' x'' : Ty}

/-- Type arguments with parts forgotten include one another if they do place by place. -/
lemma forall₂_includes {as as' as'' : List Ty}
    (h : ∀ x ∈ as, ∀ x' x'', x.Forgets t.Tolerates x' → x.Forgets t.Tolerates x'' →
      t.Includes x'' x')
    (ha : List.Forall₂ (Ty.Forgets t.Tolerates) as as')
    (ha' : List.Forall₂ (Ty.Forgets t.Tolerates) as as'') :
    List.Forall₂ t.Includes as'' as' := by
  induction ha generalizing as'' with
  | nil =>
    cases ha'
    exact .nil
  | cons head _ ih =>
    cases ha' with
    | cons head' tail' =>
      obtain ⟨first, others⟩ := List.forall_mem_cons.1 h
      exact .cons (first _ _ head head') (ih others tail')

/-- A class type is below another of its class if the arguments of the other include its own. -/
lemma below_cls_of_includes {c : ClassId} {as bs : List Ty} (h : List.Forall₂ t.Includes bs as) :
    t.Below (.cls c as) (.cls c bs) := by
  refine below_cls ((classPlan_holds_iff fun _ => Goal.met_known_iff).2 ?_)
  exact ⟨_, classView?_self t ⟨c, as⟩, .inr h⟩

/-- Arrays with forgotten elements are below each other if the elements are. -/
lemma below_array_common {e e' e'' : Ty} (he' : e.Forgets t.Tolerates e')
    (known' : e' = .unknown → e = .unknown) (he'' : e.Forgets t.Tolerates e'')
    (known'' : e'' = .unknown → e = .unknown) (h : t.Below e' e'') :
    t.Below (.array e') (.array e'') := by
  by_cases ref : e.isReference = true
  · exact below_array (isReference_forget he' known' ref) (isReference_forget he'' known'' ref) h
  · rw [eq_of_forgets he' known' ref, eq_of_forgets he'' known'' ref]

/-- Intersections with forgotten members are below each other if the members are, one by one. -/
lemma below_inter_common {ms ms' ms'' : List Ty}
    (h : ∀ m ∈ ms, ∀ m' m'', t.Coarser m m' → t.Coarser m m'' → t.Below m' m'')
    (hms' : List.Forall₂ (Ty.Forgets t.Tolerates) ms ms')
    (kept' : ms' = ms ∨ t.Tolerates (.inter ms) (.inter ms'))
    (hms'' : List.Forall₂ (Ty.Forgets t.Tolerates) ms ms'')
    (kept'' : ms'' = ms ∨ t.Tolerates (.inter ms) (.inter ms'')) :
    t.Below (.inter ms') (.inter ms'') := by
  by_cases same : ms' = ms''
  · rw [same]
  · -- Something is forgotten in one of the two, so that all members are operands.
    have operands : (Ty.inter ms).IsOperand := by
      rcases kept' with rfl | operands
      · rcases kept'' with rfl | operands
        · exact absurd rfl same
        · exact operands
      · exact operands
    have operands'' : (Ty.inter ms'').IsOperand :=
      .inter fun m'' hm'' => by
        obtain ⟨m, hm, forgets⟩ := Ty.exists_mem_of_forall₂_right hms'' hm''
        exact (operands.member hm).forget forgets
    refine below_inter_of_members operands'' fun m'' hm'' => ?_
    obtain ⟨m, hm, coarser''⟩ :=
      Ty.exists_mem_of_forall₂_right (forall₂_coarser_members hms'' kept'') hm''
    obtain ⟨m', hm', coarser'⟩ :=
      Ty.exists_mem_of_forall₂_left (forall₂_coarser_members hms' kept') hm
    exact ⟨m', hm', h m hm m' m'' coarser' coarser''⟩

/-- Of two types that are one type with some parts forgotten, each is below and includes the other.
-/
lemma below_and_includes_common (x : Ty) :
    (∀ x' x'', t.Coarser x x' → t.Coarser x x'' → t.Below x' x'') ∧
      ∀ x' x'', x.Forgets t.Tolerates x' → x.Forgets t.Tolerates x'' → t.Includes x'' x' := by
  have includes {x : Ty} (plain : x.isWildcard = false) (x' x'' : Ty)
      (hx' : x.Forgets t.Tolerates x') (hx'' : x.Forgets t.Tolerates x'') :
      t.Includes x'' x' := by
    rw [includes_iff_of_not_wildcard (plain_of_forgets hx'' plain)]
    exact Ty.identical_forget (Ty.identical_self x) hx'' hx'
  have wild {x : Ty} (wild : x.isWildcard = true) (x' x'' : Ty) (hx' : t.Coarser x x')
      (hx'' : t.Coarser x x'') : t.Below x' x'' := by
    rw [hx'.eq_of_wildcard wild, hx''.eq_of_wildcard wild]
  -- The rule for class types asks for inclusion, and inclusion in a wildcard for subtyping.
  induction x using Ty.rec_members with
  | array e ih =>
    refine ⟨fun x' x'' hx' hx'' => ?_, includes rfl⟩
    cases hx'.forgets.outline with
    | unknown => exact below_of_unknown t x''
    | array he' kept' =>
      cases hx''.forgets.outline with
      | unknown => exact below_unknown t _
      | array he'' kept'' =>
        obtain ⟨coarser', known'⟩ := coarser_element he' kept'
        obtain ⟨coarser'', known''⟩ := coarser_element he'' kept''
        exact below_array_common he' known' he'' known'' (ih.1 _ _ coarser' coarser'')
  | cls c args ih =>
    refine ⟨fun x' x'' hx' hx'' => ?_, includes rfl⟩
    cases hx'.forgets.outline with
    | unknown => exact below_of_unknown t x''
    | cls each' =>
      cases hx''.forgets.outline with
      | unknown => exact below_unknown t _
      | cls each'' =>
        exact below_cls_of_includes (forall₂_includes (fun y hy => (ih y hy).2) each' each'')
  | inter ms ih =>
    refine ⟨fun x' x'' hx' hx'' => ?_, includes rfl⟩
    cases hx'.forgets.outline with
    | unknown => exact below_of_unknown t x''
    | inter each' kept' =>
      cases hx''.forgets.outline with
      | unknown => exact below_unknown t _
      | inter each'' kept'' =>
        exact below_inter_common (fun m hm => (ih m hm).1) each' kept' each'' kept''
  | wild =>
    refine ⟨wild rfl, fun x' x'' hx' hx'' => ?_⟩
    cases hx''.outline with
    | unknown => exact Goal.met_known_iff.2 (Ty.unknown_identical x')
    | wild => exact Goal.met_known_iff.2 rfl
  | wildExtends u ih =>
    refine ⟨wild rfl, fun x' x'' hx' hx'' => ?_⟩
    cases hx''.outline with
    | unknown => exact Goal.met_known_iff.2 (Ty.unknown_identical x')
    | wildExtends hu'' kept'' =>
      cases hx'.outline with
      | unknown => exact below_of_unknown t _
      | wildExtends hu' kept' =>
        exact ih.1 _ _ (coarser_upper hu' kept').1 (coarser_upper hu'' kept'').1
  | wildSuper l ih =>
    refine ⟨wild rfl, fun x' x'' hx' hx'' => ?_⟩
    cases hx''.outline with
    | unknown => exact Goal.met_known_iff.2 (Ty.unknown_identical x')
    | wildSuper hl'' kept'' =>
      cases hx'.outline with
      | unknown => exact below_unknown t _
      | wildSuper hl' kept' =>
        exact ih.1 _ _ (coarser_lower hl'' kept'') (coarser_lower hl' kept')
  | _ =>
    refine ⟨fun x' x'' hx' hx'' => ?_, includes rfl⟩
    cases hx'.forgets.outline with
    | unknown => exact below_of_unknown t x''
    | _ =>
      cases hx''.forgets.outline with
      | unknown => exact below_unknown t _
      | _ => exact below_self t _

end Common

end ClassTable

end LambdaTyping
