import LambdaTyping.Proofs.Subtyping.Basic
import LambdaTyping.Proofs.Subtyping.Rules

/-!
# Inclusion of type arguments

`Includes` is containment of type arguments as a relation. It composes at a middle argument through
whose bound subtyping composes (`includesTransAt_wildExtends`, `includesTransAt_wildSuper`). So does
the rule for class types, if inclusion composes at the arguments of the middle type, and its
wildcards are handed on as they are (`PassesArgs`, `classPlan_trans`).
-/

namespace LambdaTyping

namespace ClassTable

variable {t : ClassTable} {a b c : Ty}

/-- The type argument includes the other. -/
def Includes (t : ClassTable) (formal actual : Ty) : Prop :=
  (t.argumentGoal formal actual).Met t

/-- What is below the type is below what the type is below. -/
def TransAt (t : ClassTable) (b : Ty) : Prop :=
  ∀ a c, t.RegularType a → t.RegularType c → t.Below a b → t.Below b c → t.Below a c

/-- What the type argument includes is included in what includes the type argument. -/
def IncludesTransAt (t : ClassTable) (b : Ty) : Prop :=
  ∀ a c, t.RegularArg a → a.isReference = true → t.RegularArg c → c.isReference = true →
    t.Includes b a → t.Includes c b → t.Includes c a

section Inclusion

variable {formal actual u : Ty}

/-- An argument that is no wildcard includes the arguments identical to it. -/
lemma includes_iff_of_not_wildcard (h : formal.isWildcard = false) :
    t.Includes formal actual ↔ formal.identical actual = true := by
  rw [Includes, argumentGoal_of_not_wildcard h, Goal.met_known_iff]

/-- An upper-bounded wildcard includes an argument if the argument is below its bound. -/
lemma includes_wildExtends_iff (h : actual.isWildcard = false) :
    t.Includes (.wildExtends u) actual ↔ t.Below actual u := by
  rw [Includes, argumentGoal_wildExtends h, Below]

/-- A lower-bounded wildcard includes an argument if its bound is below the argument. -/
lemma includes_wildSuper_iff (h : actual.isWildcard = false) :
    t.Includes (.wildSuper u) actual ↔ t.Below u actual := by
  rw [Includes, argumentGoal_wildSuper h, Below]

/-- A wildcard is included in wildcards only. -/
lemma isWildcard_of_includes (h : t.Includes formal actual) (wild : actual.isWildcard = true)
    (known : formal ≠ .unknown) : formal.isWildcard = true := by
  by_contra plain
  rw [Bool.not_eq_true] at plain
  rw [includes_iff_of_not_wildcard plain] at h
  cases actual with
  | wild | wildExtends | wildSuper => cases formal <;> simp_all [Ty.identical, Ty.isWildcard]
  | _ => cases wild

variable (reg : t.Regular)

include reg

/-- A wildcard bounded by `Object` includes everything. -/
lemma includes_wildExtends_object (ha : t.RegularArg actual) (ref : actual.isReference = true) :
    t.Includes (.wildExtends t.objectType) actual := by
  cases actual with
  | wild | wildSuper => exact Goal.met_known_iff.2 (decide_eq_true rfl)
  | wildExtends b => exact below_object reg ha.wildExtends
  | _ => exact (includes_wildExtends_iff rfl).2 (below_object reg ⟨⟨ha, rfl⟩, ref⟩)

/-- Inclusion composes at the wildcard without bounds. -/
lemma includesTransAt_wild : t.IncludesTransAt .wild := by
  intro a c ha refA hc refC _ hcb
  have wild := isWildcard_of_includes hcb rfl hc.known.here
  cases c with
  | wild => exact .known
  | wildExtends u =>
    rw [reg.eq_objectType hc.wildExtends.type (Goal.met_known_iff.1 hcb)]
    exact includes_wildExtends_object reg ha refA
  | wildSuper l => cases Goal.met_known_iff.1 hcb
  | _ => cases wild

/-- Inclusion composes at an upper-bounded wildcard through whose bound subtyping composes. -/
lemma includesTransAt_wildExtends {w : Ty} (hw : t.RegularRef w) (through : t.TransAt w) :
    t.IncludesTransAt (.wildExtends w) := by
  intro a c ha refA hc refC hba hcb
  have wild := isWildcard_of_includes hcb rfl hc.known.here
  cases c with
  | wild => exact .known
  | wildExtends u =>
    have hu := hc.wildExtends
    have above : t.Below w u := hcb
    cases a with
    | wild | wildSuper =>
      -- Only the wildcard bounded by `Object` includes these.
      rw [reg.eq_objectType hw.type (Goal.met_known_iff.1 hba)] at above
      rw [eq_objectType_of_below reg hu above]
      exact includes_wildExtends_object reg ha refA
    | wildExtends x => exact through x u ha.wildExtends.type hu.type hba above
    | _ =>
      refine (includes_wildExtends_iff rfl).2 ?_
      exact through _ u ⟨ha, rfl⟩ hu.type ((includes_wildExtends_iff rfl).1 hba) above
  | wildSuper l => cases Goal.met_known_iff.1 hcb
  | _ => cases wild

/-- Inclusion composes at a lower-bounded wildcard through whose bound subtyping composes. -/
lemma includesTransAt_wildSuper {w : Ty} (through : t.TransAt w) :
    t.IncludesTransAt (.wildSuper w) := by
  intro a c ha refA hc refC hba hcb
  have wild := isWildcard_of_includes hcb rfl hc.known.here
  cases c with
  | wild => exact .known
  | wildExtends u =>
    rw [reg.eq_objectType hc.wildExtends.type (Goal.met_known_iff.1 hcb)]
    exact includes_wildExtends_object reg ha refA
  | wildSuper l =>
    have hl := hc.wildSuper
    have below : t.Below l w := hcb
    cases a with
    | wild | wildExtends => cases Goal.met_known_iff.1 hba
    | wildSuper x => exact through l x hl.type ha.wildSuper.type below hba
    | _ =>
      refine (includes_wildSuper_iff rfl).2 ?_
      exact through l _ hl.type ⟨ha, rfl⟩ below ((includes_wildSuper_iff rfl).1 hba)
  | _ => cases wild

end Inclusion

/-- A rigid type argument includes itself only. -/
lemma eq_of_includes (plain : b.isWildcard = false) (rigid : b.Rigid) (ha : t.RegularArg a)
    (h : t.Includes b a) : b = a :=
  Ty.eq_of_identical rigid ha.known ((includes_iff_of_not_wildcard plain).1 h)

/-- Inclusion composes at an argument to which only itself is identical. -/
lemma includesTransAt_of_rigid (plain : b.isWildcard = false) (rigid : b.Rigid) :
    t.IncludesTransAt b := by
  intro a c ha _ _ _ hba hcb
  rwa [eq_of_includes plain rigid ha hba] at hcb

section Classes

/-- What stands above the class type hands on the type variable as it is: no type argument there
mentions it but the variable itself. -/
def HandsOn (t : ClassTable) (c : ClassTy) (v : TypeVarId) : Prop :=
  ∀ e ∈ t.classClosure c, ∀ x ∈ e.args, x.mentions v = true → x = .var v

/-- Whether what stands above the class type hands on the type variable as it is. -/
def handsOn (t : ClassTable) (c : ClassTy) (v : TypeVarId) : Bool :=
  (t.classClosure c).all fun e => e.args.all fun x => !x.mentions v || x = .var v

/-- The test for type variables that are handed on is right. -/
lemma handsOn_iff {c : ClassTy} {v : TypeVarId} : t.handsOn c v = true ↔ t.HandsOn c v := by
  simp only [handsOn, HandsOn, List.all_eq_true, Bool.or_eq_true, Bool.not_eq_true',
    decide_eq_true_eq, ← Bool.not_eq_true, ← imp_iff_not_or]

/-- The class type gives wildcards for type parameters only that its class hands on, and otherwise
type arguments that include themselves only. -/
structure PassesArgs (t : ClassTable) (c : ClassId) (args : List Ty) : Prop where
  handsOn : ∀ d ∈ t.class? c, ∀ p ∈ d.typeParams.zip args, p.2.isWildcard = true →
    t.HandsOn ⟨c, d.typeParams.map .var⟩ p.1
  rigid : ∀ x ∈ args, x.isWildcard = false → x.Rigid

/-- A pair from two lists has something between them in a third list of that length. -/
lemma exists_between_of_mem_zip {as bs cs : List Ty} (length : bs.length = cs.length) {p : Ty × Ty}
    (h : p ∈ as.zip cs) : ∃ b, (p.1, b) ∈ as.zip bs ∧ (b, p.2) ∈ bs.zip cs := by
  obtain ⟨i, hi, rfl⟩ := List.getElem_of_mem h
  have hi := List.length_zip ▸ hi
  have ha : i < as.length := by omega
  have hc : i < cs.length := by omega
  have hb : i < bs.length := length ▸ hc
  have left : i < (as.zip bs).length := by rw [List.length_zip]; omega
  have right : i < (bs.zip cs).length := by rw [List.length_zip]; omega
  rw [List.getElem_zip]
  refine ⟨bs[i], ?_, ?_⟩
  · rw [← List.getElem_zip (h := left)]
    exact List.getElem_mem left
  · rw [← List.getElem_zip (h := right)]
    exact List.getElem_mem right

variable {cb : ClassId} {bs ds : List Ty} {d : ClassDecl} (reg : t.Regular)
  (hb : t.RegularArg (.cls cb bs)) (passes : t.PassesArgs cb bs)
  (through : ∀ b ∈ bs, t.IncludesTransAt b) (hd : t.RegularArg (.cls cb ds))
  (each : ∀ p ∈ bs.zip ds, t.Includes p.1 p.2)

include hb through hd each

/-- Inclusion of type arguments composes place by place. -/
lemma includes_zip {cs : List Ty} (hc : t.RegularArg (.cls cb cs))
    (above : ∀ p ∈ cs.zip bs, t.Includes p.1 p.2) : ∀ p ∈ cs.zip ds, t.Includes p.1 p.2 := by
  intro p hp
  obtain ⟨k, hk, length⟩ := hd.declared
  obtain ⟨hf, hx⟩ := List.of_mem_zip hp
  obtain ⟨b, left, right⟩ := exists_between_of_mem_zip ((hb.length hk).trans length.symm) hp
  obtain ⟨regular, reference⟩ := hc.arg hf
  obtain ⟨regular', reference'⟩ := hd.arg hx
  exact through b (List.of_mem_zip left).2 p.2 p.1 regular' reference' regular reference
    (each _ right) (above _ left)

include reg passes

/-- What two class types of one class have above it: where the arguments of the first include those
of the second, what includes an argument that is seen at the first includes it as it is seen at the
second. -/
lemma includes_rebuild (hk : t.class? cb = some d) {x : ClassTy}
    (reach : t.Reaches ⟨cb, d.typeParams.map .var⟩ x) {y formal : Ty} (hy : y ∈ x.args)
    (hf : t.RegularArg formal ∧ formal.isReference = true)
    (above : t.Includes formal ((t.instantiate d bs).rebuild y)) :
    t.Includes formal ((t.instantiate d ds).rebuild y) := by
  have pair {v : TypeVarId} (hv : v ∈ d.typeParams) :=
    rebuild_instantiate_mem_zip (t := t) (hb.length hk) (hd.length hk) hv
  have inScope := scopedIn_of_reaches reg.wellScoped reach hy
  by_cases wild : ∃ v, y.mentions v = true ∧
      ((t.instantiate d bs).rebuild (.var v)).isWildcard = true
  · -- The wildcard is handed on, so both have the argument of one type parameter.
    obtain ⟨v, hv, wild⟩ := wild
    have place := rebuild_instantiate_mem (t := t) (hb.length hk) (inScope v hv)
    have walk := (mem_classClosure_iff (reg.single cb d hk)).2 reach
    obtain rfl := passes.handsOn d hk _ place wild x walk y hy hv
    have hv := pair (inScope v hv)
    obtain ⟨first, second⟩ := List.of_mem_zip hv
    obtain ⟨ha, refA⟩ := hd.arg second
    exact through _ first _ _ ha refA hf.1 hf.2 (each _ hv) above
  · -- Where no wildcard comes in, both have the same arguments.
    have same : (t.instantiate d bs).rebuild y = (t.instantiate d ds).rebuild y := by
      refine Subst.rebuild_congr fun v hv => ?_
      have plain : ((t.instantiate d bs).rebuild (.var v)).isWildcard = false :=
        Bool.eq_false_iff.2 fun isWild => wild ⟨v, hv, isWild⟩
      have hv := pair (inScope v hv)
      obtain ⟨first, second⟩ := List.of_mem_zip hv
      exact eq_of_includes plain (passes.rigid _ first plain) (hd.arg second).1 (each _ hv)
    rwa [same] at above

omit hd each in
/-- The rule for class types composes at one whose arguments are handed on. -/
lemma classPlan_trans {ca cc : ClassId} {as cs : List Ty} (ha : t.RegularArg (.cls ca as))
    (hc : t.RegularArg (.cls cc cs)) (hab : (t.classPlan ⟨ca, as⟩ ⟨cb, bs⟩).Met t)
    (hbc : (t.classPlan ⟨cb, bs⟩ ⟨cc, cs⟩).Met t) : (t.classPlan ⟨ca, as⟩ ⟨cc, cs⟩).Met t := by
  obtain ⟨k, hk, _⟩ := hb.declared
  obtain ⟨⟨_, ds⟩, reach, rfl, each⟩ := (classPlan_met_iff reg ha hb).1 hab
  obtain ⟨f, up, rfl, above⟩ := (classPlan_met_iff reg hb hc).1 hbc
  have hd : t.RegularArg (.cls _ ds) := ha.view reach
  refine (classPlan_met_iff reg ha hc).2 ?_
  rcases (hb.reaches_iff reg hk).1 up with rfl | ⟨y, hy, rfl⟩
  · exact ⟨_, reach, rfl, includes_zip hb through hd each hc above⟩
  · -- Above the first stands what stands above the class of the second, at the arguments there.
    refine ⟨_, reach.trans ((hd.reaches_iff reg hk).2 (.inr ⟨y, hy, rfl⟩)), rfl, ?_⟩
    rw [ClassTy.rebuild, List.zip_map_right] at above ⊢
    refine List.forall_mem_map.2 fun p hp => ?_
    obtain ⟨hf, hz⟩ := List.of_mem_zip hp
    exact includes_rebuild reg hb passes through hd each hk hy.to_reflTransGen hz (hc.arg hf)
      (above _ (List.mem_map_of_mem hp))

end Classes

end ClassTable

end LambdaTyping
