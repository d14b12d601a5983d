import LambdaTyping.Proofs.Table.Scoping
import LambdaTyping.Proofs.Type.Identity

/-!
# Types with forgotten parts

A type may lose any of its parts to the unknown type. What is identical stays identical
(`identical_forget`), and a substitution that puts in less makes less of a type (`forgets_rebuild`).
-/

namespace LambdaTyping.Ty

/-- The second type is the first with some parts forgotten. Where something is forgotten inside an
array, a wildcard or an intersection, the node before and after is one that `keeps` allows. -/
inductive Forgets (keeps : Ty → Ty → Prop) : Ty → Ty → Prop
  | same (a : Ty) : Forgets keeps a a
  | all (a : Ty) : Forgets keeps a .unknown
  | array {e e' : Ty} : Forgets keeps e e' → keeps (.array e) (.array e') →
      Forgets keeps (.array e) (.array e')
  | cls {c : ClassId} {as as' : List Ty} : List.Forall₂ (Forgets keeps) as as' →
      Forgets keeps (.cls c as) (.cls c as')
  | wildExtends {u u' : Ty} : Forgets keeps u u' → keeps (.wildExtends u) (.wildExtends u') →
      Forgets keeps (.wildExtends u) (.wildExtends u')
  | wildSuper {l l' : Ty} : Forgets keeps l l' → keeps (.wildSuper l) (.wildSuper l') →
      Forgets keeps (.wildSuper l) (.wildSuper l')
  | inter {ms ms' : List Ty} : List.Forall₂ (Forgets keeps) ms ms' →
      keeps (.inter ms) (.inter ms') →
      Forgets keeps (.inter ms) (.inter ms')

/-- What is left of a type, seen from its top: nothing, or its head with what is left of its parts.
A node in which nothing was forgotten is as it was, another is one that `keeps` allows. -/
inductive Outline (keeps : Ty → Ty → Prop) : Ty → Ty → Prop
  | unknown (a : Ty) : Outline keeps a .unknown
  | void : Outline keeps .void .void
  | null : Outline keeps .null .null
  | prim (p : Primitive) : Outline keeps (.prim p) (.prim p)
  | var (v : TypeVarId) : Outline keeps (.var v) (.var v)
  | wild : Outline keeps .wild .wild
  | array {e e' : Ty} : Forgets keeps e e' → (e' = e ∨ keeps (.array e) (.array e')) →
      Outline keeps (.array e) (.array e')
  | cls {c : ClassId} {as as' : List Ty} : List.Forall₂ (Forgets keeps) as as' →
      Outline keeps (.cls c as) (.cls c as')
  | wildExtends {u u' : Ty} : Forgets keeps u u' →
      (u' = u ∨ keeps (.wildExtends u) (.wildExtends u')) →
      Outline keeps (.wildExtends u) (.wildExtends u')
  | wildSuper {l l' : Ty} : Forgets keeps l l' →
      (l' = l ∨ keeps (.wildSuper l) (.wildSuper l')) → Outline keeps (.wildSuper l) (.wildSuper l')
  | inter {ms ms' : List Ty} : List.Forall₂ (Forgets keeps) ms ms' →
      (ms' = ms ∨ keeps (.inter ms) (.inter ms')) →
      Outline keeps (.inter ms) (.inter ms')

variable {keeps : Ty → Ty → Prop} {a a' b b' : Ty}

/-- In a list of types nothing needs to be forgotten. -/
lemma forall₂_forgets_self (as : List Ty) : List.Forall₂ (Forgets keeps) as as :=
  List.forall₂_same.2 fun x _ => .same x

/-- A type with forgotten parts has an outline of the type. -/
lemma Forgets.outline (h : a.Forgets keeps a') : Outline keeps a a' := by
  cases h with
  | same =>
    cases a with
    | void => exact .void
    | null => exact .null
    | unknown => exact .unknown _
    | prim p => exact .prim p
    | array e => exact .array (.same e) (.inl rfl)
    | cls c args => exact .cls (forall₂_forgets_self args)
    | var v => exact .var v
    | wild => exact .wild
    | wildExtends u => exact .wildExtends (.same u) (.inl rfl)
    | wildSuper l => exact .wildSuper (.same l) (.inl rfl)
    | inter ms => exact .inter (forall₂_forgets_self ms) (.inl rfl)
  | all => exact .unknown a
  | array he kept => exact .array he (.inr kept)
  | cls each => exact .cls each
  | wildExtends hu kept => exact .wildExtends hu (.inr kept)
  | wildSuper hl kept => exact .wildSuper hl (.inr kept)
  | inter each kept => exact .inter each (.inr kept)

section Identity

/-- Lists that are identical place by place stay so if their types do. -/
lemma identicalAll_forget {as as' bs bs' : List Ty}
    (h : ∀ x ∈ as, ∀ y x' y', x.identical y = true → x.Forgets keeps x' → y.Forgets keeps y' →
      x'.identical y' = true)
    (ha : List.Forall₂ (Forgets keeps) as as') (hb : List.Forall₂ (Forgets keeps) bs bs')
    (all : identicalAll as bs = true) : identicalAll as' bs' = true := by
  induction ha generalizing bs bs' with
  | nil =>
    cases hb with
    | nil => rfl
    | cons => cases all
  | cons head _ ih =>
    cases hb with
    | nil => cases all
    | cons head' tail' =>
      rw [identicalAll, Bool.and_eq_true] at all ⊢
      obtain ⟨first, others⟩ := List.forall_mem_cons.1 h
      exact ⟨first _ _ _ all.1 head head', ih others tail' all.2⟩

/-- What is identical stays so whatever is forgotten on either side. -/
theorem identical_forget (h : a.identical b = true) (ha : a.Forgets keeps a')
    (hb : b.Forgets keeps b') : a'.identical b' = true := by
  induction a using rec_members generalizing b a' b' with
  | unknown =>
    cases ha.outline
    exact unknown_identical b'
  | array e ih =>
    cases ha.outline with
    | unknown => exact unknown_identical b'
    | array he _ =>
      cases hb.outline with
      | unknown => exact identical_unknown _
      | array hf _ =>
        rw [identical]
        exact ih h he hf
      | _ => cases h
  | cls c args ih =>
    cases ha.outline with
    | unknown => exact unknown_identical b'
    | cls hargs =>
      cases hb.outline with
      | unknown => exact identical_unknown _
      | cls hargs' =>
        rw [identical, Bool.and_eq_true] at h ⊢
        refine ⟨h.1, identicalAll_forget (fun x hx y x' y' same hx' hy' => ?_) hargs hargs' h.2⟩
        exact ih x hx same hx' hy'
      | _ => cases h
  | wildExtends u ih =>
    cases ha.outline with
    | unknown => exact unknown_identical b'
    | wildExtends hu _ =>
      cases hb.outline with
      | unknown => exact identical_unknown _
      | wildExtends hv _ =>
        rw [identical]
        exact ih h hu hv
      | _ => cases h
  | wildSuper l ih =>
    cases ha.outline with
    | unknown => exact unknown_identical b'
    | wildSuper hl _ =>
      cases hb.outline with
      | unknown => exact identical_unknown _
      | wildSuper hm _ =>
        rw [identical]
        exact ih h hl hm
      | _ => cases h
  | inter ms ih =>
    cases ha.outline with
    | unknown => exact unknown_identical b'
    | inter hms _ =>
      cases hb.outline with
      | unknown => exact identical_unknown _
      | inter hms' _ =>
        rw [identical, Bool.and_eq_true, decide_eq_true_eq, identicalSome_iff] at h ⊢
        obtain ⟨length, some⟩ := h
        refine ⟨?_, fun m' hm' => ?_⟩
        · rw [← hms.length_eq, ← hms'.length_eq, length]
        · -- What is left of a member has a partner in what is left of its partner.
          obtain ⟨m, hm, hmm'⟩ := exists_mem_of_forall₂_right hms hm'
          obtain ⟨n, hn, same⟩ := some m hm
          obtain ⟨n', hn', hnn'⟩ := exists_mem_of_forall₂_left hms' hn
          exact ⟨n', hn', ih m hm same hmm' hnn'⟩
      | _ => cases h
  | _ =>
    cases ha.outline with
    | unknown => exact unknown_identical b'
    | _ =>
      cases hb.outline with
      | unknown => exact identical_unknown _
      | _ => exact h

end Identity

section Substitution

/-- Whether the type stays as it is at its top when something is put in for its variables, and is
no wildcard unless it has none. -/
def isFirm : Ty → Bool
  | .var _ => false
  | .wildExtends u => u.freeVars.isEmpty
  | .wildSuper l => l.freeVars.isEmpty
  | _ => true

/-- Whether what is put in for variables comes only as a type argument, or further inside. -/
def isSteady : Ty → Bool
  | .array e | .wildExtends e | .wildSuper e => e.isFirm
  | .inter ms => (freeVarsOf ms).isEmpty
  | _ => true

/-- The nodes are kept in which something is forgotten inside the part, but neither the whole part
nor anything of a wildcard. -/
def Lenient (keeps : Ty → Ty → Prop) : Prop :=
  ∀ e e', e' ≠ .unknown → e.isWildcard = false →
    keeps (.array e) (.array e') ∧ keeps (.wildExtends e) (.wildExtends e') ∧
      keeps (.wildSuper e) (.wildSuper e')

variable {s s' : Subst}

/-- A type without variables becomes the same under every substitution. -/
lemma rebuild_of_closed (s s' : Subst) (closed : a.freeVars.isEmpty = true) :
    s'.rebuild a = s.rebuild a := by
  refine Subst.rebuild_congr fun v hv => ?_
  have mem : v ∈ a.freeVars := mem_freeVars.2 hv
  rw [List.isEmpty_iff.1 closed] at mem
  cases mem

/-- A firm type becomes the same under two substitutions, or keeps its head under both. -/
lemma rebuild_of_firm (s s' : Subst) (firm : a.isFirm = true)
    (steady : a.Everywhere fun x => x.isSteady = true) :
    s'.rebuild a = s.rebuild a ∨
      s'.rebuild a ≠ .unknown ∧ (s.rebuild a).isWildcard = false := by
  cases a with
  | var => cases firm
  | wildExtends | wildSuper => exact .inl (rebuild_of_closed s s' firm)
  | inter ms => exact .inl (rebuild_of_closed s s' steady.here)
  | array e => exact .inr ⟨nofun, rfl⟩
  | cls c args => exact .inr ⟨nofun, rfl⟩
  | _ => exact .inl rfl

/-- If less is put in for the variables, less comes out. -/
lemma forgets_rebuild (lenient : Lenient keeps)
    (h : ∀ v, (s.rebuild (.var v)).Forgets keeps (s'.rebuild (.var v)))
    (steady : a.Everywhere fun x => x.isSteady = true) :
    (s.rebuild a).Forgets keeps (s'.rebuild a) := by
  induction a using rec_members with
  | var v => exact h v
  | array e ih =>
    obtain ⟨firm, inside⟩ := everywhere_array.1 steady
    rw [Subst.rebuild_array, Subst.rebuild_array]
    rcases rebuild_of_firm s s' firm inside with same | ⟨known, plain⟩
    · rw [same]
      exact .same _
    · exact .array (ih inside) (lenient _ _ known plain).1
  | cls c args ih =>
    rw [Subst.rebuild_cls, Subst.rebuild_cls]
    refine .cls ?_
    rw [List.forall₂_map_left_iff, List.forall₂_map_right_iff, List.forall₂_same]
    exact fun x hx => ih x hx ((everywhere_cls.1 steady).2 x hx)
  | wildExtends u ih =>
    obtain ⟨firm, inside⟩ := everywhere_wildExtends.1 steady
    rw [Subst.rebuild_wildExtends, Subst.rebuild_wildExtends]
    rcases rebuild_of_firm s s' firm inside with same | ⟨known, plain⟩
    · rw [same]
      exact .same _
    · exact .wildExtends (ih inside) (lenient _ _ known plain).2.1
  | wildSuper l ih =>
    obtain ⟨firm, inside⟩ := everywhere_wildSuper.1 steady
    rw [Subst.rebuild_wildSuper, Subst.rebuild_wildSuper]
    rcases rebuild_of_firm s s' firm inside with same | ⟨known, plain⟩
    · rw [same]
      exact .same _
    · exact .wildSuper (ih inside) (lenient _ _ known plain).2.2
  -- A steady intersection has no variables, so both substitutions leave it as it is.
  | inter ms _ =>
    have closed : (inter ms).freeVars.isEmpty = true := steady.here
    rw [rebuild_of_closed s s' closed]
    exact .same _
  | _ => exact .same _

end Substitution

end LambdaTyping.Ty
