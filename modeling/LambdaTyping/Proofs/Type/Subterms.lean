import LambdaTyping.Proofs.Type.Substitution

/-!
# What occurs in a type

`Ty.Everywhere` says that something holds of a type and of all types it is built of. A type is
proper if wildcards stand in it as type arguments only. Substitution keeps it proper as long as no
wildcard is put in (`Proper.rebuild`).
-/

namespace LambdaTyping.Ty

/-- Whether the type is a wildcard. -/
def isWildcard : Ty → Bool
  | .wild | .wildExtends _ | .wildSuper _ => true
  | _ => false

mutual

/-- The types that occur in the type, at any depth, itself included. -/
def subterms : Ty → List Ty
  | .array e => .array e :: e.subterms
  | .cls c args => .cls c args :: subtermsOf args
  | .wildExtends b => .wildExtends b :: b.subterms
  | .wildSuper b => .wildSuper b :: b.subterms
  | .inter ms => .inter ms :: subtermsOf ms
  | t => [t]

/-- The types that occur in the types of a list. -/
def subtermsOf : List Ty → List Ty
  | [] => []
  | t :: ts => t.subterms ++ subtermsOf ts

end

/-- What occurs in a list of types occurs in one of them. -/
lemma mem_subtermsOf {s : Ty} {ts : List Ty} : s ∈ subtermsOf ts ↔ ∃ t ∈ ts, s ∈ t.subterms := by
  induction ts with
  | nil => simp [subtermsOf]
  | cons t ts ih => simp [subtermsOf, ih]

/-- A type occurs in itself. -/
lemma mem_subterms_self (t : Ty) : t ∈ t.subterms := by
  cases t with
  | array | cls | wildExtends | wildSuper | inter => exact List.mem_cons_self
  | _ => exact List.mem_singleton_self _

/-- The elements of an array occur in it. -/
lemma mem_subterms_array {e : Ty} : e ∈ (array e).subterms :=
  List.mem_cons_of_mem _ e.mem_subterms_self

/-- The upper bound of a wildcard occurs in it. -/
lemma mem_subterms_wildExtends {b : Ty} : b ∈ (wildExtends b).subterms :=
  List.mem_cons_of_mem _ b.mem_subterms_self

/-- The lower bound of a wildcard occurs in it. -/
lemma mem_subterms_wildSuper {b : Ty} : b ∈ (wildSuper b).subterms :=
  List.mem_cons_of_mem _ b.mem_subterms_self

/-- The arguments of a class type occur in it. -/
lemma mem_subterms_cls {c : ClassId} {args : List Ty} {a : Ty} (ha : a ∈ args) :
    a ∈ (cls c args).subterms :=
  List.mem_cons_of_mem _ (mem_subtermsOf.2 ⟨a, ha, a.mem_subterms_self⟩)

/-- The members of an intersection occur in it. -/
lemma mem_subterms_inter {ms : List Ty} {m : Ty} (hm : m ∈ ms) : m ∈ (inter ms).subterms :=
  List.mem_cons_of_mem _ (mem_subtermsOf.2 ⟨m, hm, m.mem_subterms_self⟩)

/-- What occurs in something that occurs in a type occurs in the type. -/
lemma mem_subterms_trans {x y z : Ty} (hy : y ∈ x.subterms) (hz : z ∈ y.subterms) :
    z ∈ x.subterms := by
  induction x using rec_members with
  | array e ih | wildExtends e ih | wildSuper e ih =>
    rcases List.mem_cons.1 hy with rfl | hy
    · exact hz
    · exact List.mem_cons_of_mem _ (ih hy)
  | cls c xs ih | inter xs ih =>
    rcases List.mem_cons.1 hy with rfl | hy
    · exact hz
    · obtain ⟨x, hx, hy⟩ := mem_subtermsOf.1 hy
      exact List.mem_cons_of_mem _ (mem_subtermsOf.2 ⟨x, hx, ih x hx hy⟩)
  | _ =>
    obtain rfl := List.mem_singleton.1 hy
    exact hz

/-- The property holds of all types that occur in the type. -/
def Everywhere (P : Ty → Prop) (t : Ty) : Prop :=
  ∀ s ∈ t.subterms, P s

instance (P : Ty → Prop) [DecidablePred P] (t : Ty) : Decidable (t.Everywhere P) :=
  inferInstanceAs (Decidable (∀ s ∈ t.subterms, P s))

section Everywhere

variable {P Q : Ty → Prop} {t : Ty}

/-- A property that holds everywhere in a type holds of the type. -/
lemma Everywhere.here (h : t.Everywhere P) : P t :=
  h t (mem_subterms_self t)

/-- A property of a type that is built of no others holds everywhere in it. -/
lemma everywhere_of_atom (h : t.subterms = [t]) (here : P t) : t.Everywhere P := by
  intro s hs
  rw [h, List.mem_singleton] at hs
  rwa [hs]

/-- A property holds everywhere in an array if it holds of the array and everywhere in its
elements. -/
@[simp] lemma everywhere_array {e : Ty} :
    (array e).Everywhere P ↔ P (array e) ∧ e.Everywhere P :=
  List.forall_mem_cons

/-- A property holds everywhere in a wildcard if it holds of the wildcard and everywhere in its
upper bound. -/
@[simp] lemma everywhere_wildExtends {b : Ty} :
    (wildExtends b).Everywhere P ↔ P (wildExtends b) ∧ b.Everywhere P :=
  List.forall_mem_cons

/-- A property holds everywhere in a wildcard if it holds of the wildcard and everywhere in its
lower bound. -/
@[simp] lemma everywhere_wildSuper {b : Ty} :
    (wildSuper b).Everywhere P ↔ P (wildSuper b) ∧ b.Everywhere P :=
  List.forall_mem_cons

/-- A property holds of what occurs in some types if it holds everywhere in each of them. -/
lemma forall_mem_subtermsOf {ts : List Ty} :
    (∀ s ∈ subtermsOf ts, P s) ↔ ∀ t ∈ ts, t.Everywhere P := by
  simp only [mem_subtermsOf, Everywhere]
  grind

/-- A property holds everywhere in a class type if it holds of the class type and everywhere in its
arguments. -/
@[simp] lemma everywhere_cls {c : ClassId} {args : List Ty} :
    (cls c args).Everywhere P ↔ P (cls c args) ∧ ∀ a ∈ args, a.Everywhere P := by
  rw [← forall_mem_subtermsOf]
  exact List.forall_mem_cons

/-- A property holds everywhere in an intersection if it holds of the intersection and everywhere in
its members. -/
@[simp] lemma everywhere_inter {ms : List Ty} :
    (inter ms).Everywhere P ↔ P (inter ms) ∧ ∀ m ∈ ms, m.Everywhere P := by
  rw [← forall_mem_subtermsOf]
  exact List.forall_mem_cons

end Everywhere

/-- Whether a wildcard stands directly in the type otherwise than as a type argument. -/
def misplacesWildcard : Ty → Bool
  | .array e => e.isWildcard
  | .wildExtends b => b.isWildcard
  | .wildSuper b => b.isWildcard
  | .inter ms => ms.any isWildcard
  | _ => false

/-- Below the top of the type wildcards stand as type arguments of classes only, and no wildcard
has a wildcard as its bound. -/
def Proper (t : Ty) : Prop :=
  t.Everywhere fun s => s.misplacesWildcard = false

instance (t : Ty) : Decidable t.Proper :=
  inferInstanceAs (Decidable (t.Everywhere _))

/-- The type is proper and not itself a wildcard. -/
structure ProperType (t : Ty) : Prop where
  proper : t.Proper
  notWildcard : t.isWildcard = false

instance (t : Ty) : Decidable t.ProperType :=
  decidable_of_iff (t.Proper ∧ t.isWildcard = false)
    ⟨fun ⟨proper, notWildcard⟩ => ⟨proper, notWildcard⟩,
      fun ⟨proper, notWildcard⟩ => ⟨proper, notWildcard⟩⟩

section Proper

/-- An array is proper if its elements are and are no wildcard. -/
@[simp] lemma proper_array {e : Ty} : (array e).Proper ↔ e.ProperType := by
  simp only [Proper, everywhere_array, misplacesWildcard]
  exact ⟨fun ⟨plain, proper⟩ => ⟨proper, plain⟩, fun ⟨proper, plain⟩ => ⟨plain, proper⟩⟩

/-- A wildcard is proper if its upper bound is and is no wildcard. -/
@[simp] lemma proper_wildExtends {b : Ty} : (wildExtends b).Proper ↔ b.ProperType := by
  simp only [Proper, everywhere_wildExtends, misplacesWildcard]
  exact ⟨fun ⟨plain, proper⟩ => ⟨proper, plain⟩, fun ⟨proper, plain⟩ => ⟨plain, proper⟩⟩

/-- A wildcard is proper if its lower bound is and is no wildcard. -/
@[simp] lemma proper_wildSuper {b : Ty} : (wildSuper b).Proper ↔ b.ProperType := by
  simp only [Proper, everywhere_wildSuper, misplacesWildcard]
  exact ⟨fun ⟨plain, proper⟩ => ⟨proper, plain⟩, fun ⟨proper, plain⟩ => ⟨plain, proper⟩⟩

/-- A class type is proper if its arguments are, wildcards included. -/
@[simp] lemma proper_cls {c : ClassId} {args : List Ty} :
    (cls c args).Proper ↔ ∀ a ∈ args, a.Proper := by
  simp only [Proper, everywhere_cls, misplacesWildcard, true_and]

/-- An intersection is proper if its members are and none is a wildcard. -/
@[simp] lemma proper_inter {ms : List Ty} : (inter ms).Proper ↔ ∀ m ∈ ms, m.ProperType := by
  simp only [Proper, everywhere_inter, misplacesWildcard, List.any_eq_false,
    Bool.not_eq_true]
  exact ⟨fun ⟨plain, proper⟩ m hm => ⟨proper m hm, plain m hm⟩,
    fun h => ⟨fun m hm => (h m hm).notWildcard, fun m hm => (h m hm).proper⟩⟩

/-- A type that is built of no others is proper. -/
lemma proper_of_atom {t : Ty} (h : t.subterms = [t]) (plain : t.misplacesWildcard = false) :
    t.Proper :=
  everywhere_of_atom h plain

/-- The unknown type is proper and no wildcard. -/
@[simp] lemma properType_unknown : ProperType .unknown := ⟨by decide, rfl⟩

/-- Being proper and no wildcard is shared by an intersection and its members. -/
lemma properType_inter {ms : List Ty} : (inter ms).ProperType ↔ ∀ m ∈ ms, m.ProperType :=
  ⟨fun h => proper_inter.1 h.proper, fun each => ⟨proper_inter.2 each, rfl⟩⟩

/-- The intersection of proper types is proper. -/
lemma properType_intersection {ts : List Ty} (h : ∀ t ∈ ts, t.ProperType) :
    (intersection ts).ProperType :=
  intersection_of_forall properType_unknown (fun _ => properType_inter) h

/-- A type keeps its wildcards where they are if no wildcard is put in for its variables. -/
lemma Proper.rebuild {t : Ty} {s : Subst} (ht : t.Proper)
    (h : ∀ v, t.mentions v = true → (s.rebuild (.var v)).ProperType) :
    (s.rebuild t).Proper ∧ (t.isWildcard = false → (s.rebuild t).isWildcard = false) := by
  have inside {e : Ty} (he : e.ProperType)
      (ih : e.Proper → (s.rebuild e).Proper ∧
        (e.isWildcard = false → (s.rebuild e).isWildcard = false)) : (s.rebuild e).ProperType :=
    ⟨(ih he.proper).1, (ih he.proper).2 he.notWildcard⟩
  -- A wildcard is put in for no variable, so none comes to stand where the type has none.
  induction t using rec_members with
  | var v =>
    have image := h v (decide_eq_true rfl)
    exact ⟨image.proper, fun _ => image.notWildcard⟩
  | array e ih =>
    rw [Subst.rebuild_array]
    exact ⟨proper_array.2 (inside (proper_array.1 ht) fun he => ih he h), fun _ => rfl⟩
  | wildExtends b ih =>
    rw [Subst.rebuild_wildExtends]
    exact ⟨proper_wildExtends.2 (inside (proper_wildExtends.1 ht) fun he => ih he h), nofun⟩
  | wildSuper b ih =>
    rw [Subst.rebuild_wildSuper]
    exact ⟨proper_wildSuper.2 (inside (proper_wildSuper.1 ht) fun he => ih he h), nofun⟩
  | cls c args ih =>
    rw [Subst.rebuild_cls]
    refine ⟨proper_cls.2 (List.forall_mem_map.2 fun a ha => ?_), fun _ => rfl⟩
    exact (ih a ha (proper_cls.1 ht a ha) fun v hv => h v (Subst.mentionsAny_of_mem ha hv)).1
  | inter ms ih =>
    rw [Subst.rebuild_inter]
    have each : ∀ m ∈ ms.map s.rebuild, m.ProperType := by
      refine List.forall_mem_map.2 fun m hm => inside (proper_inter.1 ht m hm) fun he => ?_
      exact ih m hm he fun v hv => h v (Subst.mentionsAny_of_mem hm hv)
    have whole := properType_intersection each
    exact ⟨whole.proper, fun _ => whole.notWildcard⟩
  | _ => exact ⟨ht, id⟩

end Proper

end LambdaTyping.Ty
