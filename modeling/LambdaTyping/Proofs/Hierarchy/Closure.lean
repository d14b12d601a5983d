import LambdaTyping.Proofs.Hierarchy.Instantiation

/-!
# The walk up a hierarchy

The walk meets each class once (`nodup_closureFrom`). What class types hand on to those directly
above them holds of all that it meets (`of_mem_closureFrom`), and two walks stay in step while their
steps do (`closureFrom_rel`). So it commutes with substitution: above a substituted class type stand
the substituted class types (`closureFrom_rebuild`).
-/

namespace LambdaTyping

namespace ClassTy

/-- The class type with its type arguments substituted. -/
def rebuild (s : Subst) (c : ClassTy) : ClassTy :=
  ⟨c.head, c.args.map s.rebuild⟩

/-- The type arguments of the class type are in normal form. -/
def Normal (c : ClassTy) : Prop :=
  ∀ a ∈ c.args, a.Normal

/-- The class type of a class within its own declaration. -/
lemma normal_own (c : ClassId) (vs : List TypeVarId) : (⟨c, vs.map .var⟩ : ClassTy).Normal :=
  List.forall_mem_map.2 fun v _ => Ty.normal_var v

/-- The class type of a raw use. -/
lemma normal_raw (c : ClassId) : (⟨c, []⟩ : ClassTy).Normal :=
  List.forall_mem_nil _

/-- A substitution keeps the class of a class type. -/
@[simp] lemma rebuild_head (s : Subst) (c : ClassTy) : (c.rebuild s).head = c.head := rfl

/-- Substituting in a class type is substituting in it as a type. -/
lemma toTy_rebuild (s : Subst) (c : ClassTy) : (c.rebuild s).toTy = s.rebuild c.toTy :=
  (s.rebuild_cls c.head c.args).symm

end ClassTy

/-- A class type taken as a type is read back as itself. -/
lemma Ty.asClass?_toTy (c : ClassTy) : c.toTy.asClass? = some c := rfl

/-- What can be read as a class type is one. -/
lemma Ty.exists_eq_toTy {ty : Ty} (h : ty.asClass?.isSome = true) : ∃ c : ClassTy, ty = c.toTy := by
  cases ty with
  | cls c args => exact ⟨⟨c, args⟩, rfl⟩
  | _ => cases h

/-- A type that is read as a class type is that class type. -/
lemma Ty.eq_toTy_of_asClass? {ty : Ty} {c : ClassTy} (h : ty.asClass? = some c) : ty = c.toTy := by
  cases ty with
  | cls head args =>
    cases h
    rfl
  | _ => cases h

/-- The class type read from a type in normal form is in normal form. -/
lemma Ty.normal_of_asClass? {ty : Ty} {c : ClassTy} (h : ty.Normal) (hc : ty.asClass? = some c) :
    c.Normal := by
  rw [eq_toTy_of_asClass? hc] at h
  exact normal_cls.1 h

namespace ClassTable

variable {t t' : ClassTable} {s : Subst} {seen : List ClassId} {queue queue' : List ClassTy}

section Classes

/-- A walk meets no class that it has seen before. -/
lemma head_notMem_seen {c : ClassTy} (h : c ∈ t.closureFrom seen queue) : c.head ∉ seen := by
  fun_induction closureFrom t seen queue with
  | case1 => cases h
  | case2 seen b queue met ih => exact ih h
  | case3 seen b queue fresh ih =>
    rcases List.mem_cons.1 h with rfl | h
    · exact fresh
    · exact fun met => ih h (List.mem_cons_of_mem _ met)

/-- The walk meets no class twice. -/
lemma nodup_closureFrom (t : ClassTable) (seen : List ClassId) (queue : List ClassTy) :
    ((t.closureFrom seen queue).map ClassTy.head).Nodup := by
  fun_induction closureFrom t seen queue with
  | case1 => exact .nil
  | case2 seen b queue met ih => exact ih
  | case3 seen b queue fresh ih =>
    rw [List.map_cons, List.nodup_cons]
    refine ⟨fun again => ?_, ih⟩
    obtain ⟨c, hc, e⟩ := List.mem_map.1 again
    exact head_notMem_seen hc (e ▸ List.mem_cons_self)

/-- A class type is viewed as the entry of its closure for the class. -/
lemma classView?_of_mem {c e : ClassTy} (h : e ∈ t.classClosure c) :
    t.classView? c e.head = some e := by
  have nodup := t.nodup_closureFrom [] [c]
  unfold classView?
  cases hb : (t.classClosure c).find? fun s => s.head = e.head with
  | none => exact absurd (decide_eq_true rfl) (List.find?_eq_none.1 hb e h)
  | some b =>
    have same : b.head = e.head := by simpa using List.find?_some hb
    rw [List.inj_on_of_nodup_map nodup (List.mem_of_find?_eq_some hb) h same]

end Classes

section Induction

/-- What holds of the queue, and of the parents of what it holds of, holds of what the walk
meets. -/
lemma of_mem_closureFrom {P : ClassTy → Prop} (up : ∀ c, P c → ∀ e ∈ t.parents c, P e)
    (hq : ∀ c ∈ queue, P c) {e : ClassTy} (he : e ∈ t.closureFrom seen queue) : P e := by
  fun_induction closureFrom t seen queue with
  | case1 => cases he
  | case2 seen c queue met ih => exact ih (List.forall_mem_cons.1 hq).2 he
  | case3 seen c queue fresh ih =>
    obtain ⟨hc, hq⟩ := List.forall_mem_cons.1 hq
    rcases List.mem_cons.1 he with rfl | he
    · exact hc
    · exact ih (List.forall_mem_append.2 ⟨hq, up c hc⟩) he

/-- Two walks, each in its own hierarchy, stay in step if their queues are and parents of what is in
step are in step again. -/
lemma closureFrom_rel {R : ClassTy → ClassTy → Prop} (head : ∀ c c', R c c' → c'.head = c.head)
    (up : ∀ c c', R c c' → List.Forall₂ R (t.parents c) (t'.parents c'))
    (hq : List.Forall₂ R queue queue') :
    List.Forall₂ R (t.closureFrom seen queue) (t'.closureFrom seen queue') := by
  fun_induction closureFrom t seen queue generalizing queue' with
  | case1 =>
    cases hq
    rw [closureFrom]
    exact .nil
  | case2 seen c queue met ih =>
    cases hq with
    | cons hc tail =>
      rw [closureFrom, if_pos (head _ _ hc ▸ met)]
      exact ih tail
  | case3 seen c queue fresh ih =>
    cases hq with
    | cons hc tail =>
      rw [closureFrom, head _ _ hc, if_neg fresh]
      exact .cons hc (ih (List.rel_append tail (up _ _ hc)))

/-- A map of class types that commutes with one step up commutes with the walk. -/
lemma closureFrom_map {P : ClassTy → Prop} {f : ClassTy → ClassTy}
    (head : ∀ c, (f c).head = c.head) (up : ∀ c, P c → ∀ e ∈ t.parents c, P e)
    (parents : ∀ c, P c → t'.parents (f c) = (t.parents c).map f) (hq : ∀ c ∈ queue, P c) :
    t'.closureFrom seen (queue.map f) = (t.closureFrom seen queue).map f := by
  have inStep {cs : List ClassTy} (h : ∀ c ∈ cs, P c) :
      List.Forall₂ (fun c c' => P c ∧ c' = f c) cs (cs.map f) :=
    List.forall₂_map_right_iff.2 (List.forall₂_same.2 fun c hc => ⟨h c hc, rfl⟩)
  have walk : List.Forall₂ (fun c c' => P c ∧ c' = f c) (t.closureFrom seen queue)
      (t'.closureFrom seen (queue.map f)) := by
    refine closureFrom_rel ?_ ?_ (inStep hq)
    · rintro c _ ⟨-, rfl⟩
      exact head c
    · rintro c _ ⟨hc, rfl⟩
      rw [parents c hc]
      exact inStep (up c hc)
  have same := List.forall₂_map_left_iff.2 (walk.imp fun c c' h => h.2.symm)
  rw [List.forall₂_eq_eq_eq] at same
  exact same.symm

/-- A walk in two hierarchies that agree on what it meets. -/
lemma closureFrom_congr {P : ClassTy → Prop} (up : ∀ c, P c → ∀ e ∈ t.parents c, P e)
    (parents : ∀ c, P c → t'.parents c = t.parents c) (hq : ∀ c ∈ queue, P c) :
    t'.closureFrom seen queue = t.closureFrom seen queue := by
  have same : t'.closureFrom seen (queue.map id) = (t.closureFrom seen queue).map id :=
    closureFrom_map (fun _ => rfl) up (fun c hc => by rw [List.map_id, id, parents c hc]) hq
  rwa [List.map_id, List.map_id] at same

end Induction

section Normal

variable (normal : ∀ d ∈ t.classes, ∀ s ∈ d.supertypes, s.Normal)

include normal

/-- A declaration in normal form hands on normal arguments in normal form. -/
lemma normal_of_mem_declaredParents {d : ClassDecl} {args : List Ty} {e : ClassTy}
    (hd : d ∈ t.classes) (hargs : ∀ a ∈ args, a.Normal) (he : e ∈ t.declaredParents d args) :
    e.Normal := by
  unfold declaredParents at he
  split at he
  · obtain ⟨ty, _, he⟩ := List.mem_filterMap.1 he
    obtain ⟨b, _, rfl⟩ := Option.map_eq_some_iff.1 he
    exact ClassTy.normal_raw b.head
  · obtain ⟨ty, hty, he⟩ := List.mem_filterMap.1 he
    have seen := (normal_instantiate (t := t) (d := d) hargs).apply (normal d hd ty hty)
    exact Ty.normal_of_asClass? seen he

/-- The parents of a class type in normal form are in normal form. -/
lemma normal_of_mem_parents {c e : ClassTy} (hc : c.Normal) (he : e ∈ t.parents c) : e.Normal := by
  unfold parents at he
  split at he
  · cases he
  · rename_i d hd
    rcases List.mem_append.1 he with he | he
    · exact normal_of_mem_declaredParents normal (mem_classes_of_class? hd) hc he
    · split at he
      · obtain rfl := List.mem_singleton.1 he
        exact ClassTy.normal_raw _
      · cases he

/-- The walk up from normal class types meets normal class types. -/
lemma normal_of_mem_closureFrom {e : ClassTy} (hq : ∀ c ∈ queue, c.Normal)
    (he : e ∈ t.closureFrom seen queue) : e.Normal :=
  of_mem_closureFrom (fun _ hc _ => normal_of_mem_parents normal hc) hq he

/-- The closure of a class type in normal form is in normal form. -/
lemma normal_of_mem_classClosure {c e : ClassTy} (hc : c.Normal) (he : e ∈ t.classClosure c) :
    e.Normal :=
  normal_of_mem_closureFrom normal (List.forall_mem_singleton.2 hc) he

end Normal

section Substitution

variable (isClass : ∀ d ∈ t.classes, ∀ s ∈ d.supertypes, s.asClass?.isSome = true)
  (normal : ∀ d ∈ t.classes, ∀ s ∈ d.supertypes, s.Normal)

include isClass normal

/-- The parents at some type arguments are those at others, substituted, if the declared supertypes
are. -/
lemma declaredParents_map {d : ClassDecl} {args args' : List Ty} (hd : d ∈ t.classes)
    (raw : d.isRawUse args' = d.isRawUse args)
    (h : ∀ ty ∈ d.supertypes, (t.instantiate d args').rebuild ty =
      s.rebuild ((t.instantiate d args).rebuild ty)) :
    t.declaredParents d args' = (t.declaredParents d args).map (ClassTy.rebuild s) := by
  unfold declaredParents
  rw [raw]
  split
  · rw [List.map_filterMap]
    refine List.filterMap_congr fun ty _ => ?_
    rw [Option.map_map]
    rfl
  · rw [List.map_filterMap]
    refine List.filterMap_congr fun ty hty => ?_
    obtain ⟨c, rfl⟩ := Ty.exists_eq_toTy (isClass d hd ty hty)
    have hn := normal d hd _ hty
    rw [Subst.apply_eq_rebuild hn, Subst.apply_eq_rebuild hn, h _ hty, ← ClassTy.toTy_rebuild,
      ← ClassTy.toTy_rebuild, Ty.asClass?_toTy, Ty.asClass?_toTy, Option.map_some]

/-- The parents follow the substitution `s` where the instantiations of both class types do. -/
lemma parents_map {c c' : ClassTy} (head : c'.head = c.head)
    (h : ∀ d, t.class? c.head = some d → d.isRawUse c'.args = d.isRawUse c.args ∧
      ∀ ty ∈ d.supertypes, (t.instantiate d c'.args).rebuild ty =
        s.rebuild ((t.instantiate d c.args).rebuild ty)) :
    t.parents c' = (t.parents c).map (ClassTy.rebuild s) := by
  unfold parents
  rw [head]
  split
  · rfl
  · rename_i d hd
    obtain ⟨raw, same⟩ := h d hd
    rw [List.map_append, declaredParents_map isClass normal (mem_classes_of_class? hd) raw same]
    congr 1
    split
    · rfl
    · rfl

variable (inScope : ∀ d ∈ t.classes, ∀ s ∈ d.supertypes, s.ScopedIn d.typeParams)

include inScope

/-- The parents of a substituted class type are its substituted parents. -/
lemma parents_rebuild (hs : s.Normal) {c : ClassTy} (hc : c.Normal) :
    t.parents (c.rebuild s) = (t.parents c).map (ClassTy.rebuild s) := by
  refine parents_map isClass normal rfl fun d hd => ⟨isRawUse_map _, fun ty hty => ?_⟩
  exact rebuild_instantiate hs hc (inScope d (mem_classes_of_class? hd) ty hty)

/-- The parents of a class at some type arguments are those within its own declaration, at these
arguments. -/
lemma parents_of_self {c : ClassId} {d : ClassDecl} {args : List Ty} (hd : t.class? c = some d)
    (length : args.length = d.typeParams.length) :
    t.parents ⟨c, args⟩ =
      (t.parents ⟨c, d.typeParams.map .var⟩).map (ClassTy.rebuild (t.instantiate d args)) := by
  refine parents_map isClass normal rfl fun d' hd' => ?_
  obtain rfl : d = d' := Option.some_inj.1 (hd.symm.trans hd')
  refine ⟨?_, fun ty hty => ?_⟩
  · rw [isRawUse_of_length length, isRawUse_of_length (List.length_map _)]
  · have mem := mem_classes_of_class? hd
    rw [rebuild_instantiate_self (normal d mem ty hty) (inScope d mem ty hty)]

/-- The walk up from substituted class types is the walk up from the class types, substituted. -/
theorem closureFrom_rebuild (hs : s.Normal) (hq : ∀ c ∈ queue, c.Normal) :
    t.closureFrom seen (queue.map (ClassTy.rebuild s)) =
      (t.closureFrom seen queue).map (ClassTy.rebuild s) :=
  closureFrom_map (ClassTy.rebuild_head s) (fun _ hc _ => normal_of_mem_parents normal hc)
    (fun _ => parents_rebuild isClass normal inScope hs) hq

end Substitution

end ClassTable

end LambdaTyping
