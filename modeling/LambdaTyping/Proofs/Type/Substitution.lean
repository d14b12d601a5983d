import LambdaTyping.Proofs.Type.NormalForm
import LambdaTyping.Type.Substitution
import Mathlib.Data.Set.Finite.Lattice

/-!
# Substitution in normal types

What a substitution makes of a type depends on its variables only (`rebuild_congr`), is normal if
the types put in are (`Normal.rebuild`), and substitutions compose (`rebuild_rebuild`). On normal
types `Subst.apply` and `Subst.rebuild` are one (`apply_eq_rebuild`), and on these alone
`Subst.apply` depends on the variables only (`normal_iff_apply_congr`). Which variables a
substituted type mentions does not depend on its form (`mentions_apply_iff`).
-/

namespace LambdaTyping.Subst

variable {s u w : Subst} {t : Ty}

/-- Every type that the substitution puts in is normal. -/
def Normal (s : Subst) : Prop :=
  ∀ v x, s.get? v = some x → x.Normal

section Rebuild

/-- The unknown type stays. -/
@[simp] lemma rebuild_unknown (s : Subst) : s.rebuild .unknown = .unknown := rfl

/-- A substitution goes into the elements of an array. -/
@[simp] lemma rebuild_array (s : Subst) (e : Ty) : s.rebuild (.array e) = .array (s.rebuild e) :=
  rfl

/-- A substitution goes into the arguments of a class type. -/
@[simp] lemma rebuild_cls (s : Subst) (c : ClassId) (args : List Ty) :
    s.rebuild (.cls c args) = .cls c (args.map s.rebuild) :=
  congrArg (Ty.cls c) (s.rebuildAll_eq args)

/-- A substitution goes into an upper bound. -/
@[simp] lemma rebuild_wildExtends (s : Subst) (b : Ty) :
    s.rebuild (.wildExtends b) = .wildExtends (s.rebuild b) :=
  rfl

/-- A substitution goes into a lower bound. -/
@[simp] lemma rebuild_wildSuper (s : Subst) (b : Ty) :
    s.rebuild (.wildSuper b) = .wildSuper (s.rebuild b) :=
  rfl

/-- A substitution goes into the members of an intersection, which are intersected anew. -/
@[simp] lemma rebuild_inter (s : Subst) (ms : List Ty) :
    s.rebuild (.inter ms) = .intersection (ms.map s.rebuild) :=
  congrArg Ty.intersection (s.rebuildAll_eq ms)

/-- A variable becomes what it is mapped to, if it is mapped. -/
lemma rebuild_var (s : Subst) (v : TypeVarId) : s.rebuild (.var v) = (s.get? v).getD (.var v) :=
  rfl

/-- A mapped variable becomes its image. -/
lemma rebuild_var_of_some {v : TypeVarId} {x : Ty} (h : s.get? v = some x) :
    s.rebuild (.var v) = x := by
  rw [rebuild_var, h, Option.getD_some]

/-- A variable that is not mapped stays. -/
lemma rebuild_var_of_none {v : TypeVarId} (h : s.get? v = none) : s.rebuild (.var v) = .var v := by
  rw [rebuild_var, h, Option.getD_none]

end Rebuild

/-- A variable becomes a normal type under a normal substitution. -/
lemma Normal.rebuild_var (hs : s.Normal) (v : TypeVarId) : (s.rebuild (.var v)).Normal := by
  cases h : s.get? v with
  | none =>
    rw [rebuild_var_of_none h]
    exact Ty.normal_var v
  | some x =>
    rw [rebuild_var_of_some h]
    exact hs v x h

/-- What a type of a list mentions the list mentions. -/
lemma mentionsAny_of_mem {v : TypeVarId} {a : Ty} {ts : List Ty} (ha : a ∈ ts)
    (hv : a.mentions v = true) : Ty.mentionsAny v ts = true := by
  rw [Ty.mentionsAny_eq, List.any_eq_true]
  exact ⟨a, ha, hv⟩

/-- What is put in for the variables of a type decides what a substitution makes of it. -/
lemma rebuild_congr (h : ∀ v, t.mentions v = true → s.rebuild (.var v) = u.rebuild (.var v)) :
    s.rebuild t = u.rebuild t := by
  induction t using Ty.rec_members with
  | var v => exact h v (decide_eq_true rfl)
  | array e ih => rw [rebuild_array, rebuild_array, ih h]
  | cls c args ih =>
    have each : args.map s.rebuild = args.map u.rebuild :=
      List.map_congr_left fun a ha => ih a ha fun v hv => h v (mentionsAny_of_mem ha hv)
    rw [rebuild_cls, rebuild_cls, each]
  | wildExtends b ih => rw [rebuild_wildExtends, rebuild_wildExtends, ih h]
  | wildSuper b ih => rw [rebuild_wildSuper, rebuild_wildSuper, ih h]
  | inter ms ih =>
    have each : ms.map s.rebuild = ms.map u.rebuild :=
      List.map_congr_left fun m hm => ih m hm fun v hv => h v (mentionsAny_of_mem hm hv)
    rw [rebuild_inter, rebuild_inter, each]
  | _ => rfl

/-- A substitution of normal types makes normal types, even of a type that is not. -/
lemma Normal.rebuild (hs : s.Normal) (t : Ty) : (s.rebuild t).Normal := by
  induction t using Ty.rec_members with
  | var v => exact hs.rebuild_var v
  | array e ih =>
    rw [rebuild_array]
    exact Ty.normal_array.2 ih
  | cls c args ih =>
    rw [rebuild_cls]
    exact Ty.normal_cls.2 (List.forall_mem_map.2 ih)
  | wildExtends b ih =>
    rw [rebuild_wildExtends]
    exact Ty.normal_wildExtends.2 ih
  | wildSuper b ih =>
    rw [rebuild_wildSuper]
    exact Ty.normal_wildSuper.2 ih
  | inter ms ih =>
    rw [rebuild_inter]
    exact Ty.normal_intersection (List.forall_mem_map.2 ih)
  | _ => rfl

/-- Where nothing is mapped, a normal type is rebuilt as it was. -/
lemma rebuild_empty (ht : t.Normal) : empty.rebuild t = t := by
  induction t using Ty.rec_members with
  | var v => exact rebuild_var_of_none (get?_empty v)
  | array e ih => rw [rebuild_array, ih (Ty.normal_array.1 ht)]
  | cls c args ih =>
    have each : args.map empty.rebuild = args.map id :=
      List.map_congr_left fun a ha => ih a ha (Ty.normal_cls.1 ht a ha)
    rw [rebuild_cls, each, List.map_id]
  | wildExtends b ih => rw [rebuild_wildExtends, ih (Ty.normal_wildExtends.1 ht)]
  | wildSuper b ih => rw [rebuild_wildSuper, ih (Ty.normal_wildSuper.1 ht)]
  | inter ms ih =>
    have each : ms.map empty.rebuild = ms.map id :=
      List.map_congr_left fun m hm => ih m hm (ht.of_mem_members hm).2
    rw [rebuild_inter, each, List.map_id]
    exact ht.intersection_members
  | _ => rfl

/-- A normal type whose variables stay is left as it stands. -/
lemma rebuild_eq_self (ht : t.Normal)
    (h : ∀ v, t.mentions v = true → s.rebuild (.var v) = .var v) : s.rebuild t = t := by
  have same : s.rebuild t = empty.rebuild t := by
    refine rebuild_congr fun v hv => ?_
    rw [h v hv, rebuild_var_of_none (get?_empty v)]
  rw [same, rebuild_empty ht]

/-- An empty substitution maps no variable. -/
lemma get?_of_isEmpty (h : s.isEmpty = true) (v : TypeVarId) : s.get? v = none :=
  Std.TreeMap.getElem?_of_isEmpty h

/-- On normal types, to leave the type alone when nothing is mapped makes no difference. -/
lemma apply_eq_rebuild (ht : t.Normal) : s.apply t = s.rebuild t := by
  unfold apply
  split
  · rename_i none
    exact (rebuild_eq_self ht fun v _ => rebuild_var_of_none (get?_of_isEmpty none v)).symm
  · rfl

/-- A normal substitution makes normal types of normal types. -/
lemma Normal.apply (hs : s.Normal) (ht : t.Normal) : (s.apply t).Normal := by
  rw [apply_eq_rebuild ht]
  exact hs.rebuild t

/-- Of two substitutions one after the other, each puts in its own types, the first changed by the
second. -/
lemma Normal.andThen (hs : s.Normal) (hu : u.Normal) : (s.andThen u).Normal := by
  intro v x h
  rw [get?_andThen, Option.or_eq_some_iff] at h
  rcases h with first | ⟨-, second⟩
  · obtain ⟨y, hy, rfl⟩ := Option.map_eq_some_iff.1 first
    exact hu.apply (hs v y hy)
  · exact hu v x second

/-- A normal substitution stays normal if its types are replaced by normal ones. -/
lemma Normal.mapTypes {f : TypeVarId → Ty → Ty} (hs : s.Normal)
    (hf : ∀ v x, x.Normal → (f v x).Normal) : (s.mapTypes f).Normal := by
  intro v x h
  rw [get?_mapTypes] at h
  obtain ⟨y, hy, rfl⟩ := Option.map_eq_some_iff.1 h
  exact hf v y (hs v y hy)

/-- Replacing the types of a substitution maps no other variables. -/
lemma isEmpty_mapTypes (s : Subst) (f : TypeVarId → Ty → Ty) :
    (s.mapTypes f).isEmpty = s.isEmpty := by
  simp [isEmpty, mapTypes]

/-- A substitution applied to a class type is applied to its arguments. -/
lemma apply_cls (s : Subst) (c : ClassId) (args : List Ty) :
    s.apply (.cls c args) = .cls c (args.map s.apply) := by
  have each (f : Ty → Ty) (hf : ∀ t, s.apply t = f t) : args.map s.apply = args.map f :=
    List.map_congr_left fun a _ => hf a
  by_cases none : s.isEmpty = true
  · rw [each id fun t => if_pos none, List.map_id]
    exact if_pos none
  · rw [each s.rebuild fun t => if_neg none, ← rebuild_cls]
    exact if_neg none

section Agreement

/-- The two substitutions agree on the variables that the type mentions: each has one image under
both, or stays under both. -/
def AgreesOn (s u : Subst) (t : Ty) : Prop :=
  ∀ v, t.mentions v = true → s.get? v = u.get? v

/-- Substitutions that agree on the variables of a type rebuild it alike. -/
lemma AgreesOn.rebuild_eq (h : s.AgreesOn u t) : s.rebuild t = u.rebuild t :=
  rebuild_congr fun v hv => by rw [rebuild_var, rebuild_var, h v hv]

/-- Substitutions that agree on the variables of a normal type make the same of it. -/
lemma AgreesOn.apply_eq (ht : t.Normal) (h : s.AgreesOn u t) : s.apply t = u.apply t := by
  rw [apply_eq_rebuild ht, apply_eq_rebuild ht, h.rebuild_eq]

/-- A substitution that maps none of the variables agrees with the one that maps nothing. -/
lemma agreesOn_empty (h : ∀ v, t.mentions v = true → s.get? v = none) : s.AgreesOn empty t :=
  fun v hv => (h v hv).trans (get?_empty v).symm

/-- The empty substitution changes no type. -/
lemma apply_empty (t : Ty) : empty.apply t = t :=
  if_pos rfl

/-- The types that rebuilding leaves as they stand when nothing is mapped are normal. -/
lemma normal_of_rebuild_empty (h : empty.rebuild t = t) : t.Normal := by
  have nothing : empty.Normal := fun v x hx => by simp at hx
  rw [← h]
  exact nothing.rebuild t

/-- A type mentions finitely many variables. -/
lemma finite_mentions (t : Ty) : {v | t.mentions v = true}.Finite := by
  have each {ts : List Ty} (ih : ∀ a ∈ ts, {v | a.mentions v = true}.Finite) :
      {v | Ty.mentionsAny v ts = true}.Finite := by
    refine ((List.finite_toSet ts).biUnion ih).subset fun v hv => ?_
    simpa using hv
  induction t using Ty.rec_members with
  | var v => exact (Set.finite_singleton v).subset fun w hw => (of_decide_eq_true hw).symm
  | array e ih | wildExtends e ih | wildSuper e ih => exact ih
  | cls c ts ih | inter ts ih => exact each ih
  | _ => simp [Ty.mentions]

/-- Some variable does not occur in the type. -/
lemma exists_not_mentions (t : Ty) : ∃ v, t.mentions v = false := by
  have : Infinite TypeVarId := .of_injective TypeVarId.mk fun _ _ => TypeVarId.mk.inj
  obtain ⟨v, hv⟩ := (finite_mentions t).exists_notMem
  exact ⟨v, eq_false_of_ne_true hv⟩

/-- What a substitution makes of a type depends on the variables that the type mentions, and on
nothing else, exactly if the type is normal. Otherwise it also matters whether the substitution maps
anything: the one that maps nothing leaves the type alone, and any other brings it to normal form.
So it is the normal types that stay as they are where none of their variables is mapped, whether
they are left alone or rebuilt. -/
theorem normal_iff_apply_congr (t : Ty) :
    (t.Normal ↔ ∀ s u : Subst, s.AgreesOn u t → s.apply t = u.apply t) ∧
      (t.Normal ↔ ∀ s : Subst, (∀ v, t.mentions v = true → s.get? v = none) →
        s.apply t = t ∧ s.rebuild t = t) := by
  constructor
  · refine ⟨fun ht s u agree => agree.apply_eq ht, fun same => ?_⟩
    obtain ⟨v, hv⟩ := exists_not_mentions t
    -- One variable is mapped, which the type does not mention.
    have agree : (empty.insert v .wild).AgreesOn empty t := by
      refine agreesOn_empty fun w hw => ?_
      rw [get?_insert, get?_empty, if_neg]
      rintro rfl
      exact absurd hw (ne_true_of_eq_false hv)
    have rebuilt : (empty.insert v .wild).apply t = (empty.insert v .wild).rebuild t :=
      if_neg (by simp [isEmpty, insert])
    refine normal_of_rebuild_empty ?_
    rw [← agree.rebuild_eq, ← rebuilt, same _ _ agree, apply_empty]
  · refine ⟨fun ht s unmapped => ?_, fun stays => ?_⟩
    · have agree := agreesOn_empty unmapped
      exact ⟨(agree.apply_eq ht).trans (apply_empty t), agree.rebuild_eq.trans (rebuild_empty ht)⟩
    · exact normal_of_rebuild_empty (stays empty fun v _ => get?_empty v).2

/-- No variable occurs in `null & null`, which is not normal. -/
example :
    empty.apply (.inter [.null, .null]) = .inter [.null, .null] ∧
      (ofList [(⟨0⟩, .wild)]).apply (.inter [.null, .null]) = .null := by
  decide +kernel

end Agreement

section Mentions

/-- A type mentions what its members mention. -/
lemma mentions_iff_members {v : TypeVarId} :
    t.mentions v = true ↔ ∃ m ∈ t.members, m.mentions v = true := by
  cases t with
  | inter ms => rw [Ty.mentions, Ty.mentionsAny_eq, List.any_eq_true, Ty.members]
  | _ => simp [Ty.members]

/-- An intersection mentions what the intersected types mention. -/
lemma mentions_intersection {v : TypeVarId} {ts : List Ty} :
    (Ty.intersection ts).mentions v = true ↔ ∃ a ∈ ts, a.mentions v = true := by
  have opened : (∃ m ∈ (ts.flatMap Ty.members).eraseDups, m.mentions v = true) ↔
      ∃ a ∈ ts, a.mentions v = true := by
    constructor
    · rintro ⟨m, hm, hv⟩
      obtain ⟨a, ha, hm⟩ := Ty.mem_opened.1 hm
      exact ⟨a, ha, mentions_iff_members.2 ⟨m, hm, hv⟩⟩
    · rintro ⟨a, ha, hv⟩
      obtain ⟨m, hm, hv⟩ := mentions_iff_members.1 hv
      exact ⟨m, Ty.mem_opened.2 ⟨a, ha, hm⟩, hv⟩
  rw [← opened]
  unfold Ty.intersection
  split
  · rename_i none
    simp [none, Ty.mentions]
  · rename_i m one
    simp [one]
  · rw [Ty.mentions, Ty.mentionsAny_eq, List.any_eq_true]

/-- The variables of a substituted type are those of the types put in for its variables. -/
theorem mentions_rebuild {v : TypeVarId} :
    (s.rebuild t).mentions v = true ↔
      ∃ w, t.mentions w = true ∧ (s.rebuild (.var w)).mentions v = true := by
  have any {ts : List Ty} (ih : ∀ a ∈ ts, ((s.rebuild a).mentions v = true ↔
      ∃ w, a.mentions w = true ∧ (s.rebuild (.var w)).mentions v = true)) :
      (∃ a ∈ ts.map s.rebuild, a.mentions v = true) ↔
        ∃ w, Ty.mentionsAny w ts = true ∧ (s.rebuild (.var w)).mentions v = true := by
    simp only [Ty.mentionsAny_eq, List.any_eq_true, List.mem_map]
    constructor
    · rintro ⟨_, ⟨a, ha, rfl⟩, hv⟩
      obtain ⟨w, hw, hv⟩ := (ih a ha).1 hv
      exact ⟨w, ⟨a, ha, hw⟩, hv⟩
    · rintro ⟨w, ⟨a, ha, hw⟩, hv⟩
      exact ⟨_, ⟨a, ha, rfl⟩, (ih a ha).2 ⟨w, hw, hv⟩⟩
  induction t using Ty.rec_members with
  | var w => simp [Ty.mentions]
  | array e ih => exact ih
  | wildExtends b ih => exact ih
  | wildSuper b ih => exact ih
  | cls c args ih =>
    rw [rebuild_cls, Ty.mentions, Ty.mentionsAny_eq, List.any_eq_true, any ih]
    rfl
  | inter ms ih =>
    rw [rebuild_inter, mentions_intersection, any ih]
    rfl
  | _ => simp [rebuild, Ty.mentions]

/-- Leaving the type alone when nothing is mapped does not change which variables it mentions. -/
lemma mentions_apply {v : TypeVarId} :
    (s.apply t).mentions v = true ↔ (s.rebuild t).mentions v = true := by
  unfold apply
  split
  · rename_i none
    -- Nothing is mapped, so every variable of the type is its own image.
    have stays (w : TypeVarId) : s.rebuild (.var w) = .var w :=
      rebuild_var_of_none (get?_of_isEmpty none w)
    simp [mentions_rebuild, stays, Ty.mentions]
  · rfl

/-- A variable comes out of the place of another only if it is that one and stays, or if what is put
in mentions it. -/
lemma mentions_rebuild_var {v w : TypeVarId} :
    (s.rebuild (.var w)).mentions v = true ↔
      w = v ∧ s.get? w = none ∨ ∃ x, s.get? w = some x ∧ x.mentions v = true := by
  cases hw : s.get? w with
  | none => simp [rebuild_var_of_none hw, Ty.mentions]
  | some x => simp [rebuild_var_of_some hw]

/-- The variables of a substituted type, in normal form or not, are the variables of the type that
are not mapped, and those of the types that the others are mapped to. An intersection that is
brought to normal form keeps the variables of all that is intersected. -/
theorem mentions_apply_iff (s : Subst) (t : Ty) (v : TypeVarId) :
    ((s.apply t).mentions v = true ↔
      t.mentions v = true ∧ s.get? v = none ∨
        ∃ w x, t.mentions w = true ∧ s.get? w = some x ∧ x.mentions v = true) ∧
      ∀ ts, (Ty.intersection ts).mentions v = true ↔ ∃ a ∈ ts, a.mentions v = true := by
  refine ⟨?_, fun ts => mentions_intersection⟩
  rw [mentions_apply, mentions_rebuild]
  simp only [mentions_rebuild_var]
  constructor
  · rintro ⟨w, hw, ⟨rfl, stays⟩ | ⟨x, hx, hv⟩⟩
    · exact .inl ⟨hw, stays⟩
    · exact .inr ⟨w, x, hw, hx, hv⟩
  · rintro (⟨hv, stays⟩ | ⟨w, x, hw, hx, hv⟩)
    · exact ⟨v, hv, .inl ⟨rfl, stays⟩⟩
    · exact ⟨w, hw, .inr ⟨x, hx, hv⟩⟩

end Mentions

section Composition

/-- The members of a substituted type are those of its substituted members, each once. -/
lemma members_rebuild (hu : u.Normal) (ht : t.Normal) :
    (u.rebuild t).members = ((t.members.map u.rebuild).flatMap Ty.members).eraseDups := by
  have normal : ∀ m ∈ t.members.map u.rebuild, m.Normal :=
    List.forall_mem_map.2 fun m _ => hu.rebuild m
  by_cases flat : t.isIntersection = false
  · rw [Ty.members_of_not_intersection flat, List.map_singleton, List.flatMap_singleton,
      eraseDups_of_nodup (hu.rebuild t).nodup_members]
  · cases t with
    | inter ms =>
      rw [rebuild_inter]
      exact Ty.members_intersection (mt List.map_eq_nil_iff.1 ht.members_ne_nil) normal
    | _ => exact absurd rfl flat

/-- A substitution goes into an intersection of normal types. -/
lemma rebuild_intersection {ts : List Ty} (hu : u.Normal) (h : ∀ t ∈ ts, t.Normal) :
    u.rebuild (.intersection ts) = .intersection (ts.map u.rebuild) := by
  by_cases ne : ts = []
  · rw [ne]
    rfl
  · have normal : ∀ t ∈ ts.map u.rebuild, t.Normal :=
      List.forall_mem_map.2 fun t _ => hu.rebuild t
    -- Both sides are normal, so their members decide.
    refine (hu.rebuild _).eq_of_members (Ty.normal_intersection normal) ?_
    rw [members_rebuild hu (Ty.normal_intersection h), Ty.members_intersection ne h,
      Ty.members_intersection (mt List.map_eq_nil_iff.1 ne) normal, List.flatMap_map,
      eraseDups_flatMap_eraseDups, List.flatMap_assoc, List.flatMap_map]
    refine eraseDups_flatMap_congr fun t ht => ?_
    have opened := members_rebuild hu (h t ht)
    rw [List.flatMap_map] at opened
    rw [← opened, eraseDups_of_nodup (hu.rebuild t).nodup_members]

/-- Two substitutions one after the other are the one that has their common effect on the variables
of the type. -/
lemma rebuild_rebuild (hs : s.Normal) (hu : u.Normal)
    (h : ∀ v, t.mentions v = true → w.rebuild (.var v) = u.rebuild (s.rebuild (.var v))) :
    w.rebuild t = u.rebuild (s.rebuild t) := by
  induction t using Ty.rec_members with
  | var v => exact h v (decide_eq_true rfl)
  | array e ih => rw [rebuild_array, rebuild_array, rebuild_array, ih h]
  | cls c args ih =>
    have each : args.map w.rebuild = (args.map s.rebuild).map u.rebuild := by
      rw [List.map_map]
      exact List.map_congr_left fun a ha => ih a ha fun v hv => h v (mentionsAny_of_mem ha hv)
    rw [rebuild_cls, rebuild_cls, rebuild_cls, each]
  | wildExtends b ih =>
    rw [rebuild_wildExtends, rebuild_wildExtends, rebuild_wildExtends, ih h]
  | wildSuper b ih => rw [rebuild_wildSuper, rebuild_wildSuper, rebuild_wildSuper, ih h]
  | inter ms ih =>
    have each : ms.map w.rebuild = (ms.map s.rebuild).map u.rebuild := by
      rw [List.map_map]
      exact List.map_congr_left fun m hm => ih m hm fun v hv => h v (mentionsAny_of_mem hm hv)
    have normal : ∀ m ∈ ms.map s.rebuild, m.Normal :=
      List.forall_mem_map.2 fun m _ => hs.rebuild m
    rw [rebuild_inter, rebuild_inter, rebuild_intersection hu normal, each]
  | _ => rfl

end Composition

section OfList

/-- The last pair is the last to be inserted. -/
lemma ofList_concat (ps : List (TypeVarId × Ty)) (p : TypeVarId × Ty) :
    ofList (ps ++ [p]) = (ofList ps).insert p.1 p.2 := by
  rw [ofList, List.foldl_append]
  rfl

/-- The substitution of some pairs maps by one of them. -/
lemma mem_of_get?_ofList {ps : List (TypeVarId × Ty)} {v : TypeVarId} {x : Ty}
    (h : (ofList ps).get? v = some x) : (v, x) ∈ ps := by
  induction ps using List.reverseRecOn with
  | nil => simp [ofList] at h
  | append_singleton ps p ih =>
    rw [ofList_concat, get?_insert] at h
    split at h
    · rename_i e
      cases e
      cases h
      exact List.mem_append_right _ (List.mem_singleton_self p)
    · exact List.mem_append_left _ (ih h)

/-- The pairs of a substitution decide whether it is normal. -/
lemma normal_ofList {ps : List (TypeVarId × Ty)} (h : ∀ p ∈ ps, p.2.Normal) : (ofList ps).Normal :=
  fun _ _ hx => h _ (mem_of_get?_ofList hx)

/-- The substitution of some pairs maps every variable they name. -/
lemma get?_ofList_ne_none {ps : List (TypeVarId × Ty)} {v : TypeVarId} (h : v ∈ ps.map Prod.fst) :
    (ofList ps).get? v ≠ none := by
  induction ps using List.reverseRecOn with
  | nil => cases h
  | append_singleton ps p ih =>
    rw [ofList_concat, get?_insert]
    split
    · exact Option.some_ne_none _
    · rename_i ne
      rw [List.map_append, List.mem_append] at h
      rcases h with h | h
      · exact ih h
      · exact absurd (List.mem_singleton.1 h).symm ne

/-- The substitution of some pairs maps no variable that they do not name. -/
lemma get?_ofList_eq_none {ps : List (TypeVarId × Ty)} {v : TypeVarId} (h : v ∉ ps.map Prod.fst) :
    (ofList ps).get? v = none := by
  cases hv : (ofList ps).get? v with
  | none => rfl
  | some x => exact absurd (List.mem_map_of_mem (mem_of_get?_ofList hv)) h

/-- The substitution of no pairs, and no other, maps nothing. -/
lemma isEmpty_ofList (ps : List (TypeVarId × Ty)) : (ofList ps).isEmpty = ps.isEmpty := by
  induction ps using List.reverseRecOn with
  | nil => rfl
  | append_singleton ps p _ =>
    rw [ofList_concat]
    simp [isEmpty, insert]

/-- Of pairs for distinct variables each counts. -/
lemma get?_ofList_of_mem {ps : List (TypeVarId × Ty)} (nodup : (ps.map Prod.fst).Nodup)
    {p : TypeVarId × Ty} (h : p ∈ ps) : (ofList ps).get? p.1 = some p.2 := by
  obtain ⟨x, hx⟩ := Option.ne_none_iff_exists'.1 (get?_ofList_ne_none (List.mem_map_of_mem h))
  have same : p = (p.1, x) := List.inj_on_of_nodup_map nodup h (mem_of_get?_ofList hx) rfl
  rw [hx, same]

/-- Two substitutions of the same variables put in what stands at one place. -/
lemma exists_get?_ofList_pair {qs : List (TypeVarId × Ty × Ty)} {v : TypeVarId}
    (h : v ∈ qs.map Prod.fst) : ∃ q ∈ qs,
      (ofList (qs.map fun q => (q.1, q.2.1))).get? v = some q.2.1 ∧
        (ofList (qs.map fun q => (q.1, q.2.2))).get? v = some q.2.2 := by
  induction qs using List.reverseRecOn with
  | nil => cases h
  | append_singleton qs q ih =>
    rw [List.map_append, List.map_append, List.map_singleton, List.map_singleton, ofList_concat,
      ofList_concat, get?_insert, get?_insert]
    by_cases last : q.1 = v
    · rw [if_pos last, if_pos last]
      exact ⟨q, List.mem_append_right _ (List.mem_singleton_self q), rfl, rfl⟩
    · rw [if_neg last, if_neg last]
      rw [List.map_append, List.mem_append] at h
      rcases h with h | h
      · obtain ⟨p, hp, images⟩ := ih h
        exact ⟨p, List.mem_append_left _ hp, images⟩
      · exact absurd (List.mem_singleton.1 h).symm last

/-- A function on the types of the pairs is a function on the images. -/
lemma get?_ofList_map (f : Ty → Ty) (ps : List (TypeVarId × Ty)) (v : TypeVarId) :
    (ofList (ps.map fun p => (p.1, f p.2))).get? v = ((ofList ps).get? v).map f := by
  induction ps using List.reverseRecOn with
  | nil => simp [ofList]
  | append_singleton ps p ih =>
    rw [List.map_append, List.map_singleton, ofList_concat, ofList_concat, get?_insert, get?_insert,
      ih]
    split
    · rfl
    · rfl

end OfList

end LambdaTyping.Subst
