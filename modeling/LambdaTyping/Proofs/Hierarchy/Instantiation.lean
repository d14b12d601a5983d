import LambdaTyping.Hierarchy.Instantiation
import LambdaTyping.Proofs.Table.Scoping
import LambdaTyping.Proofs.Type.Erasure

/-!
# Instantiations under substitution

To see a declared type at some type arguments and substitute then is to see it at the substituted
arguments (`rebuild_instantiate`). It holds for raw uses and for uses with too few arguments as
well: erasures and unknown types stay as they are. In a raw use a declared type keeps its erasure
(`erasure_instantiate_raw`).
-/

namespace LambdaTyping.ClassTable

variable {t : ClassTable} {d : ClassDecl} {args : List Ty} {s : Subst}

/-- A use is raw for its number of arguments, so changing each argument does not make it raw. -/
lemma isRawUse_map (f : Ty → Ty) : d.isRawUse (args.map f) = d.isRawUse args := by
  simp [ClassDecl.isRawUse]

/-- A type parameter stands for its erasure, for an unknown type or for one of the arguments. -/
lemma get?_instantiate_cases {v : TypeVarId} {x : Ty} (h : (t.instantiate d args).get? v = some x) :
    x = t.erasure (.var v) ∨ x = .unknown ∨ x ∈ args := by
  unfold instantiate at h
  split at h
  · obtain ⟨w, _, e⟩ := List.mem_map.1 (Subst.mem_of_get?_ofList h)
    cases e
    exact .inl rfl
  · have hx := (List.of_mem_zip (Subst.mem_of_get?_ofList h)).2
    rcases List.mem_append.1 hx with hx | hx
    · exact .inr (.inr hx)
    · exact .inr (.inl (List.eq_of_mem_replicate hx))

/-- An instantiation replaces type parameters of the class only. -/
lemma mem_typeParams_of_get?_instantiate {v : TypeVarId} {x : Ty}
    (h : (t.instantiate d args).get? v = some x) : v ∈ d.typeParams := by
  unfold instantiate at h
  split at h
  · obtain ⟨w, hw, e⟩ := List.mem_map.1 (Subst.mem_of_get?_ofList h)
    cases e
    exact hw
  · exact (List.of_mem_zip (Subst.mem_of_get?_ofList h)).1

/-- An instantiation with types in normal form is in normal form. -/
lemma normal_instantiate (h : ∀ a ∈ args, a.Normal) : (t.instantiate d args).Normal := by
  intro v x hx
  rcases get?_instantiate_cases hx with rfl | rfl | hx
  · exact t.normal_erasure _
  · exact Ty.normal_unknown
  · exact h x hx

/-- An instantiation replaces each type parameter of the class. -/
lemma exists_get?_instantiate (t : ClassTable) (args : List Ty) {v : TypeVarId}
    (hv : v ∈ d.typeParams) : ∃ x, (t.instantiate d args).get? v = some x := by
  refine Option.ne_none_iff_exists'.1 ?_
  unfold instantiate
  split
  · refine Subst.get?_ofList_ne_none ?_
    rwa [List.map_map, Function.comp_def, List.map_id']
  · refine Subst.get?_ofList_ne_none ?_
    rwa [List.map_fst_zip]
    simp

/-- In a raw use each type parameter is replaced by its erasure. -/
lemma get?_instantiate_raw (t : ClassTable) {v : TypeVarId} (hv : v ∈ d.typeParams) :
    (t.instantiate d []).get? v = some (t.erasure (.var v)) := by
  have raw : d.isRawUse [] = true := by
    simpa [ClassDecl.isRawUse] using List.ne_nil_of_mem hv
  obtain ⟨x, hx⟩ := t.exists_get?_instantiate [] hv
  rw [hx]
  rw [instantiate, if_pos raw] at hx
  obtain ⟨w, -, e⟩ := List.mem_map.1 (Subst.mem_of_get?_ofList hx)
  cases e
  rfl

/-- A raw use puts in erasures, so a declared type keeps its erasure in it. -/
lemma erasure_instantiate_raw (t : ClassTable) (d : ClassDecl) {ty : Ty} (normal : ty.Normal) :
    t.erasure ((t.instantiate d []).apply ty) = t.erasure ty := by
  rw [Subst.apply_eq_rebuild normal]
  refine erasure_rebuild (normal_instantiate nofun) (fun v => ?_) normal
  cases hv : (t.instantiate d []).get? v with
  | none => rw [Subst.rebuild_var_of_none hv]
  | some x =>
    have raw := t.get?_instantiate_raw (mem_typeParams_of_get?_instantiate hv)
    rw [Subst.rebuild_var_of_some raw, erasure_erasure]

/-- A declared type, seen at some type arguments, mentions what these mention. -/
lemma exists_mentions_of_instantiate {ty : Ty} {v : TypeVarId} (inScope : ty.ScopedIn d.typeParams)
    (hv : ((t.instantiate d args).rebuild ty).mentions v = true) :
    ∃ a ∈ args, a.mentions v = true := by
  obtain ⟨w, hw, hv⟩ := Subst.mentions_rebuild.1 hv
  obtain ⟨x, hx⟩ := t.exists_get?_instantiate args (inScope w hw)
  rw [Subst.rebuild_var_of_some hx] at hv
  rcases get?_instantiate_cases hx with rfl | rfl | mem
  · rw [mentions_erasure] at hv
    cases hv
  · cases hv
  · exact ⟨x, mem, hv⟩

/-- Instantiating with substituted arguments substitutes in what each type parameter is replaced
by. -/
lemma get?_instantiate_map (s : Subst) (v : TypeVarId) :
    (t.instantiate d (args.map s.rebuild)).get? v =
      ((t.instantiate d args).get? v).map s.rebuild := by
  unfold instantiate
  rw [isRawUse_map]
  split
  · rw [← Subst.get?_ofList_map, List.map_map]
    congr 3
    funext v
    rw [Function.comp_apply, rebuild_erasure]
  · -- The padding is made of unknown types, which no substitution changes.
    have pad : List.replicate d.typeParams.length Ty.unknown =
        (List.replicate d.typeParams.length Ty.unknown).map s.rebuild := by
      rw [List.map_replicate, Subst.rebuild_unknown]
    rw [← Subst.get?_ofList_map, pad, ← List.map_append, List.zip_map_right, ← pad]
    rfl

/-- A declared type seen at some type arguments and then substituted is the declared type seen at
the substituted arguments. -/
theorem rebuild_instantiate {ty : Ty} (hs : s.Normal) (hargs : ∀ a ∈ args, a.Normal)
    (inScope : ty.ScopedIn d.typeParams) :
    (t.instantiate d (args.map s.rebuild)).rebuild ty =
      s.rebuild ((t.instantiate d args).rebuild ty) := by
  refine Subst.rebuild_rebuild (normal_instantiate hargs) hs fun v hv => ?_
  obtain ⟨x, hx⟩ := t.exists_get?_instantiate args (inScope v hv)
  have hx' : (t.instantiate d (args.map s.rebuild)).get? v = some (s.rebuild x) := by
    rw [get?_instantiate_map, hx, Option.map_some]
  rw [Subst.rebuild_var_of_some hx, Subst.rebuild_var_of_some hx']

/-- A use with as many arguments as type parameters is not raw. -/
lemma isRawUse_of_length (h : args.length = d.typeParams.length) : d.isRawUse args = false := by
  cases args with
  | nil => simp [ClassDecl.isRawUse, List.length_eq_zero_iff.1 h.symm]
  | cons a args => rfl

/-- With an argument for each type parameter nothing is erased and nothing unknown. -/
lemma instantiate_of_length (h : args.length = d.typeParams.length) :
    t.instantiate d args = .ofList (d.typeParams.zip args) := by
  have zip := @List.zip_append _ _ d.typeParams [] args
    (List.replicate d.typeParams.length Ty.unknown) h.symm
  rw [List.append_nil, List.zip_nil_left, List.append_nil] at zip
  rw [instantiate, isRawUse_of_length h, if_neg Bool.false_ne_true, zip]

/-- In the place of each type parameter comes an argument. -/
lemma rebuild_instantiate_mem (length : args.length = d.typeParams.length) {v : TypeVarId}
    (hv : v ∈ d.typeParams) :
    (v, (t.instantiate d args).rebuild (.var v)) ∈ d.typeParams.zip args := by
  obtain ⟨x, hx⟩ := t.exists_get?_instantiate args hv
  rw [Subst.rebuild_var_of_some hx]
  rw [instantiate_of_length length] at hx
  exact Subst.mem_of_get?_ofList hx

/-- Two instantiations of a class put in arguments that stand at one place. -/
lemma rebuild_instantiate_mem_zip {bs : List Ty} (ha : args.length = d.typeParams.length)
    (hb : bs.length = d.typeParams.length) {v : TypeVarId} (hv : v ∈ d.typeParams) :
    ((t.instantiate d args).rebuild (.var v), (t.instantiate d bs).rebuild (.var v)) ∈
      args.zip bs := by
  have mem : v ∈ (d.typeParams.zip (args.zip bs)).map Prod.fst := by
    rwa [List.map_fst_zip (by simp [ha, hb])]
  obtain ⟨q, hq, first, second⟩ := Subst.exists_get?_ofList_pair mem
  have left : (d.typeParams.zip (args.zip bs)).map (fun q => (q.1, q.2.1)) =
      d.typeParams.zip args :=
    List.zip_map_right.symm.trans (congrArg _ (List.map_fst_zip (by simp [ha, hb])))
  have right : (d.typeParams.zip (args.zip bs)).map (fun q => (q.1, q.2.2)) =
      d.typeParams.zip bs :=
    List.zip_map_right.symm.trans (congrArg _ (List.map_snd_zip (by simp [ha, hb])))
  rw [left, ← instantiate_of_length (t := t) ha] at first
  rw [right, ← instantiate_of_length (t := t) hb] at second
  rw [Subst.rebuild_var_of_some first, Subst.rebuild_var_of_some second]
  exact (List.of_mem_zip hq).2

/-- Within its own declaration a class leaves its type parameters as they are. -/
lemma rebuild_instantiate_self {ty : Ty} (normal : ty.Normal) (inScope : ty.ScopedIn d.typeParams) :
    (t.instantiate d (d.typeParams.map .var)).rebuild ty = ty := by
  refine Subst.rebuild_eq_self normal fun v hv => ?_
  obtain ⟨x, hx⟩ := t.exists_get?_instantiate (d.typeParams.map .var) (inScope v hv)
  rw [Subst.rebuild_var_of_some hx]
  rw [instantiate_of_length (List.length_map _), ← List.map_prod_left_eq_zip] at hx
  obtain ⟨w, _, e⟩ := List.mem_map.1 (Subst.mem_of_get?_ofList hx)
  cases e
  rfl

end LambdaTyping.ClassTable
