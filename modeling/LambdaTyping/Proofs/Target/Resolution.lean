import LambdaTyping.Proofs.Method.Candidates
import LambdaTyping.Proofs.Type.Subterms
import LambdaTyping.Target.Resolution

/-!
# What a resolved target is

The method that a type is resolved to is the one candidate of a class the type names, seen through
the type arguments (`exists_implements_of_resolve`), and some class above declares it
(`exists_declaration`). The candidates come from a cache, so the answers it keeps have to be the
table's.
-/

namespace LambdaTyping

/-- The answers that the cache keeps are those of the table. -/
def CandidateCache.Fresh (t : ClassTable) (cache : CandidateCache) : Prop :=
  ∀ c answer, cache.get? c = some answer → (t.candidates c).Gives answer

/-- An empty cache keeps no wrong answers. -/
lemma CandidateCache.fresh_empty (t : ClassTable) : CandidateCache.empty.Fresh t := by
  intro c answer h
  simp [empty, get?] at h

/-- An insertion changes what is kept for its own class only. -/
lemma CandidateCache.get?_insert (cache : CandidateCache) (c e : ClassId)
    (answer : Option (List Signature)) :
    (cache.insert c answer).get? e = if c = e then some answer else cache.get? e := by
  simp [insert, get?, Std.TreeMap.getElem?_insert]

/-- Asking a fresh cache leaves it fresh. -/
lemma CandidateCache.Fresh.candidates {t : ClassTable} {cache cache' : CandidateCache} {c : ClassId}
    {answer : Option (List Signature)} (fresh : cache.Fresh t)
    (h : (cache.candidates t c).Gives (answer, cache')) : cache'.Fresh t := by
  unfold CandidateCache.candidates at h
  split at h
  · cases Query.gives_pure_iff.1 h
    exact fresh
  · obtain ⟨found, hfound, h⟩ := Query.gives_bind_iff.1 h
    cases Query.gives_pure_iff.1 h
    intro e kept he
    rw [get?_insert] at he
    split at he
    · rename_i same
      cases he
      rwa [← same]
    · exact fresh e kept he

/-- A single candidate that is accepted is the only one, and is not generic. -/
lemma singleCandidate_eq_ok {candidates : Option (List Signature)} {m : Signature}
    (h : singleCandidate candidates = .ok m) :
    candidates = some [m] ∧ m.isGeneric = false := by
  unfold singleCandidate at h
  split at h
  · cases h
  · cases h
  · split at h
    · cases h
    · rename_i notGeneric
      cases h
      exact ⟨rfl, by simpa using notGeneric⟩
  · cases h

/-- That a class has no single candidate is no fault of the caller. -/
lemma isInternal_of_singleCandidate_eq_error {candidates : Option (List Signature)}
    {e : TargetError} (h : singleCandidate candidates = .error e) : e.isInternal = false := by
  unfold singleCandidate at h
  split at h
  · cases h
    rfl
  · cases h
    rfl
  · split at h
    · cases h
      rfl
    · cases h
  · cases h
    rfl

/-- The class types named by a list are those named by its types. -/
lemma Ty.mem_targetClassesOf {c : ClassTy} {ms : List Ty} :
    c ∈ Ty.targetClassesOf ms ↔ ∃ m ∈ ms, c ∈ m.targetClasses := by
  induction ms with
  | nil => simp [Ty.targetClassesOf]
  | cons m ms ih => simp [Ty.targetClassesOf, ih]

/-- The method of a class type: the one candidate of its class, seen through the type arguments. -/
structure TargetMethod.Implements (t : ClassTable) (c : ClassId) (args : List Ty) (d : ClassDecl)
    (m : TargetMethod) : Prop where
  declared : t.class? c = some d
  candidate : (t.candidates c).Gives (some [m.signature])
  notGeneric : m.signature.isGeneric = false
  cls : m.cls = c
  subst : m.subst = t.instantiate d args

/-- The ground substitution puts in the ground forms of the arguments. -/
lemma TargetMethod.get?_groundSubst (m : TargetMethod) (t : ClassTable) (v : TypeVarId) :
    (m.groundSubst t).get? v = (m.subst.get? v).map (t.groundArgument m.cls v) :=
  Subst.get?_mapTypes _ _ _

namespace ClassTable

variable {t : ClassTable} {config : Config}

/-- Only wildcards are grounded. -/
lemma groundArgument_of_not_wildcard {c : ClassId} {v : TypeVarId} {a : Ty}
    (h : a.isWildcard = false) : t.groundArgument c v a = a := by
  cases a with
  | wild | wildExtends b | wildSuper b => cases h
  | _ => rfl

/-- A class type is resolved to the single candidate of its class, at the instantiation with its
arguments. -/
lemma resolveClass_eq_method {candidates : Option (List Signature)} {c : ClassTy}
    {m : TargetMethod} (h : t.resolveClass config candidates c = .ok (.method m)) :
    ∃ d, t.class? c.head = some d ∧ singleCandidate candidates = .ok m.signature ∧
      m.cls = c.head ∧ m.subst = t.instantiate d c.args := by
  unfold resolveClass at h
  split at h
  · cases h
  · rename_i d declared
    cases single : singleCandidate candidates with
    | error e =>
      rw [single] at h
      cases h
    | ok s =>
      rw [single] at h
      change (if _ then _ else _) = _ at h
      split at h
      · cases h
      · cases h
        exact ⟨d, declared, rfl, rfl, rfl⟩

/-- The candidates that a resolution collects are kept as the table has them. -/
lemma fresh_of_collectCandidates {cs : List ClassTy} {cache cache' : CandidateCache}
    (fresh : cache.Fresh t) (h : (t.collectCandidates config cs cache).Gives cache') :
    cache'.Fresh t := by
  induction cs generalizing cache with
  | nil =>
    obtain rfl := Query.gives_pure_iff.1 h
    exact fresh
  | cons c cs ih =>
    rw [collectCandidates] at h
    split at h
    · obtain ⟨_, _, h⟩ := Query.gives_bind_iff.1 h
      obtain rfl := Query.gives_pure_iff.1 h
      exact fresh
    · obtain ⟨_, _, h⟩ := Query.gives_bind_iff.1 h
      obtain ⟨⟨found, kept⟩, hfound, h⟩ := Query.gives_bind_iff.1 h
      obtain ⟨_, _, h⟩ := Query.gives_bind_iff.1 h
      exact ih (fresh.candidates hfound) h

/-- An intersection succeeds with what one of its members gives. -/
lemma mem_of_ofMembers_eq_ok {shown : String} {rs : List Resolution} {target : Target}
    (h : Resolution.ofMembers shown rs = .ok target) : .ok target ∈ rs := by
  unfold Resolution.ofMembers at h
  split at h
  · rename_i r found
    rw [← h]
    exact List.mem_of_find?_eq_some found
  · split at h
    · rename_i r one
      have mem : r ∈ rs.filter Except.isOk := one ▸ List.mem_singleton_self r
      rw [← h]
      exact (List.mem_filter.1 mem).1
    · cases rs with
      | nil => cases h
      | cons r rs =>
        rw [← h]
        exact List.mem_cons_self
    · cases h

/-- The members of an intersection are resolved one by one. -/
lemma resolveAllWith_eq (candidates : ClassId → Option (List Signature)) (ms : List Ty) :
    t.resolveAllWith config candidates ms = ms.map (t.resolveWith config candidates) := by
  induction ms with
  | nil => rfl
  | cons m ms ih => rw [resolveAllWith, ih, List.map_cons]

/-- An intersection comes to an internal error if one of the outcomes of its members is one. -/
lemma isInternal_ofMembers_iff {shown : String} {rs : List Resolution} :
    (Resolution.ofMembers shown rs).isInternal = true ↔ ∃ r ∈ rs, r.isInternal = true := by
  unfold Resolution.ofMembers
  split
  · rename_i r found
    exact iff_of_true (List.find?_some found)
      ⟨r, List.mem_of_find?_eq_some found, List.find?_some found⟩
  · rename_i absent
    have none := List.find?_eq_none.1 absent
    refine iff_of_false ?_ fun ⟨r, hr, internal⟩ => none r hr internal
    split
    · rename_i r one
      have mem : r ∈ rs.filter Except.isOk := one ▸ List.mem_singleton_self r
      exact none r (List.mem_filter.1 mem).1
    · cases rs with
      | nil => exact Bool.false_ne_true
      | cons r rs => exact none r List.mem_cons_self
    · exact Bool.false_ne_true

/-- A class type comes to an internal error if its class is missing. -/
lemma isInternal_resolveClass_iff {candidates : Option (List Signature)} {c : ClassTy} :
    (t.resolveClass config candidates c).isInternal = true ↔ t.class? c.head = none := by
  unfold resolveClass
  split
  · rename_i undeclared
    exact iff_of_true rfl undeclared
  · rename_i d declared
    rw [declared]
    refine iff_of_false ?_ nofun
    cases single : singleCandidate candidates with
    | error e =>
      show ¬e.isInternal = true
      rw [isInternal_of_singleCandidate_eq_error single]
      exact Bool.false_ne_true
    | ok m =>
      show ¬Resolution.isInternal (if _ then _ else _) = true
      split
      · exact Bool.false_ne_true
      · exact Bool.false_ne_true

/-- A type is an internal failure if it names a class that the table does not hold, whatever
candidates the other classes have. -/
lemma isInternal_resolveWith_iff {candidates : ClassId → Option (List Signature)} {ty : Ty} :
    (t.resolveWith config candidates ty).isInternal = true ↔
      ∃ c ∈ ty.targetClasses, t.class? c.head = none := by
  induction ty using Ty.rec_members with
  | cls c args =>
    rw [resolveWith, isInternal_resolveClass_iff]
    simp [Ty.targetClasses]
  | wildExtends b ih =>
    rw [resolveWith]
    exact ih
  | inter ms ih =>
    rw [resolveWith, isInternal_ofMembers_iff, resolveAllWith_eq]
    constructor
    · rintro ⟨r, hr, internal⟩
      obtain ⟨m, hm, rfl⟩ := List.mem_map.1 hr
      obtain ⟨c, hc, undeclared⟩ := (ih m hm).1 internal
      exact ⟨c, Ty.mem_targetClassesOf.2 ⟨m, hm, hc⟩, undeclared⟩
    · rintro ⟨c, hc, undeclared⟩
      obtain ⟨m, hm, hc⟩ := Ty.mem_targetClassesOf.1 hc
      exact ⟨_, List.mem_map_of_mem hm, (ih m hm).2 ⟨c, hc, undeclared⟩⟩
  | _ => exact iff_of_false Bool.false_ne_true fun ⟨_, hc, _⟩ => List.not_mem_nil hc

/-- A type is resolved to a method through one of its target classes. -/
lemma exists_resolveClass {candidates : ClassId → Option (List Signature)} {ty : Ty}
    {m : TargetMethod} (h : t.resolveWith config candidates ty = .ok (.method m)) :
    ∃ c ∈ ty.targetClasses, t.resolveClass config (candidates c.head) c = .ok (.method m) := by
  induction ty using Ty.rec_members with
  | cls c args => exact ⟨⟨c, args⟩, List.mem_singleton_self _, h⟩
  | wildExtends b ih => exact ih h
  | inter ms ih =>
    rw [resolveWith] at h
    have mem := mem_of_ofMembers_eq_ok h
    clear h
    rw [Ty.targetClasses]
    induction ms with
    | nil => cases mem
    | cons m ms tail =>
      rcases List.mem_cons.1 mem with here | later
      · obtain ⟨c, hc, h⟩ := ih _ List.mem_cons_self here.symm
        exact ⟨c, List.mem_append_left _ hc, h⟩
      · obtain ⟨c, hc, h⟩ := tail (fun n hn => ih n (List.mem_cons_of_mem _ hn)) later
        exact ⟨c, List.mem_append_right _ hc, h⟩
  | _ => cases h

/-- A resolution collects the candidates and then depends on nothing else. -/
lemma gives_resolve_iff {ty : Ty} {cache cache' : CandidateCache} {r : Resolution} :
    (t.resolve config cache ty).Gives (r, cache') ↔
      (t.collectCandidates config ty.targetClasses cache).Gives cache' ∧
        t.resolveWith config (fun c => (cache'.get? c).join) ty = r := by
  constructor
  · intro h
    obtain ⟨after, collected, h⟩ := Query.gives_bind_iff.1 h
    obtain ⟨_, _, h⟩ := Query.gives_bind_iff.1 h
    cases Query.gives_pure_iff.1 h
    exact ⟨collected, rfl⟩
  · rintro ⟨collected, rfl⟩
    refine Query.gives_bind_iff.2 ⟨cache', collected, ?_⟩
    exact Query.gives_bind_iff.2 ⟨(), Query.gives_report_iff.2 trivial, Query.gives_pure_iff.2 rfl⟩

/-- The type arguments of a resolved method are those of a target class. -/
lemma exists_subst_of_resolve {cache cache' : CandidateCache} {ty : Ty} {m : TargetMethod}
    (h : (t.resolve config cache ty).Gives (.ok (.method m), cache')) :
    ∃ c ∈ ty.targetClasses, ∃ d, t.class? c.head = some d ∧ m.cls = c.head ∧
      m.subst = t.instantiate d c.args := by
  obtain ⟨c, hc, result⟩ := exists_resolveClass (gives_resolve_iff.1 h).2
  obtain ⟨d, declared, -, cls, subst⟩ := resolveClass_eq_method result
  exact ⟨c, hc, d, declared, cls, subst⟩

/-- The method that a type is resolved to is the one candidate of one of its target classes. -/
theorem exists_implements_of_resolve {cache cache' : CandidateCache} {ty : Ty} {m : TargetMethod}
    (fresh : cache.Fresh t) (h : (t.resolve config cache ty).Gives (.ok (.method m), cache')) :
    ∃ c ∈ ty.targetClasses, ∃ d, m.Implements t c.head c.args d := by
  obtain ⟨after, collected, h⟩ := Query.gives_bind_iff.1 h
  obtain ⟨_, _, h⟩ := Query.gives_bind_iff.1 h
  have result := (Prod.mk.inj (Query.gives_pure_iff.1 h)).1
  obtain ⟨c, hc, result⟩ := exists_resolveClass result
  obtain ⟨d, declared, single, cls, subst⟩ := resolveClass_eq_method result
  obtain ⟨only, notGeneric⟩ := singleCandidate_eq_ok single
  -- Only an answer that the cache keeps can be a candidate, so it is the table's.
  have answer : (t.candidates c.head).Gives (some [m.signature]) := by
    refine fresh_of_collectCandidates fresh collected c.head _ ?_
    cases kept : after.get? c.head with
    | none =>
      rw [kept] at only
      cases only
    | some answer =>
      rw [kept] at only
      exact congrArg some only
  exact ⟨c, hc, d, declared, answer, notGeneric, cls, subst⟩

/-- The method that a class type is resolved to is the one candidate of the class. -/
theorem implements_of_resolve {cache cache' : CandidateCache} {c : ClassId} {args : List Ty}
    {m : TargetMethod} (fresh : cache.Fresh t)
    (h : (t.resolve config cache (.cls c args)).Gives (.ok (.method m), cache')) :
    ∃ d, m.Implements t c args d := by
  obtain ⟨e, he, d, implements⟩ := exists_implements_of_resolve fresh h
  obtain rfl := List.mem_singleton.1 he
  exact ⟨d, implements⟩

/-- The method of a class type is declared without type parameters, as an abstract method of a class
above the class, and its signature is the declaration as it is seen there. -/
lemma exists_declaration {c : ClassId} {args : List Ty} {d : ClassDecl} {m : TargetMethod}
    (h : m.Implements t c args d) :
    ∃ e ∈ t.classClosure ⟨c, d.typeParams.map .var⟩, ∃ o, t.class? e.head = some o ∧
      ∃ decl ∈ o.methods, decl.kind = .abstract ∧ decl.typeParams = [] ∧
        m.signature = .ofMethod e.head decl (t.instantiate o e.args) := by
  have mem := mem_leftOpen_of_candidate h.declared h.candidate (List.mem_singleton_self _)
  obtain ⟨member, hmember, sig⟩ := List.mem_map.1 mem
  obtain ⟨hmember, isOpen⟩ := List.mem_filter.1 hmember
  have isAbstract := (of_decide_eq_true isOpen).isAbstract
  obtain ⟨e, he, o, ho, decl, hdecl, rfl⟩ := exists_of_mem_members hmember
  have notGeneric := h.notGeneric
  rw [← sig] at notGeneric
  refine ⟨e, he, o, ho, decl, hdecl, isAbstract, ?_, sig.symm⟩
  simpa [Signature.isGeneric, Signature.ofMethod] using notGeneric

end ClassTable

end LambdaTyping
