import LambdaTyping.Proofs.Hierarchy.Closure
import LambdaTyping.Proofs.Target.Resolution
import LambdaTyping.Table.Edit
import LambdaTyping.Table.Platform
import Mathlib

/-!
# Resolution without the report

A configuration can refuse class types that leave their method open by a wildcard argument, or let
them pass. What is refused anyway stays refused (`resolveWith_silent`), but an intersection takes
the refusal of the other members as evidence for the one that is left: letting a member pass makes
it ambiguous. `resolve_silent` states when a target keeps its method, and what becomes of it
otherwise.
-/

namespace LambdaTyping

/-- The configuration with the report of open wildcard arguments switched so. -/
def Config.reporting (config : Config) (report : Bool) : Config :=
  { config with reportUnresolved := report }

/-- What stands for a type as a target: the bound of a wildcard `? extends`. -/
def Ty.targetBound : Ty → Ty
  | .wildExtends b => b.targetBound
  | ty => ty

namespace ClassTable

variable {t : ClassTable} {config : Config} {candidates : ClassId → Option (List Signature)}

/-- The type is refused only because of the report. -/
def Withheld (t : ClassTable) (config : Config) (candidates : ClassId → Option (List Signature))
    (ty : Ty) : Prop :=
  (t.resolveWith (config.reporting true) candidates ty).isOk = false ∧
    (t.resolveWith (config.reporting false) candidates ty).isOk = true

/-- An intersection that the type is resolved through, be it the type, its bound, or the member
that is left at any depth, has a member that is refused only because of the report. -/
inductive Contested (t : ClassTable) (config : Config)
    (candidates : ClassId → Option (List Signature)) : Ty → Prop where
  | bound {b} : Contested t config candidates b → Contested t config candidates (.wildExtends b)
  | rival {ms n} : n ∈ ms → t.Withheld config candidates n →
      Contested t config candidates (.inter ms)
  | within {ms m} : m ∈ ms → (t.resolveWith (config.reporting true) candidates m).isOk = true →
      Contested t config candidates m → Contested t config candidates (.inter ms)

instance (ty : Ty) : Decidable (t.Withheld config candidates ty) :=
  inferInstanceAs (Decidable (_ ∧ _))

/-- A class type is not contested, as it has no members to choose from. -/
lemma not_contested_of_isClass {ty : Ty} (isClass : ty.asClass?.isSome = true) :
    ¬t.Contested config candidates ty := by
  obtain ⟨c, rfl⟩ := Ty.exists_eq_toTy isClass
  exact nofun

/-- An intersection of class types is contested if one of them is withheld. -/
lemma contested_inter_iff {ms : List Ty} (classes : ∀ m ∈ ms, m.asClass?.isSome = true) :
    t.Contested config candidates (.inter ms) ↔ ∃ n ∈ ms, t.Withheld config candidates n := by
  constructor
  · intro contested
    cases contested with
    | rival hn withheld => exact ⟨_, hn, withheld⟩
    | within hm _ contested => exact absurd contested (not_contested_of_isClass (classes _ hm))
  · rintro ⟨n, hn, withheld⟩
    exact .rival hn withheld

section Members

/-- What alone is left of a list by a filter is in the list and passes the filter. -/
lemma mem_of_filter_eq {α : Type} {p : α → Bool} {l : List α} {a : α} (h : l.filter p = [a]) :
    a ∈ l ∧ p a = true :=
  List.mem_filter.1 (h ▸ List.mem_singleton_self a)

/-- What passes a filter that leaves only one is that one. -/
lemma eq_of_filter_eq {α : Type} {p : α → Bool} {l : List α} {a b : α} (h : l.filter p = [a])
    (hb : b ∈ l) (pb : p b = true) : b = a :=
  List.mem_singleton.1 (h ▸ List.mem_filter.2 ⟨hb, pb⟩)

variable {shown : String} {rs : List Resolution} {x : Target}

/-- Without internal failures the members that succeed are counted. -/
lemma ofMembers_of_forall (fit : ∀ r ∈ rs, r.isInternal = false) :
    Resolution.ofMembers shown rs =
      match rs.filter Except.isOk with
      | [r] => r
      | [] => rs.head?.getD (.error (.notFunctional shown))
      | _ => .error (.ambiguous (some shown)) := by
  have absent : rs.find? Resolution.isInternal = none :=
    List.find?_eq_none.2 fun r hr => Bool.eq_false_iff.1 (fit r hr)
  unfold Resolution.ofMembers
  split
  · rename_i r found
    rw [absent] at found
    cases found
  · rfl

/-- An intersection succeeds if no member is an internal failure and one member succeeds. -/
lemma ofMembers_eq_ok_iff : Resolution.ofMembers shown rs = .ok x ↔
    (∀ r ∈ rs, r.isInternal = false) ∧ rs.filter Except.isOk = [.ok x] := by
  constructor
  · intro h
    have internal : ¬(Resolution.ofMembers shown rs).isInternal = true := by
      rw [h]
      exact Bool.false_ne_true
    rw [isInternal_ofMembers_iff] at internal
    have fit (r : Resolution) (hr : r ∈ rs) : r.isInternal = false :=
      Bool.eq_false_iff.2 fun failed => internal ⟨r, hr, failed⟩
    have mem : .ok x ∈ rs.filter Except.isOk := List.mem_filter.2 ⟨mem_of_ofMembers_eq_ok h, rfl⟩
    rw [ofMembers_of_forall fit] at h
    refine ⟨fit, ?_⟩
    split at h
    · rename_i r one
      rw [one, h]
    · rename_i nothing
      rw [nothing] at mem
      cases mem
    · cases h
  · rintro ⟨fit, one⟩
    rw [ofMembers_of_forall fit, one]

/-- With two members that succeed an intersection is ambiguous. -/
lemma ofMembers_eq_ambiguous (fit : ∀ r ∈ rs, r.isInternal = false)
    (several : 2 ≤ (rs.filter Except.isOk).length) :
    Resolution.ofMembers shown rs = .error (.ambiguous (some shown)) := by
  rw [ofMembers_of_forall fit]
  split
  · rename_i r one
    rw [one, List.length_singleton] at several
    omega
  · rename_i nothing
    rw [nothing] at several
    cases several
  · rfl

end Members

section Silent

variable {ty : Ty} {x : Target}

/-- A class type that passes with the report passes without it, with the same method. -/
lemma resolveClass_silent {found : Option (List Signature)} {c : ClassTy}
    (h : t.resolveClass (config.reporting true) found c = .ok x) :
    t.resolveClass (config.reporting false) found c = .ok x := by
  unfold resolveClass at h ⊢
  split at h
  · cases h
  · cases single : singleCandidate found with
    | error e =>
      rw [single] at h
      cases h
    | ok m =>
      rw [single] at h
      change (if _ then _ else _) = _ at h
      split at h
      · cases h
      · exact h

/-- The members of an intersection that succeed are one, if the intersection succeeds. -/
lemma exists_member {ms : List Ty}
    (h : t.resolveWith (config.reporting true) candidates (.inter ms) = .ok x) :
    ∃ m, ms.filter (fun n => (t.resolveWith (config.reporting true) candidates n).isOk) = [m] ∧
      t.resolveWith (config.reporting true) candidates m = .ok x := by
  rw [resolveWith, resolveAllWith_eq] at h
  have one := (ofMembers_eq_ok_iff.1 h).2
  rw [List.filter_map] at one
  obtain ⟨m, hm, result⟩ := List.map_eq_singleton_iff.1 one
  exact ⟨m, hm, result⟩

/-- Which members are internal failures does not depend on the report. -/
lemma forall_isInternal_silent {ms : List Ty}
    (h : t.resolveWith (config.reporting true) candidates (.inter ms) = .ok x) :
    ∀ r ∈ ms.map (t.resolveWith (config.reporting false) candidates), r.isInternal = false := by
  rw [resolveWith, resolveAllWith_eq] at h
  refine List.forall_mem_map.2 fun m hm => ?_
  have fit := (ofMembers_eq_ok_iff.1 h).1 _ (List.mem_map_of_mem hm)
  rw [Bool.eq_false_iff, Ne, isInternal_resolveWith_iff] at fit ⊢
  exact fit

/-- A target that is not contested keeps its method. -/
lemma resolveWith_silent (h : t.resolveWith (config.reporting true) candidates ty = .ok x)
    (quiet : ¬t.Contested config candidates ty) :
    t.resolveWith (config.reporting false) candidates ty = .ok x := by
  induction ty using Ty.rec_members with
  | cls c args => exact resolveClass_silent h
  | wildExtends b ih => exact ih h fun contested => quiet (.bound contested)
  | inter ms ih =>
    obtain ⟨m, one, result⟩ := exists_member h
    obtain ⟨hm, ok⟩ := mem_of_filter_eq one
    have kept := ih m hm result fun contested => quiet (.within hm ok contested)
    -- The same members succeed, as none is withheld.
    have same : ms.filter (fun n => (t.resolveWith (config.reporting false) candidates n).isOk) =
        [m] := by
      rw [← one]
      refine List.filter_congr fun n hn => ?_
      cases refused : (t.resolveWith (config.reporting true) candidates n).isOk with
      | true =>
        obtain rfl := eq_of_filter_eq one hn refused
        rw [kept]
        rfl
      | false => exact Bool.eq_false_iff.2 fun passes => quiet (.rival hn ⟨refused, passes⟩)
    rw [resolveWith, resolveAllWith_eq]
    refine ofMembers_eq_ok_iff.2 ⟨forall_isInternal_silent h, ?_⟩
    rw [List.filter_map]
    exact List.map_eq_singleton_iff.2 ⟨m, same, kept⟩
  | _ => exact h

/-- An intersection in which another member is withheld, and no member is contested in itself,
becomes ambiguous. -/
lemma resolveWith_silent_rival {ms : List Ty} {n : Ty}
    (h : t.resolveWith (config.reporting true) candidates (.inter ms) = .ok x) (hn : n ∈ ms)
    (withheld : t.Withheld config candidates n)
    (quiet : ∀ m ∈ ms, ¬t.Contested config candidates m) :
    t.resolveWith (config.reporting false) candidates (.inter ms) =
      .error (.ambiguous (some (t.display (.inter ms)))) := by
  obtain ⟨m, one, result⟩ := exists_member h
  obtain ⟨hm, ok⟩ := mem_of_filter_eq one
  have kept := resolveWith_silent result (quiet m hm)
  have other : m ≠ n := by
    rintro rfl
    rw [withheld.1] at ok
    cases ok
  have passes : n ∈ ms.filter fun n =>
      (t.resolveWith (config.reporting false) candidates n).isOk :=
    List.mem_filter.2 ⟨hn, withheld.2⟩
  have passes' : m ∈ ms.filter fun n =>
      (t.resolveWith (config.reporting false) candidates n).isOk :=
    List.mem_filter.2 ⟨hm, by rw [kept]; rfl⟩
  rw [resolveWith, resolveAllWith_eq]
  refine ofMembers_eq_ambiguous (forall_isInternal_silent h) ?_
  rw [List.filter_map, List.length_map]
  have pair : [m, n].Nodup := by simpa using other
  refine (List.subperm_of_subset pair ?_).length_le
  exact List.cons_subset.2 ⟨passes', List.cons_subset.2 ⟨passes, List.nil_subset _⟩⟩

/-- Collecting candidates does not depend on the configuration. -/
lemma gives_collectCandidates_config {config' : Config} {cs : List ClassTy}
    {cache cache' : CandidateCache} (h : (t.collectCandidates config cs cache).Gives cache') :
    (t.collectCandidates config' cs cache).Gives cache' := by
  induction cs generalizing cache with
  | nil => exact h
  | cons c cs ih =>
    rw [collectCandidates] at h ⊢
    split at h
    · exact h
    · obtain ⟨_, reported, h⟩ := Query.gives_bind_iff.1 h
      obtain ⟨found, hfound, h⟩ := Query.gives_bind_iff.1 h
      obtain ⟨_, _, h⟩ := Query.gives_bind_iff.1 h
      refine Query.gives_bind_iff.2 ⟨(), reported, Query.gives_bind_iff.2 ⟨found, hfound, ?_⟩⟩
      exact Query.gives_bind_iff.2 ⟨(), Query.gives_report_iff.2 trivial, ih h⟩

/-- A type is resolved as the bound that it stands for. -/
lemma resolveWith_targetBound :
    t.resolveWith config candidates ty.targetBound = t.resolveWith config candidates ty := by
  induction ty using Ty.rec_members with
  | wildExtends b ih => exact ih
  | _ => rfl

end Silent

/-- A target that is resolved with the report is resolved to the same without it, unless it is
contested. If the contest is about the intersection itself that the target is, or is a wildcard
`? extends` of, the target is ambiguous without the report. -/
theorem resolve_silent {cache cache' : CandidateCache} {ty : Ty} {x : Target}
    (h : (t.resolve (config.reporting true) cache ty).Gives (.ok x, cache')) :
    ∃ r, (t.resolve (config.reporting false) cache ty).Gives (r, cache') ∧
      (¬t.Contested config (fun c => (cache'.get? c).join) ty → r = .ok x) ∧
      ∀ ms, ty.targetBound = .inter ms →
        (∃ n ∈ ms, t.Withheld config (fun c => (cache'.get? c).join) n) →
        (∀ m ∈ ms, ¬t.Contested config (fun c => (cache'.get? c).join) m) →
        r = .error (.ambiguous (some (t.display (.inter ms)))) := by
  obtain ⟨collected, result⟩ := gives_resolve_iff.1 h
  refine ⟨_, gives_resolve_iff.2 ⟨gives_collectCandidates_config collected, rfl⟩,
    resolveWith_silent result, ?_⟩
  rintro ms bound ⟨n, hn, withheld⟩ quiet
  rw [← resolveWith_targetBound, bound] at result ⊢
  exact resolveWith_silent_rival result hn withheld quiet

/-- The platform with the type parameter `T extends Number` and the interface `Container<T>` of the
method `void visit()`. -/
def containerTable : ClassTable :=
  let bounded := (platform.addParam "T" [.cls ⟨2⟩ []]).2
  (bounded.upsert ⟨"Container", .interface, [⟨18⟩], none, [],
    [⟨"visit", [], [], .void, .abstract⟩]⟩).2

/-- The target `Container<?> & Runnable`. -/
def containerTarget : Ty := .inter [.cls ⟨28⟩ [.wild], .cls ⟨14⟩ []]

/-- The candidates of `Container` and `Runnable`. -/
def containerCache : CandidateCache :=
  (CandidateCache.empty.insert ⟨28⟩ (some [⟨⟨28⟩, "visit", [], [], .void⟩])).insert ⟨14⟩
    (some [⟨⟨14⟩, "run", [], [], .void⟩])

/-- The method of `Runnable`. -/
def runnableMethod : TargetMethod where
  cls := ⟨14⟩
  signature := ⟨⟨14⟩, "run", [], [], .void⟩
  subst := .empty

/-- With the report `Container<?> & Runnable` is resolved to the method of `Runnable`. -/
lemma resolve_containerTarget :
    (containerTable.resolve (Config.default.reporting true) .empty containerTarget).Gives
      (.ok (.method runnableMethod), containerCache) :=
  ⟨2, [.unconstrainedWildcard "Container" "T" "visit",
    .targetResolved "Container<?> & Runnable" "run"], by cbv⟩

/-- `Container<?>` has its method only without the report. -/
lemma withheld_container : containerTable.Withheld .default
    (fun c => (containerCache.get? c).join) (.cls ⟨28⟩ [.wild]) := by
  decide +kernel

/-- No member of `Container<?> & Runnable` is contested. -/
lemma not_contested_of_mem_containerTarget {candidates : ClassId → Option (List Signature)} {m : Ty}
    (hm : m ∈ containerTarget.members) : ¬containerTable.Contested .default candidates m := by
  have classes : ∀ m ∈ containerTarget.members, m.asClass?.isSome = true := by decide
  exact not_contested_of_isClass (classes m hm)

/-- `Runnable & Serializable` keeps its method without the report, for the second member has none.
`Container<?> & Runnable` becomes ambiguous, for then the first member has one. -/
theorem resolve_silent_containerTable :
    (∃ cache', (containerTable.resolve (Config.default.reporting true) .empty
        (.inter [.cls ⟨14⟩ [], .cls ⟨4⟩ []])).Gives (.ok (.method runnableMethod), cache') ∧
      (containerTable.resolve (Config.default.reporting false) .empty
        (.inter [.cls ⟨14⟩ [], .cls ⟨4⟩ []])).Gives (.ok (.method runnableMethod), cache')) ∧
    (containerTable.resolve (Config.default.reporting true) .empty containerTarget).Gives
      (.ok (.method runnableMethod), containerCache) ∧
    containerTable.Withheld .default (fun c => (containerCache.get? c).join) (.cls ⟨28⟩ [.wild]) ∧
    (containerTable.resolve (Config.default.reporting false) .empty containerTarget).Gives
      (.error (.ambiguous (some "Container<?> & Runnable")), containerCache) := by
  constructor
  · have resolved : (containerTable.resolve (Config.default.reporting true) .empty
        (.inter [.cls ⟨14⟩ [], .cls ⟨4⟩ []])).Gives (.ok (.method runnableMethod),
          (CandidateCache.empty.insert ⟨14⟩ (some [⟨⟨14⟩, "run", [], [], .void⟩])).insert ⟨4⟩
            (some [])) :=
      ⟨2, [.targetResolved "Runnable & Serializable" "run"], by cbv⟩
    obtain ⟨r, silent, kept, -⟩ := resolve_silent resolved
    have quiet : ¬∃ n ∈ [Ty.cls ⟨14⟩ [], .cls ⟨4⟩ []], containerTable.Withheld .default
        (fun c => (((CandidateCache.empty.insert ⟨14⟩ (some [⟨⟨14⟩, "run", [], [], .void⟩])).insert
          ⟨4⟩ (some [])).get? c).join) n := by
      decide +kernel
    obtain rfl := kept fun contested => quiet ((contested_inter_iff (by decide)).1 contested)
    exact ⟨_, resolved, silent⟩
  · obtain ⟨r, silent, -, ambiguous⟩ := resolve_silent resolve_containerTarget
    have shown : containerTable.display containerTarget = "Container<?> & Runnable" := by
      decide +kernel
    obtain rfl := ambiguous _ rfl ⟨_, List.mem_cons_self, withheld_container⟩ fun m =>
      not_contested_of_mem_containerTarget
    refine ⟨resolve_containerTarget, withheld_container, ?_⟩
    rw [← shown]
    exact silent

/-- Without the report `Container<?> & Runnable` loses the method that it has with the report. -/
theorem runnableMethod_lost_silent :
    (∃ cache', (containerTable.resolve (Config.default.reporting true) .empty
        containerTarget).Gives (.ok (.method runnableMethod), cache')) ∧
      ¬∃ cache', (containerTable.resolve (Config.default.reporting false) .empty
        containerTarget).Gives (.ok (.method runnableMethod), cache') := by
  obtain ⟨collected, result⟩ := gives_resolve_iff.1 resolve_containerTarget
  have lost := resolveWith_silent_rival result List.mem_cons_self withheld_container fun m =>
    not_contested_of_mem_containerTarget
  refine ⟨⟨_, resolve_containerTarget⟩, ?_⟩
  rintro ⟨cache', kept⟩
  obtain ⟨collected', result'⟩ := gives_resolve_iff.1 kept
  obtain rfl := collected'.unique (gives_collectCandidates_config collected)
  cases lost.symm.trans result'

end ClassTable

end LambdaTyping
