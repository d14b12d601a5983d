import LambdaTyping.Proofs.Lambda.Memoization
import LambdaTyping.Proofs.Target.Reporting
import Mathlib.Data.Multiset.ZeroCons

/-!
# Resolution of intersections

A resolution goes through the members of an intersection in turn, up to the first that names a class
the table does not hold, and keeps the candidates it finds on the way. None of this shows: what an
intersection comes to follows from what its members come to by themselves, whatever their order
(`resolve_inter`), and members that are refused neither help nor hinder the one that is not.
-/

namespace LambdaTyping

/-- How the resolution of an intersection, displayed so, follows from those of its members. -/
structure Resolution.FollowsFrom (shown : String) (rs : Multiset Resolution) (r : Resolution) :
    Prop where
  internal : r.isInternal = true ↔ ∃ x ∈ rs, x.isInternal = true
  single : r.isInternal = false → ∀ x, rs.filter (fun y => y.isOk = true) = {x} → r = x
  several : r.isInternal = false → 2 ≤ (rs.filter fun y => y.isOk = true).card →
    r = .error (.ambiguous (some shown))
  /-- Only the intersection of no types has no member whose failure could stand for it. -/
  refused : r.isInternal = false → (∀ x ∈ rs, x.isOk = false) →
    r ∈ rs ∨ rs = 0 ∧ r = .error (.notFunctional shown)

/-- What an intersection comes to follows from what its members come to. -/
lemma Resolution.followsFrom_ofMembers (shown : String) (rs : List Resolution) :
    FollowsFrom shown rs (ofMembers shown rs) := by
  have internal : (ofMembers shown rs).isInternal = true ↔ ∃ x ∈ rs, x.isInternal = true :=
    ClassTable.isInternal_ofMembers_iff
  have fit (h : (ofMembers shown rs).isInternal = false) : ∀ x ∈ rs, x.isInternal = false := by
    intro x hx
    by_contra failed
    rw [internal.2 ⟨x, hx, Bool.not_eq_false _ ▸ failed⟩] at h
    cases h
  refine ⟨internal, ?_, ?_, ?_⟩
  · intro h x one
    rw [Multiset.filter_coe, Multiset.coe_eq_singleton] at one
    rw [ClassTable.ofMembers_of_forall (fit h)]
    simp only [Bool.decide_eq_true] at one
    rw [one]
  · intro h several
    rw [Multiset.filter_coe, Multiset.coe_card] at several
    simp only [Bool.decide_eq_true] at several
    exact ClassTable.ofMembers_eq_ambiguous (fit h) several
  · intro h refused
    have nothing : rs.filter Except.isOk = [] :=
      List.filter_eq_nil_iff.2 fun x hx => by simp [refused x hx]
    rw [ClassTable.ofMembers_of_forall (fit h), nothing]
    cases rs with
    | nil => exact .inr ⟨rfl, rfl⟩
    | cons r rs => exact .inl (Multiset.mem_coe.2 List.mem_cons_self)

namespace ClassTable

/-- From the cache, the type comes to this as a target. -/
def ResolvesTo (t : ClassTable) (config : Config) (cache : CandidateCache) (ty : Ty)
    (r : Resolution) : Prop :=
  ∃ after, (t.resolve config cache ty).Gives (r, after)

/-- The classes asked for on the way through these class types have their candidates. -/
def Answered (t : ClassTable) (cache : CandidateCache) (cs : List ClassTy) : Prop :=
  ∀ c ∈ t.lookedUp cs, (cache.candidates t c.head).Ends

variable {t : ClassTable} {config : Config} {cache : CandidateCache}

section Answered

/-- Two lists of class types are answered if the first is and, unless it names a class that is
missing, the second is. -/
lemma answered_append_iff {cs cs' : List ClassTy} :
    t.Answered cache (cs ++ cs') ↔
      t.Answered cache cs ∧ ((∀ c ∈ cs, t.class? c.head ≠ none) → t.Answered cache cs') := by
  by_cases declared : ∀ c ∈ cs, t.class? c.head ≠ none
  · have all : ∀ c ∈ cs, t.declares c.head = true := by
      intro c hc
      simpa [declares, Option.isSome_iff_ne_none] using declared c hc
    have whole : t.lookedUp cs = cs := List.takeWhile_eq_self_iff.2 all
    simp only [Answered, lookedUp, List.takeWhile_append_of_pos all, List.forall_mem_append]
    rw [← lookedUp, ← lookedUp, whole]
    exact and_congr_right fun _ => (imp_iff_right declared).symm
  · have stops : t.lookedUp (cs ++ cs') = t.lookedUp cs := by
      rw [lookedUp, List.takeWhile_append, if_neg]
      · rfl
      · intro whole
        refine declared fun c hc => ?_
        have all := List.takeWhile_eq_self_iff.1 (List.takeWhile_prefix _ |>.eq_of_length whole)
        simpa [declares, Option.isSome_iff_ne_none] using all c hc
    simp only [Answered, stops, declared, false_implies, and_true]

variable {ms : List Ty}

/-- An intersection is answered if its members are. -/
lemma answered_of_members (h : ∀ m ∈ ms, t.Answered cache m.targetClasses) :
    t.Answered cache (Ty.targetClassesOf ms) := by
  induction ms with
  | nil => exact List.forall_mem_nil _
  | cons m ms ih =>
    obtain ⟨head, tail⟩ := List.forall_mem_cons.1 h
    exact answered_append_iff.2 ⟨head, fun _ => ih tail⟩

/-- The members of an intersection are answered if it is and they name classes of the table only. -/
lemma answered_members (h : t.Answered cache (Ty.targetClassesOf ms))
    (declared : ∀ m ∈ ms, ∀ c ∈ m.targetClasses, t.class? c.head ≠ none) :
    ∀ m ∈ ms, t.Answered cache m.targetClasses := by
  induction ms with
  | nil => exact List.forall_mem_nil _
  | cons m ms ih =>
    obtain ⟨first, others⟩ := List.forall_mem_cons.1 declared
    obtain ⟨head, tail⟩ := answered_append_iff.1 h
    exact List.forall_mem_cons.2 ⟨head, ih (tail first) others⟩

/-- The first member that names a class the table does not hold is come to. -/
lemma exists_answered_member (h : t.Answered cache (Ty.targetClassesOf ms))
    (undeclared : ∃ m ∈ ms, ∃ c ∈ m.targetClasses, t.class? c.head = none) :
    ∃ m ∈ ms, t.Answered cache m.targetClasses ∧ ∃ c ∈ m.targetClasses, t.class? c.head = none := by
  induction ms with
  | nil =>
    obtain ⟨m, hm, -⟩ := undeclared
    cases hm
  | cons m ms ih =>
    obtain ⟨head, tail⟩ := answered_append_iff.1 h
    by_cases here : ∃ c ∈ m.targetClasses, t.class? c.head = none
    · exact ⟨m, List.mem_cons_self, head, here⟩
    · obtain ⟨n, hn, c, hc, undeclared⟩ := undeclared
      rcases List.mem_cons.1 hn with rfl | later
      · exact absurd ⟨c, hc, undeclared⟩ here
      · have rest := tail fun c hc undeclared => here ⟨c, hc, undeclared⟩
        obtain ⟨n, hn, answered⟩ := ih rest ⟨n, later, c, hc, undeclared⟩
        exact ⟨n, List.mem_cons_of_mem _ hn, answered⟩

end Answered

/-- What the cache answers about every class, as one function. -/
lemma exists_known (t : ClassTable) (cache : CandidateCache) :
    ∃ candidates : ClassId → Option (List Signature),
      ∀ c answer, cache.Answers t c answer → candidates c = answer := by
  have each (c : ClassId) :
      ∃ known, ∀ answer, cache.Answers t c answer → known = answer := by
    by_cases h : ∃ answer, cache.Answers t c answer
    · obtain ⟨known, hknown⟩ := h
      exact ⟨known, fun _ => hknown.unique⟩
    · exact ⟨none, fun answer hanswer => absurd ⟨answer, hanswer⟩ h⟩
  choose candidates known using each
  exact ⟨candidates, known⟩

section Known

variable {candidates : ClassId → Option (List Signature)} {ms : List Ty}
  (known : ∀ c answer, cache.Answers t c answer → candidates c = answer)

include known

/-- A resolution depends on the answers of the cache it starts with, not on what it has kept since.
-/
lemma resolvesTo_iff {ty : Ty} {r : Resolution} :
    t.ResolvesTo config cache ty r ↔
      t.Answered cache ty.targetClasses ∧ t.resolveWith config candidates ty = r := by
  have agree {after : CandidateCache}
      (h : (t.collectCandidates config ty.targetClasses cache).Gives after) :
      ∀ c ∈ t.lookedUp ty.targetClasses, (after.get? c.head).join = candidates c.head ∧
        (cache.candidates t c.head).Ends := by
    intro c hc
    obtain ⟨answer, kept⟩ := Option.isSome_iff_exists.1 ((kept_of_collectCandidates h).2 c hc)
    have given := (answers_collected h).1 (CandidateCache.answers_of_get?_eq_some kept)
    exact ⟨by rw [kept, known _ _ given]; rfl, given.ends⟩
  constructor
  · rintro ⟨after, h⟩
    obtain ⟨collected, result⟩ := gives_resolve_iff.1 h
    refine ⟨fun c hc => (agree collected c hc).2, ?_⟩
    rw [← result]
    exact resolveWith_congr rfl fun c hc => (agree collected c hc).1.symm
  · rintro ⟨answered, rfl⟩
    obtain ⟨after, collected⟩ := collectCandidates_ends config answered
    refine ⟨after, gives_resolve_iff.2 ⟨collected, ?_⟩⟩
    exact resolveWith_congr rfl fun c hc => (agree collected c hc).1

/-- Members resolve to some outcomes if all are answered and these are their outcomes in some
order. -/
lemma rel_resolvesTo_iff {rs : Multiset Resolution} :
    Multiset.Rel (t.ResolvesTo config cache) ms rs ↔
      (∀ m ∈ ms, t.Answered cache m.targetClasses) ∧
        rs = (ms.map (t.resolveWith config candidates) : List Resolution) := by
  induction ms generalizing rs with
  | nil => simp [Multiset.rel_zero_left]
  | cons m ms ih =>
    rw [← Multiset.cons_coe, Multiset.rel_cons_left, List.forall_mem_cons]
    constructor
    · rintro ⟨r, others, head, tail, rfl⟩
      obtain ⟨answered, rfl⟩ := (resolvesTo_iff known).1 head
      obtain ⟨all, rfl⟩ := ih.1 tail
      exact ⟨⟨answered, all⟩, rfl⟩
    · rintro ⟨⟨answered, all⟩, rfl⟩
      exact ⟨_, _, (resolvesTo_iff known).2 ⟨answered, rfl⟩, ih.2 ⟨all, rfl⟩, rfl⟩

/-- If all members are resolved, so is their intersection. -/
lemma resolvesTo_inter_of_members (h : ∀ m ∈ ms, t.Answered cache m.targetClasses) :
    t.ResolvesTo config cache (.inter ms)
      (.ofMembers (t.display (.inter ms)) (ms.map (t.resolveWith config candidates))) := by
  refine (resolvesTo_iff known).2 ⟨answered_of_members h, ?_⟩
  rw [resolveWith, resolveAllWith_eq]

/-- An intersection is resolved to no internal failure only if all members are resolved. -/
lemma resolvesTo_inter_iff {r : Resolution} (fit : r.isInternal = false) :
    t.ResolvesTo config cache (.inter ms) r ↔ (∀ m ∈ ms, t.Answered cache m.targetClasses) ∧
      .ofMembers (t.display (.inter ms)) (ms.map (t.resolveWith config candidates)) = r := by
  rw [← resolveAllWith_eq, resolvesTo_iff known]
  constructor
  · rintro ⟨answered, rfl⟩
    refine ⟨answered_members answered fun m hm c hc undeclared => ?_, rfl⟩
    have failed : (t.resolveWith config candidates (.inter ms)).isInternal = true :=
      isInternal_resolveWith_iff.2 ⟨c, Ty.mem_targetClassesOf.2 ⟨m, hm, hc⟩, undeclared⟩
    rw [failed] at fit
    cases fit
  · rintro ⟨all, rfl⟩
    exact ⟨answered_of_members all, rfl⟩

/-- An intersection comes to an internal error if one of its members does. -/
lemma isInternal_inter_iff {r : Resolution} (h : t.ResolvesTo config cache (.inter ms) r) :
    r.isInternal = true ↔
      ∃ m ∈ ms, ∃ x, t.ResolvesTo config cache m x ∧ x.isInternal = true := by
  obtain ⟨answered, rfl⟩ := (resolvesTo_iff known).1 h
  rw [isInternal_resolveWith_iff]
  constructor
  · rintro ⟨c, hc, undeclared⟩
    obtain ⟨m, hm, hc⟩ := Ty.mem_targetClassesOf.1 hc
    obtain ⟨n, hn, answered, failed⟩ :=
      exists_answered_member answered ⟨m, hm, c, hc, undeclared⟩
    exact ⟨n, hn, _, (resolvesTo_iff known).2 ⟨answered, rfl⟩, isInternal_resolveWith_iff.2 failed⟩
  · rintro ⟨m, hm, x, hx, internal⟩
    obtain ⟨-, rfl⟩ := (resolvesTo_iff known).1 hx
    obtain ⟨c, hc, undeclared⟩ := isInternal_resolveWith_iff.1 internal
    exact ⟨c, Ty.mem_targetClassesOf.2 ⟨m, hm, hc⟩, undeclared⟩

/-- An intersection is resolved to a target if all members are resolved, none to an internal
failure, and one to the target. -/
lemma resolvesTo_inter_ok_iff {x : Target} :
    t.ResolvesTo config cache (.inter ms) (.ok x) ↔
      (∀ m ∈ ms, t.Answered cache m.targetClasses ∧
        (t.resolveWith config candidates m).isInternal = false) ∧
      (ms.map (t.resolveWith config candidates)).filter Except.isOk = [.ok x] := by
  rw [resolvesTo_inter_iff known rfl, ofMembers_eq_ok_iff, List.forall_mem_map, ← and_assoc,
    forall₂_and]

/-- Members that are refused, without a fault of the caller, make no difference to a target, and
neither does the order. -/
lemma resolvesTo_inter_ok_congr {ns ms' : List Ty} {x : Target}
    (refused : ∀ n ∈ ns, ∃ e, t.ResolvesTo config cache n (.error e) ∧ e.isInternal = false)
    (same : ms'.Perm (ns ++ ms)) :
    t.ResolvesTo config cache (.inter ms') (.ok x) ↔
      t.ResolvesTo config cache (.inter ms) (.ok x) := by
  -- Refused members change neither whether all are answered nor which of them are left.
  have each : ∀ n ∈ ns, (t.Answered cache n.targetClasses ∧
      (t.resolveWith config candidates n).isInternal = false) ∧
      (t.resolveWith config candidates n).isOk = false := by
    intro n hn
    obtain ⟨e, resolved, fit⟩ := refused n hn
    obtain ⟨answered, result⟩ := (resolvesTo_iff known).1 resolved
    rw [result]
    exact ⟨⟨answered, fit⟩, rfl⟩
  have none : (ns.map (t.resolveWith config candidates)).filter Except.isOk = [] :=
    List.filter_eq_nil_iff.2 (List.forall_mem_map.2 fun n hn => by simp [(each n hn).2])
  have left : ((ms'.map (t.resolveWith config candidates)).filter Except.isOk).Perm
      ((ms.map (t.resolveWith config candidates)).filter Except.isOk) := by
    have moved := (same.map (t.resolveWith config candidates)).filter Except.isOk
    rwa [List.map_append, List.filter_append, none, List.nil_append] at moved
  rw [resolvesTo_inter_ok_iff known, resolvesTo_inter_ok_iff known]
  refine and_congr ?_ ?_
  · simp only [same.mem_iff, List.forall_mem_append]
    exact and_iff_right fun n hn => (each n hn).1
  · constructor
    · intro one
      exact List.perm_singleton.1 (one ▸ left.symm)
    · intro one
      exact List.perm_singleton.1 (one ▸ left)

end Known

/-- A class type is resolved through the candidates that the table gives for the class. -/
lemma resolvesTo_class {c : ClassTy} {answer : Option (List Signature)}
    (given : cache.Answers t c.head answer) :
    t.ResolvesTo config cache c.toTy (t.resolveClass config answer c) := by
  obtain ⟨candidates, known⟩ := exists_known t cache
  refine (resolvesTo_iff known).2 ⟨fun e he => ?_, ?_⟩
  · obtain rfl := List.mem_singleton.1 (List.takeWhile_subset _ he)
    exact given.ends
  · rw [← known _ _ given]
    rfl

/-- What an intersection comes to as a target is a function of what its members come to by
themselves, in any order. If the resolutions of all members end, so does that of the intersection;
wherever it ends, it is an internal failure if and only if some member is one, and else it is
decided by the outcomes of all members. In particular members that are refused, without a fault of
the caller, can be added and removed at any place without a change to the target. -/
theorem resolve_inter (t : ClassTable) (config : Config) (cache : CandidateCache) (ms : List Ty) :
    (∀ ms' : List Ty, ms'.Perm ms →
      (∀ rs, Multiset.Rel (t.ResolvesTo config cache) ms rs →
        ∃ r, t.ResolvesTo config cache (.inter ms') r ∧
          Resolution.FollowsFrom (t.display (.inter ms')) rs r) ∧
      ∀ r, t.ResolvesTo config cache (.inter ms') r →
        (r.isInternal = true ↔
          ∃ m ∈ ms, ∃ x, t.ResolvesTo config cache m x ∧ x.isInternal = true) ∧
        (r.isInternal = false → ∃ rs, Multiset.Rel (t.ResolvesTo config cache) ms rs ∧
          Resolution.FollowsFrom (t.display (.inter ms')) rs r)) ∧
    ∀ ns ms' : List Ty,
      (∀ n ∈ ns, ∃ e, t.ResolvesTo config cache n (.error e) ∧ e.isInternal = false) →
      ms'.Perm (ns ++ ms) → ∀ x,
        (t.ResolvesTo config cache (.inter ms') (.ok x) ↔
          t.ResolvesTo config cache (.inter ms) (.ok x)) := by
  obtain ⟨candidates, known⟩ := exists_known t cache
  refine ⟨fun ms' same => ?_, fun ns ms' refused same x =>
    resolvesTo_inter_ok_congr known refused same⟩
  rw [← Multiset.coe_eq_coe.2 same]
  simp only [← same.mem_iff]
  refine ⟨fun rs members => ?_, fun r resolved => ⟨isInternal_inter_iff known resolved, ?_⟩⟩
  · obtain ⟨answered, rfl⟩ := (rel_resolvesTo_iff known).1 members
    exact ⟨_, resolvesTo_inter_of_members known answered, Resolution.followsFrom_ofMembers _ _⟩
  · intro fit
    obtain ⟨answered, rfl⟩ := (resolvesTo_inter_iff known fit).1 resolved
    exact ⟨_, (rel_resolvesTo_iff known).2 ⟨answered, rfl⟩, Resolution.followsFrom_ofMembers _ _⟩

/-- `String & Runnable` has the method of `Runnable`, as `String` is no interface and the order does
not matter; with a primitive type as a further member it still has. Together with a type that is
still being inferred, `Runnable` is ambiguous. -/
theorem resolve_inter_runnable :
    platform.ResolvesTo .default .empty (.inter [.cls ⟨1⟩ [], .cls ⟨14⟩ []])
        (.ok (.method runnableMethod)) ∧
      platform.ResolvesTo .default .empty (.inter [.cls ⟨1⟩ [], .prim .int, .cls ⟨14⟩ []])
        (.ok (.method runnableMethod)) ∧
      platform.ResolvesTo .default .empty (.inter [.unknown, .cls ⟨14⟩ []])
        (.error (.ambiguous (some "<unknown> & Runnable"))) := by
  have known {c : ClassId} {answer : Option (List Signature)}
      (given : (platform.candidates c).Gives answer) :
      CandidateCache.empty.Answers platform c answer :=
    CandidateCache.answers_iff.2 (.inr ⟨CandidateCache.get?_empty c, given⟩)
  have runnable : platform.ResolvesTo .default .empty (.cls ⟨14⟩ [])
      (.ok (.method runnableMethod)) :=
    resolvesTo_class (c := ⟨⟨14⟩, []⟩) (known ⟨2, [], by cbv⟩)
  have string : platform.ResolvesTo .default .empty (.cls ⟨1⟩ []) (.error .notInterface) :=
    resolvesTo_class (c := ⟨⟨1⟩, []⟩) (known ⟨0, [], rfl⟩)
  have deferred : platform.ResolvesTo .default .empty .unknown (.ok .deferred) :=
    ⟨_, 0, _, rfl⟩
  have primitive : platform.ResolvesTo .default .empty (.prim .int)
      (.error (.notFunctional (platform.display (.prim .int)))) := ⟨_, 0, _, rfl⟩
  have one : Multiset.Rel (platform.ResolvesTo .default .empty)
      ([.cls ⟨14⟩ [], .cls ⟨1⟩ []] : List Ty)
      ([.ok (.method runnableMethod), .error .notInterface] : List Resolution) :=
    .cons runnable (.cons string .zero)
  have two : Multiset.Rel (platform.ResolvesTo .default .empty)
      ([.unknown, .cls ⟨14⟩ []] : List Ty)
      ([.ok .deferred, .ok (.method runnableMethod)] : List Resolution) :=
    .cons deferred (.cons runnable .zero)
  obtain ⟨orders, -⟩ := resolve_inter platform .default .empty [.cls ⟨14⟩ [], .cls ⟨1⟩ []]
  obtain ⟨-, padded⟩ := resolve_inter platform .default .empty [.cls ⟨1⟩ [], .cls ⟨14⟩ []]
  obtain ⟨orders', -⟩ := resolve_inter platform .default .empty [.unknown, .cls ⟨14⟩ []]
  have swapped : platform.ResolvesTo .default .empty (.inter [.cls ⟨1⟩ [], .cls ⟨14⟩ []])
      (.ok (.method runnableMethod)) := by
    obtain ⟨r, resolved, follows⟩ := (orders [.cls ⟨1⟩ [], .cls ⟨14⟩ []] (.swap _ _ _)).1 _ one
    have fit : r.isInternal = false := by
      rw [← Bool.not_eq_true, follows.internal]
      simp [Resolution.isInternal, TargetError.isInternal]
    obtain rfl := follows.single fit _ rfl
    exact resolved
  refine ⟨swapped, ?_, ?_⟩
  · refine (padded [.prim .int] _ ?_ (.swap _ _ _) _).2 swapped
    exact List.forall_mem_singleton.2 ⟨_, primitive, rfl⟩
  · obtain ⟨r, resolved, follows⟩ := (orders' _ (.refl _)).1 _ two
    have fit : r.isInternal = false := by
      rw [← Bool.not_eq_true, follows.internal]
      simp [Resolution.isInternal]
    have shown : platform.display (.inter [.unknown, .cls ⟨14⟩ []]) = "<unknown> & Runnable" := by
      decide +kernel
    obtain rfl := follows.several fit (by decide)
    rw [← shown]
    exact resolved

/-- The intersection of no types is refused, and there is no member whose failure that could be. -/
theorem inter_nil_refused :
    platform.ResolvesTo .default .empty (.inter []) (.error (.notFunctional "")) ∧
      TargetError.isInternal (.notFunctional "") = false ∧
      ¬∃ m ∈ ([] : List Ty),
        platform.ResolvesTo .default .empty m (.error (.notFunctional "")) := by
  refine ⟨⟨_, 0, _, rfl⟩, rfl, ?_⟩
  rintro ⟨m, hm, -⟩
  cases hm

end ClassTable

end LambdaTyping
