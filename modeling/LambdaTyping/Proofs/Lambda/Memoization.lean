import LambdaTyping.Proofs.Lambda.Checker
import LambdaTyping.Proofs.Method.CacheRuns

/-!
# Checkers that keep candidates

A resolution asks for the candidates of the classes a type names up to the first that the table does
not hold, and from there on the candidates make no difference. So its result is the same from every
cache that keeps answers of the table, and a checker that keeps candidates replies to every sequence
of calls as one that does not.
-/

namespace LambdaTyping

namespace CandidateCache

variable {t : ClassTable} {cache : CandidateCache} {c : ClassId}
  {answer answer' : Option (List Signature)}

/-- Who asks the cache for the candidates of the class gets this answer. -/
def Answers (t : ClassTable) (cache : CandidateCache) (c : ClassId)
    (answer : Option (List Signature)) : Prop :=
  ∃ after, (cache.candidates t c).Gives (answer, after)

/-- Who is answered has asked a question that ends. -/
lemma Answers.ends (h : cache.Answers t c answer) : (cache.candidates t c).Ends := by
  obtain ⟨after, h⟩ := h
  exact ⟨(answer, after), h⟩

/-- A cache gives at most one answer for a class. -/
lemma Answers.unique (h : cache.Answers t c answer) (h' : cache.Answers t c answer') :
    answer = answer' := by
  obtain ⟨after, h⟩ := h
  obtain ⟨after', h'⟩ := h'
  exact (Prod.mk.inj (h.unique h')).1

/-- An answer is the one kept for the class, or that of the table where none is kept. -/
lemma answers_iff : cache.Answers t c answer ↔
    cache.get? c = some answer ∨ cache.get? c = none ∧ (t.candidates c).Gives answer := by
  constructor
  · rintro ⟨after, h⟩
    rcases gives_candidates_iff.1 h with ⟨kept, -⟩ | ⟨new, given, -⟩
    · exact .inl kept
    · exact .inr ⟨new, given⟩
  · rintro (kept | ⟨new, given⟩)
    · exact ⟨_, gives_candidates_iff.2 (.inl ⟨kept, rfl⟩)⟩
    · exact ⟨_, gives_candidates_iff.2 (.inr ⟨new, given, rfl⟩)⟩

/-- What is kept for a class is the answer. -/
lemma answers_of_get?_eq_some (h : cache.get? c = some answer) : cache.Answers t c answer :=
  answers_iff.2 (.inl h)

/-- Asking a cache ends where asking the table does. -/
lemma candidates_ends (cache : CandidateCache) (h : (t.candidates c).Ends) :
    (cache.candidates t c).Ends := by
  obtain ⟨answer, given⟩ := h
  cases kept : cache.get? c with
  | some known => exact (answers_of_get?_eq_some kept).ends
  | none => exact (answers_iff.2 (.inr ⟨kept, given⟩)).ends

/-- A question changes no answer of the cache. -/
lemma answers_after {found : Option (List Signature)} {next : CandidateCache} {e : ClassId}
    (h : (cache.candidates t c).Gives (found, next)) :
    next.Answers t e answer ↔ cache.Answers t e answer := by
  rcases gives_candidates_iff.1 h with ⟨-, rfl⟩ | ⟨new, -, rfl⟩
  · rfl
  · by_cases same : c = e
    · subst same
      have kept : (cache.insert c found).Answers t c found := by
        apply answers_of_get?_eq_some
        rw [get?_insert, if_pos rfl]
      have given : cache.Answers t c found := ⟨_, h⟩
      constructor
      · intro other
        rwa [← kept.unique other]
      · intro other
        rwa [← given.unique other]
    · rw [answers_iff, answers_iff, get?_insert, if_neg same]

end CandidateCache

namespace ClassTable

variable {t : ClassTable} {config config' : Config}

/-- The class types whose candidates a resolution asks for. -/
def lookedUp (t : ClassTable) (cs : List ClassTy) : List ClassTy :=
  cs.takeWhile fun c => t.declares c.head

section Collect

variable {cs : List ClassTy} {cache cache' after : CandidateCache}

/-- A class that the table holds is looked up before the rest. -/
lemma lookedUp_cons {c : ClassTy} {d : ClassDecl} (hd : t.class? c.head = some d) :
    t.lookedUp (c :: cs) = c :: t.lookedUp cs := by
  rw [lookedUp, List.takeWhile_cons_of_pos]
  · rfl
  · simp [declares, hd]

/-- Nothing is looked up from a class on that the table lacks. -/
lemma lookedUp_cons_of_undeclared {c : ClassTy} (hc : t.class? c.head = none) :
    t.lookedUp (c :: cs) = [] := by
  rw [lookedUp, List.takeWhile_cons_of_neg]
  simp [declares, hc]

/-- After a collection the cache keeps an answer for each class asked for, and what it kept before.
-/
lemma kept_of_collectCandidates (h : (t.collectCandidates config cs cache).Gives after) :
    (∀ c answer, cache.get? c = some answer → after.get? c = some answer) ∧
      ∀ c ∈ t.lookedUp cs, (after.get? c.head).isSome = true := by
  induction cs generalizing cache with
  | nil =>
    obtain rfl := Query.gives_pure_iff.1 h
    exact ⟨fun _ _ kept => kept, List.forall_mem_nil _⟩
  | cons c cs ih =>
    rw [collectCandidates] at h
    split at h
    · rename_i hc
      obtain ⟨_, _, h⟩ := Query.gives_bind_iff.1 h
      obtain rfl := Query.gives_pure_iff.1 h
      rw [lookedUp_cons_of_undeclared hc]
      exact ⟨fun _ _ kept => kept, List.forall_mem_nil _⟩
    · rename_i d hd
      obtain ⟨_, _, h⟩ := Query.gives_bind_iff.1 h
      obtain ⟨⟨answer, next⟩, found, h⟩ := Query.gives_bind_iff.1 h
      obtain ⟨_, _, h⟩ := Query.gives_bind_iff.1 h
      obtain ⟨kept, asked⟩ := ih h
      rw [lookedUp_cons hd, List.forall_mem_cons]
      -- What has been kept stays, and an answer is put in for a class without one only.
      rcases CandidateCache.gives_candidates_iff.1 found with ⟨here, rfl⟩ | ⟨new, -, rfl⟩
      · refine ⟨kept, ?_, asked⟩
        rw [kept _ _ here]
        rfl
      · refine ⟨fun e known he => kept e known ?_, ?_, asked⟩
        · rw [CandidateCache.get?_insert, if_neg, he]
          rintro rfl
          rw [new] at he
          cases he
        · rw [kept c.head answer]
          · rfl
          · rw [CandidateCache.get?_insert, if_pos rfl]

/-- A collection ends if every question it asks of the cache it starts with does. -/
lemma collectCandidates_ends (config : Config)
    (h : ∀ c ∈ t.lookedUp cs, (cache.candidates t c.head).Ends) :
    (t.collectCandidates config cs cache).Ends := by
  induction cs generalizing cache with
  | nil => exact Query.ends_pure cache
  | cons c cs ih =>
    rw [collectCandidates]
    split
    · exact Query.Ends.bind ⟨(), Query.gives_report_iff.2 trivial⟩ fun _ _ => Query.ends_pure cache
    · rename_i d hd
      rw [lookedUp_cons hd, List.forall_mem_cons] at h
      obtain ⟨here, others⟩ := h
      refine Query.Ends.bind ⟨(), Query.gives_report_iff.2 trivial⟩ fun _ _ => ?_
      refine here.bind fun found asked => ?_
      obtain ⟨found, next⟩ := found
      refine Query.Ends.bind ⟨(), Query.gives_report_iff.2 trivial⟩ fun _ _ => ih fun e he => ?_
      obtain ⟨⟨answer, after⟩, given⟩ := others e he
      exact ((CandidateCache.answers_after asked).2 ⟨after, given⟩).ends

/-- A collection changes no answer of the cache. -/
lemma answers_collected (h : (t.collectCandidates config cs cache).Gives after) {e : ClassId}
    {answer : Option (List Signature)} : after.Answers t e answer ↔ cache.Answers t e answer := by
  induction cs generalizing cache with
  | nil =>
    obtain rfl := Query.gives_pure_iff.1 h
    rfl
  | cons c cs ih =>
    rw [collectCandidates] at h
    split at h
    · obtain ⟨_, _, h⟩ := Query.gives_bind_iff.1 h
      obtain rfl := Query.gives_pure_iff.1 h
      rfl
    · obtain ⟨_, _, h⟩ := Query.gives_bind_iff.1 h
      obtain ⟨⟨found, next⟩, asked, h⟩ := Query.gives_bind_iff.1 h
      obtain ⟨_, _, h⟩ := Query.gives_bind_iff.1 h
      rw [ih h, CandidateCache.answers_after asked]

/-- Collections from two caches that keep answers of the table keep the same answers in the end. -/
lemma exists_collectCandidates (config' : Config) (fresh : cache.Fresh t) (fresh' : cache'.Fresh t)
    (h : (t.collectCandidates config cs cache).Gives after) :
    ∃ after', (t.collectCandidates config' cs cache').Gives after' ∧
      ∀ c ∈ t.lookedUp cs, after'.get? c.head = after.get? c.head := by
  have given : ∀ c ∈ t.lookedUp cs, ∃ answer, after.get? c.head = some answer ∧
      (t.candidates c.head).Gives answer := by
    intro c hc
    obtain ⟨answer, kept⟩ := Option.isSome_iff_exists.1 ((kept_of_collectCandidates h).2 c hc)
    exact ⟨answer, kept, fresh_of_collectCandidates fresh h _ _ kept⟩
  obtain ⟨after', h'⟩ := collectCandidates_ends config' fun c hc => by
    obtain ⟨answer, -, given⟩ := given c hc
    exact CandidateCache.candidates_ends cache' ⟨answer, given⟩
  refine ⟨after', h', fun c hc => ?_⟩
  obtain ⟨answer, kept, given⟩ := given c hc
  obtain ⟨answer', kept'⟩ := Option.isSome_iff_exists.1 ((kept_of_collectCandidates h').2 c hc)
  have given' := fresh_of_collectCandidates fresh' h' _ _ kept'
  rw [kept, kept', given.unique given']

end Collect

section Resolve

variable {candidates candidates' : ClassId → Option (List Signature)} {ty : Ty}

/-- Resolutions with the same first internal failure, if any, come to the same. -/
lemma ofMembers_congr {shown : String} {rs rs' : List Resolution}
    (h : rs' = rs ∨ ∃ r, rs.find? Resolution.isInternal = some r ∧
      rs'.find? Resolution.isInternal = some r) :
    Resolution.ofMembers shown rs' = Resolution.ofMembers shown rs := by
  rcases h with rfl | ⟨r, found, found'⟩
  · rfl
  · rw [Resolution.ofMembers, Resolution.ofMembers, found, found']

/-- If the resolutions of members depend only on the candidates asked for, so does what decides
among them: they agree from the first on, or as far as the first internal failure. -/
lemma resolveAllWith_congr {ms : List Ty}
    (each : ∀ m ∈ ms, (∀ c ∈ t.lookedUp m.targetClasses, candidates' c.head = candidates c.head) →
      t.resolveWith config' candidates' m = t.resolveWith config candidates m)
    (h : ∀ c ∈ t.lookedUp (Ty.targetClassesOf ms), candidates' c.head = candidates c.head) :
    t.resolveAllWith config' candidates' ms = t.resolveAllWith config candidates ms ∨
      ∃ r, (t.resolveAllWith config candidates ms).find? Resolution.isInternal = some r ∧
        (t.resolveAllWith config' candidates' ms).find? Resolution.isInternal = some r := by
  induction ms with
  | nil => exact .inl rfl
  | cons m ms ih =>
    obtain ⟨first, others⟩ := List.forall_mem_cons.1 each
    rw [Ty.targetClassesOf, lookedUp] at h
    have head : t.resolveWith config' candidates' m = t.resolveWith config candidates m := by
      refine first fun c hc => h c ?_
      rw [List.takeWhile_append]
      split
      · exact List.mem_append_left _ (List.takeWhile_subset _ hc)
      · exact hc
    rw [resolveAllWith, resolveAllWith, head]
    -- A member with an internal error decides the outcome, whatever is kept for later members.
    cases internal : (t.resolveWith config candidates m).isInternal with
    | true => exact .inr ⟨_, List.find?_cons_of_pos internal, List.find?_cons_of_pos internal⟩
    | false =>
      have all : ∀ c ∈ m.targetClasses, t.declares c.head = true := by
        intro c hc
        by_contra undeclared
        have failed : (t.resolveWith config candidates m).isInternal = true :=
          isInternal_resolveWith_iff.2 ⟨c, hc, by simpa [declares] using undeclared⟩
        rw [internal] at failed
        cases failed
      rw [List.takeWhile_append_of_pos all] at h
      rcases ih others fun c hc => h c (List.mem_append_right _ hc) with same | ⟨r, found, found'⟩
      · exact .inl (by rw [same])
      · refine .inr ⟨r, ?_, ?_⟩
        · rw [List.find?_cons_of_neg (by simp [internal]), found]
        · rw [List.find?_cons_of_neg (by simp [internal]), found']

/-- The result of a resolution depends only on the candidates it asks for. -/
lemma resolveWith_congr (report : config'.reportUnresolved = config.reportUnresolved)
    (h : ∀ c ∈ t.lookedUp ty.targetClasses, candidates' c.head = candidates c.head) :
    t.resolveWith config' candidates' ty = t.resolveWith config candidates ty := by
  induction ty using Ty.rec_members with
  | cls c args =>
    rw [resolveWith, resolveWith, resolveClass, resolveClass]
    cases hd : t.class? c with
    | none => rfl
    | some d =>
      have same : candidates' c = candidates c := by
        refine h ⟨c, args⟩ ?_
        rw [Ty.targetClasses, lookedUp_cons hd]
        exact List.mem_cons_self
      simp only [same, report]
  | wildExtends b ih => exact ih h
  | inter ms ih =>
    rw [resolveWith, resolveWith]
    exact ofMembers_congr (resolveAllWith_congr ih h)
  | _ => rfl

/-- From every cache that keeps answers of the table a type is resolved alike. -/
lemma exists_resolve {cache cache' after : CandidateCache} {result : Resolution}
    (report : config'.reportUnresolved = config.reportUnresolved) (fresh : cache.Fresh t)
    (fresh' : cache'.Fresh t) (h : (t.resolve config cache ty).Gives (result, after)) :
    after.Fresh t ∧ ∃ after', (t.resolve config' cache' ty).Gives (result, after') ∧
      after'.Fresh t := by
  obtain ⟨kept, collected, h⟩ := Query.gives_bind_iff.1 h
  obtain ⟨_, _, h⟩ := Query.gives_bind_iff.1 h
  cases Query.gives_pure_iff.1 h
  obtain ⟨kept', collected', agree⟩ := exists_collectCandidates config' fresh fresh' collected
  refine ⟨fresh_of_collectCandidates fresh collected, kept', ?_,
    fresh_of_collectCandidates fresh' collected'⟩
  refine Query.gives_bind_iff.2 ⟨kept', collected', ?_⟩
  refine Query.gives_bind_iff.2 ⟨(), Query.gives_report_iff.2 trivial, ?_⟩
  have same : t.resolveWith config' (fun c => (kept'.get? c).join) ty =
      t.resolveWith config (fun c => (after.get? c).join) ty :=
    resolveWith_congr report fun c hc => congrArg Option.join (agree c hc)
  rw [same]
  exact Query.gives_pure_iff.2 rfl

end Resolve

end ClassTable

/-- A call of a checker. -/
inductive CheckerCall where
  | check (target : Ty) (l : Lambda) (typing : ExprTyping) (span : Option Span)
  | resolve (target : Ty)
  | invalidate

/-- What a checker returns from a call. -/
inductive CheckerReply where
  | diagnostics (ds : List Diagnostic)
  | resolution (r : Resolution)
  | done

namespace Checker

/-- The reply of the checker to a call, and the checker after it. -/
def reply (checker : Checker) (t : ClassTable) : CheckerCall → Query (CheckerReply × Checker)
  | .check target l typing span => do
    let (ds, checker) ← checker.check t target l typing span
    return (.diagnostics ds, checker)
  | .resolve target => do
    let (r, checker) ← checker.resolve t target
    return (.resolution r, checker)
  | .invalidate => return (.done, checker.invalidate)

/-- The replies of the checker to a sequence of calls. -/
def replies (t : ClassTable) : List CheckerCall → Checker → Query (List CheckerReply)
  | [], _ => return []
  | call :: calls, checker => do
    let (first, checker) ← checker.reply t call
    return first :: (← replies t calls checker)

/-- The checkers word and report alike, and what they keep is right for the table. -/
structure Agree (t : ClassTable) (checker checker' : Checker) : Prop where
  message : checker'.config.notInterfaceMessage = checker.config.notInterfaceMessage
  report : checker'.config.reportUnresolved = checker.config.reportUnresolved
  fresh : (checker.cache.getD .empty).Fresh t
  fresh' : (checker'.cache.getD .empty).Fresh t

variable {t : ClassTable} {checker checker' : Checker}

/-- A checker that takes the place of its cache, if it has one, by a right cache keeps right
answers. -/
lemma fresh_getD_map {cache : Option CandidateCache} {after : CandidateCache}
    (fresh : after.Fresh t) : ((cache.map fun _ => after).getD .empty).Fresh t := by
  cases cache with
  | none => exact CandidateCache.fresh_empty t
  | some kept => exact fresh

/-- A checker starts out with nothing kept. -/
lemma fresh_ofConfig (config : Config) : ((ofConfig config).cache.getD .empty).Fresh t := by
  rw [ofConfig]
  split
  · exact CandidateCache.fresh_empty t
  · exact CandidateCache.fresh_empty t

/-- Two new checkers with the same wording agree, whether they keep candidates or not. -/
lemma agree_ofConfig {config config' : Config}
    (message : config'.notInterfaceMessage = config.notInterfaceMessage)
    (report : config'.reportUnresolved = config.reportUnresolved) :
    Agree t (ofConfig config) (ofConfig config') :=
  ⟨message, report, fresh_ofConfig config, fresh_ofConfig config'⟩

namespace Agree

variable (h : Agree t checker checker')

include h

/-- Agreeing checkers resolve a target alike and agree afterwards. -/
lemma resolve {target : Ty} {r : Resolution} {after : Checker}
    (given : (checker.resolve t target).Gives (r, after)) :
    ∃ after', (checker'.resolve t target).Gives (r, after') ∧ Agree t after after' := by
  obtain ⟨⟨result, kept⟩, resolved, given⟩ := Query.gives_bind_iff.1 given
  cases Query.gives_pure_iff.1 given
  obtain ⟨fresh, kept', resolved', fresh'⟩ :=
    ClassTable.exists_resolve h.report h.fresh h.fresh' resolved
  refine ⟨_, Query.gives_bind_iff.2 ⟨_, resolved', Query.gives_pure_iff.2 rfl⟩, ?_⟩
  exact ⟨h.message, h.report, fresh_getD_map fresh, fresh_getD_map fresh'⟩

/-- Agreeing checkers word an error alike. -/
lemma message_eq (e : TargetError) : e.message checker'.config = e.message checker.config := by
  cases e with
  | notInterface => exact h.message
  | ambiguous inType => cases inType <;> rfl
  | _ => rfl

/-- Agreeing checkers report the same about a lambda and agree afterwards. -/
lemma check {target : Ty} {l : Lambda} {typing : ExprTyping} {span : Option Span}
    {ds : List Diagnostic} {after : Checker}
    (given : (checker.check t target l typing span).Gives (ds, after)) :
    ∃ after', (checker'.check t target l typing span).Gives (ds, after') ∧
      Agree t after after' := by
  obtain ⟨⟨result, next⟩, resolved, -⟩ := Query.gives_bind_iff.1 given
  obtain ⟨next', resolved', agree⟩ := h.resolve resolved
  refine ⟨next', ?_⟩
  cases result with
  | ok target =>
    cases target with
    | deferred =>
      obtain ⟨rfl, rfl⟩ := (gives_check_deferred_iff resolved).1 given
      exact ⟨(gives_check_deferred_iff resolved').2 ⟨rfl, rfl⟩, agree⟩
    | method m =>
      obtain ⟨checked, rfl⟩ := (gives_check_iff resolved).1 given
      exact ⟨(gives_check_iff resolved').2 ⟨checked, rfl⟩, agree⟩
  | error e =>
    obtain ⟨rfl, rfl⟩ := (gives_check_error_iff resolved).1 given
    refine ⟨(gives_check_error_iff resolved').2 ⟨?_, rfl⟩, agree⟩
    rw [agree.message_eq]

/-- Agreeing checkers reply alike to a call and agree afterwards. -/
lemma reply {call : CheckerCall} {answer : CheckerReply} {after : Checker}
    (given : (checker.reply t call).Gives (answer, after)) :
    ∃ after', (checker'.reply t call).Gives (answer, after') ∧ Agree t after after' := by
  cases call with
  | check target l typing span =>
    obtain ⟨⟨ds, next⟩, checked, given⟩ := Query.gives_bind_iff.1 given
    cases Query.gives_pure_iff.1 given
    obtain ⟨next', checked', agree⟩ := h.check checked
    exact ⟨next', Query.gives_bind_iff.2 ⟨_, checked', Query.gives_pure_iff.2 rfl⟩, agree⟩
  | resolve target =>
    obtain ⟨⟨r, next⟩, resolved, given⟩ := Query.gives_bind_iff.1 given
    cases Query.gives_pure_iff.1 given
    obtain ⟨next', resolved', agree⟩ := h.resolve resolved
    exact ⟨next', Query.gives_bind_iff.2 ⟨_, resolved', Query.gives_pure_iff.2 rfl⟩, agree⟩
  | invalidate =>
    cases Query.gives_pure_iff.1 given
    have empty := CandidateCache.fresh_empty t
    refine ⟨_, Query.gives_pure_iff.2 rfl, ?_⟩
    exact ⟨h.message, h.report, fresh_getD_map empty, fresh_getD_map empty⟩

/-- Agreeing checkers reply alike to every sequence of calls, by induction on the calls. -/
lemma replies {calls : List CheckerCall} {answers : List CheckerReply}
    (given : (checker.replies t calls).Gives answers) :
    (checker'.replies t calls).Gives answers := by
  induction calls generalizing checker checker' answers with
  | nil => exact given
  | cons call calls ih =>
    obtain ⟨⟨first, next⟩, hfirst, given⟩ := Query.gives_bind_iff.1 given
    obtain ⟨rest, hrest, given⟩ := Query.gives_bind_iff.1 given
    obtain ⟨next', hfirst', agree⟩ := h.reply hfirst
    exact Query.gives_bind_iff.2 ⟨_, hfirst', Query.gives_bind_iff.2 ⟨rest, ih agree hrest, given⟩⟩

end Agree

/-- Keeping candidates never shows. In a run of edits, questions and clears each answer is the one
of the table as it stood when its class was first asked for since the last clear, and the cache is
as large as there are classes asked for since then; and on one table a checker that keeps candidates
replies to every sequence of calls as one that does not. -/
theorem keeping_candidates_transparent (t : ClassTable) :
    (∀ steps r, (CacheRun.run t steps).Gives r →
      r.cache.size = (CacheStep.asked steps).toFinset.card ∧
      ∀ c, ∃ past, CacheStep.AsksFirst (steps ++ [.ask c]) c past ∧ ∀ answer,
        (∃ r', (CacheRun.run t (steps ++ [.ask c])).Gives r' ∧
            r'.answers = r.answers ++ [answer]) ↔
          ((CacheStep.tableAfter t past).candidates c).Gives answer) ∧
    ∀ (config : Config) calls answers,
      ((ofConfig { config with memoizeCandidates := true }).replies t calls).Gives answers ↔
        ((ofConfig { config with memoizeCandidates := false }).replies t calls).Gives answers := by
  refine ⟨fun steps r hr => ⟨CacheRun.size_of_run hr, CacheRun.exists_asksFirst hr⟩, ?_⟩
  intro config calls answers
  constructor
  · intro given
    have agree : Agree t (ofConfig { config with memoizeCandidates := true })
        (ofConfig { config with memoizeCandidates := false }) := agree_ofConfig rfl rfl
    exact agree.replies given
  · intro given
    have agree : Agree t (ofConfig { config with memoizeCandidates := false })
        (ofConfig { config with memoizeCandidates := true }) := agree_ofConfig rfl rfl
    exact agree.replies given

end Checker

end LambdaTyping
