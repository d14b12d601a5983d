import LambdaTyping.Proofs.Query
import LambdaTyping.Proofs.Table.Editing
import LambdaTyping.Proofs.Target.Resolution
import Mathlib.Data.Finset.Card
import Mathlib.Data.List.Induction

/-!
# Runs with a candidate cache

A run edits the table, asks for the candidates of classes and empties the cache, in any order. An
answer is the one of the table as it stood when its class was first asked for since the cache was
last emptied (`exists_asksFirst`), and the cache keeps one answer for each class asked for since
then (`size_of_run`).
-/

namespace LambdaTyping

/-- A step of a run with a cache. -/
inductive CacheStep where
  | edit (e : TableEdit)
  | ask (c : ClassId)
  | clear

/-- A run with a cache: the table and the cache it has come to, and the answers given so far. -/
structure CacheRun where
  table : ClassTable
  cache : CandidateCache
  answers : List (Option (List Signature))

namespace CandidateCache

variable {t : ClassTable} {cache cache' : CandidateCache} {c : ClassId}
  {answer : Option (List Signature)}

/-- An empty cache keeps nothing. -/
lemma get?_empty (c : ClassId) : empty.get? c = none := by
  simp [empty, get?]

/-- The candidates of a class come from the cache, or else from the table and are kept. -/
lemma gives_candidates_iff :
    (cache.candidates t c).Gives (answer, cache') ↔
      (cache.get? c = some answer ∧ cache' = cache) ∨
      (cache.get? c = none ∧ (t.candidates c).Gives answer ∧ cache' = cache.insert c answer) := by
  unfold candidates
  cases kept : cache.get? c with
  | some found => simp [eq_comm]
  | none => simp [Query.gives_bind_iff, eq_comm]

/-- A cache grows by one with an answer for a class that is new to it. -/
lemma size_insert (new : cache.get? c = none) (answer : Option (List Signature)) :
    (cache.insert c answer).size = cache.size + 1 := by
  have absent : c ∉ cache.entries := by
    rw [Std.TreeMap.mem_iff_isSome_getElem?]
    simp [show cache.entries[c]? = none from new]
  rw [size, insert, Std.TreeMap.size_insert, if_neg (by simpa using absent)]
  rfl

end CandidateCache

namespace CacheRun

/-- A run that is about to start. -/
def start (t : ClassTable) : CacheRun := ⟨t, .empty, []⟩

/-- The run taken one step further. -/
def step (r : CacheRun) : CacheStep → Query CacheRun
  | .edit e => return { r with table := r.table.edit e }
  | .clear => return { r with cache := .empty }
  | .ask c => do
    let (answer, cache) ← r.cache.candidates r.table c
    return { r with cache := cache, answers := r.answers ++ [answer] }

/-- The run through these steps. -/
def run (t : ClassTable) (steps : List CacheStep) : Query CacheRun :=
  steps.foldlM step (start t)

end CacheRun

namespace CacheStep

/-- The steps since the cache was last emptied. -/
def sinceClear (steps : List CacheStep) : List CacheStep :=
  steps.foldl (fun recent s => match s with | .clear => [] | s => recent ++ [s]) []

/-- The class that a step asks for. -/
def asked? : CacheStep → Option ClassId
  | .ask c => some c
  | .edit _ | .clear => none

/-- The classes asked for since the cache was last emptied. -/
def asked (steps : List CacheStep) : List ClassId :=
  (sinceClear steps).filterMap asked?

/-- Among the steps the class is asked for after those of `past`, for the first time since the cache
was last emptied. -/
def AsksFirst (steps : List CacheStep) (c : ClassId) (past : List CacheStep) : Prop :=
  ∃ later, steps = past ++ .ask c :: later ∧ .clear ∉ later ∧ c ∉ asked past

/-- The table after the step, which changes it only by an edit. -/
def after (t : ClassTable) : CacheStep → ClassTable
  | .edit e => t.edit e
  | .ask _ | .clear => t

/-- The table after the steps. -/
def tableAfter (t : ClassTable) (steps : List CacheStep) : ClassTable :=
  steps.foldl after t

/-- The table after one step more is what that step makes of it. -/
lemma tableAfter_concat (t : ClassTable) (steps : List CacheStep) (s : CacheStep) :
    tableAfter t (steps ++ [s]) = after (tableAfter t steps) s := by
  rw [tableAfter, List.foldl_append]
  rfl

/-- Nothing has been asked since a cache was just emptied. -/
lemma asked_clear (steps : List CacheStep) : asked (steps ++ [.clear]) = [] := by
  rw [asked, sinceClear, List.foldl_append]
  rfl

/-- An edit asks for no class. -/
lemma asked_edit (steps : List CacheStep) (e : TableEdit) :
    asked (steps ++ [.edit e]) = asked steps := by
  rw [asked, sinceClear, List.foldl_append, asked, ← sinceClear]
  simp [asked?]

/-- A question adds its class to those asked for. -/
lemma asked_ask (steps : List CacheStep) (c : ClassId) :
    asked (steps ++ [.ask c]) = asked steps ++ [c] := by
  rw [asked, sinceClear, List.foldl_append, asked, ← sinceClear]
  simp [asked?]

/-- What was asked first stays so until the cache is emptied. -/
lemma AsksFirst.concat {steps past : List CacheStep} {c : ClassId} {s : CacheStep}
    (h : AsksFirst steps c past) (keeps : s ≠ .clear) : AsksFirst (steps ++ [s]) c past := by
  obtain ⟨later, rfl, kept, new⟩ := h
  refine ⟨later ++ [s], by simp, ?_, new⟩
  intro cleared
  rcases List.mem_append.1 cleared with before | last
  · exact kept before
  · exact keeps (List.mem_singleton.1 last).symm

/-- A class not asked for is asked for first by the next question. -/
lemma asksFirst_of_notMem {steps : List CacheStep} {c : ClassId} (new : c ∉ asked steps) :
    AsksFirst (steps ++ [.ask c]) c steps :=
  ⟨[], rfl, List.not_mem_nil, new⟩

end CacheStep

namespace CacheRun

open CacheStep

variable {t : ClassTable} {steps : List CacheStep}

/-- The cache keeps an answer exactly for the classes asked for since it was last emptied, and the
answer is the one of the table at the first time. -/
structure Recorded (t : ClassTable) (steps : List CacheStep) (r : CacheRun) : Prop where
  table : r.table = tableAfter t steps
  size : r.cache.size = (asked steps).toFinset.card
  isSome : ∀ c, (r.cache.get? c).isSome = true ↔ c ∈ asked steps
  answer : ∀ c answer, r.cache.get? c = some answer →
    ∃ past, AsksFirst steps c past ∧ ((tableAfter t past).candidates c).Gives answer

/-- A run with one step more is the run before it and then that step. -/
lemma gives_run_concat_iff {s : CacheStep} {r' : CacheRun} :
    (run t (steps ++ [s])).Gives r' ↔ ∃ r, (run t steps).Gives r ∧ (r.step s).Gives r' := by
  rw [run, run]
  generalize start t = first
  induction steps generalizing first with
  | nil =>
    rw [List.nil_append, List.foldlM_cons, List.foldlM_nil, Query.gives_bind_iff]
    simp
  | cons s' steps ih =>
    simp only [List.cons_append, List.foldlM_cons, Query.gives_bind_iff, ih]
    constructor
    · rintro ⟨next, hnext, r, hr, last⟩
      exact ⟨r, ⟨next, hnext, hr⟩, last⟩
    · rintro ⟨r, ⟨next, hnext, hr⟩, last⟩
      exact ⟨next, hnext, r, hr, last⟩

/-- What the cache answers is all that a question adds to a run. -/
lemma gives_ask_iff {r r' : CacheRun} {c : ClassId} :
    (r.step (.ask c)).Gives r' ↔
      ∃ answer cache, (r.cache.candidates r.table c).Gives (answer, cache) ∧
        r' = { r with cache := cache, answers := r.answers ++ [answer] } := by
  rw [step, Query.gives_bind_iff, Prod.exists]
  simp only [Query.gives_pure_iff, eq_comm]

/-- At its start a run has nothing recorded. -/
lemma recorded_start : (start t).Recorded t [] where
  table := rfl
  size := rfl
  isSome c := by simp [start, CandidateCache.get?_empty, asked, sinceClear]
  answer c answer h := by
    rw [start, CandidateCache.get?_empty] at h
    cases h

namespace Recorded

variable {r r' : CacheRun} (h : r.Recorded t steps)

include h

/-- An edit changes the table and leaves the record as it is. -/
lemma edit (e : TableEdit) :
    Recorded t (steps ++ [.edit e]) { r with table := r.table.edit e } where
  table := by
    rw [tableAfter_concat, ← h.table]
    rfl
  size := by rw [asked_edit, h.size]
  isSome c := by rw [asked_edit, h.isSome]
  answer c answer kept := by
    obtain ⟨past, first, given⟩ := h.answer c answer kept
    exact ⟨past, first.concat nofun, given⟩

/-- Emptying the cache empties the record. -/
lemma clear : Recorded t (steps ++ [.clear]) { r with cache := .empty } where
  table := by
    rw [tableAfter_concat, ← h.table]
    rfl
  size := by
    rw [asked_clear]
    rfl
  isSome c := by simp [asked_clear, CandidateCache.get?_empty]
  answer c answer kept := by
    rw [CandidateCache.get?_empty] at kept
    cases kept

/-- An answer that is kept changes nothing but the list of answers. -/
lemma ask_kept {c : ClassId} {answer : Option (List Signature)}
    (kept : r.cache.get? c = some answer) :
    Recorded t (steps ++ [.ask c]) { r with answers := r.answers ++ [answer] } where
  table := by
    rw [tableAfter_concat, ← h.table]
    rfl
  size := by
    have known : c ∈ asked steps := (h.isSome c).1 (by rw [kept]; rfl)
    rw [asked_ask, h.size, List.toFinset_append, Finset.union_eq_left.2]
    simpa using known
  isSome e := by
    have known : c ∈ asked steps := (h.isSome c).1 (by rw [kept]; rfl)
    rw [asked_ask, h.isSome, List.mem_append, List.mem_singleton, or_iff_left_of_imp]
    rintro rfl
    exact known
  answer e answer found := by
    obtain ⟨past, first, given⟩ := h.answer e answer found
    exact ⟨past, first.concat nofun, given⟩

/-- An answer that is not kept is the one of the table as it stands, and is kept from then on. -/
lemma ask_new {c : ClassId} {answer : Option (List Signature)} (new : r.cache.get? c = none)
    (given : (r.table.candidates c).Gives answer) :
    Recorded t (steps ++ [.ask c])
      { r with cache := r.cache.insert c answer, answers := r.answers ++ [answer] } where
  table := by
    rw [tableAfter_concat, ← h.table]
    rfl
  size := by
    have unknown : c ∉ (asked steps).toFinset := by
      rw [List.mem_toFinset, ← h.isSome, new]
      exact Bool.false_ne_true
    rw [asked_ask, CandidateCache.size_insert new, h.size, List.toFinset_append,
      List.toFinset_cons, List.toFinset_nil, Finset.union_insert, Finset.union_empty,
      Finset.card_insert_of_notMem unknown]
  isSome e := by
    rw [asked_ask, CandidateCache.get?_insert, List.mem_append, List.mem_singleton, ← h.isSome]
    split
    · rename_i same
      exact iff_of_true rfl (.inr same.symm)
    · rename_i other
      rw [or_iff_left (Ne.symm other)]
  answer e found kept := by
    rw [CandidateCache.get?_insert] at kept
    split at kept
    · rename_i same
      cases kept
      subst same
      have unknown : c ∉ asked steps := by
        rw [← h.isSome, new]
        exact Bool.false_ne_true
      rw [h.table] at given
      exact ⟨steps, asksFirst_of_notMem unknown, given⟩
    · obtain ⟨past, first, given⟩ := h.answer e found kept
      exact ⟨past, first.concat nofun, given⟩

/-- Each step of a run keeps its record right. -/
lemma step {s : CacheStep} (next : (r.step s).Gives r') : r'.Recorded t (steps ++ [s]) := by
  cases s with
  | edit e =>
    obtain rfl := Query.gives_pure_iff.1 next
    exact h.edit e
  | clear =>
    obtain rfl := Query.gives_pure_iff.1 next
    exact h.clear
  | ask c =>
    obtain ⟨answer, cache, found, rfl⟩ := gives_ask_iff.1 next
    rcases CandidateCache.gives_candidates_iff.1 found with ⟨kept, rfl⟩ | ⟨new, given, rfl⟩
    · exact h.ask_kept kept
    · exact h.ask_new new given

end Recorded

/-- After every run the cache is as recorded. -/
lemma recorded_of_run {r : CacheRun} (h : (run t steps).Gives r) : r.Recorded t steps := by
  induction steps using List.reverseRecOn generalizing r with
  | nil =>
    obtain rfl := Query.gives_pure_iff.1 h
    exact recorded_start
  | append_singleton steps s ih =>
    obtain ⟨before, hbefore, next⟩ := gives_run_concat_iff.1 h
    exact (ih hbefore).step next

/-- For how many classes an answer is kept. -/
lemma size_of_run {r : CacheRun} (h : (run t steps).Gives r) :
    r.cache.size = (asked steps).toFinset.card :=
  (recorded_of_run h).size

/-- The next answer of a run is the one of the table as it stood when the class was first asked for
since the cache was last emptied. -/
lemma exists_asksFirst {r : CacheRun} (hr : (run t steps).Gives r) (c : ClassId) :
    ∃ past, AsksFirst (steps ++ [.ask c]) c past ∧ ∀ answer,
      (∃ r', (run t (steps ++ [.ask c])).Gives r' ∧ r'.answers = r.answers ++ [answer]) ↔
        ((tableAfter t past).candidates c).Gives answer := by
  have h := recorded_of_run hr
  -- The last answer is what the cache that the run has come to gives.
  have last (answer : Option (List Signature)) :
      (∃ r', (run t (steps ++ [.ask c])).Gives r' ∧ r'.answers = r.answers ++ [answer]) ↔
        ∃ cache, (r.cache.candidates r.table c).Gives (answer, cache) := by
    constructor
    · rintro ⟨r', run', same⟩
      obtain ⟨r₁, hr₁, next⟩ := gives_run_concat_iff.1 run'
      obtain rfl := hr₁.unique hr
      obtain ⟨found, cache, hfound, rfl⟩ := gives_ask_iff.1 next
      obtain rfl : found = answer := by simpa using same
      exact ⟨cache, hfound⟩
    · rintro ⟨cache, hfound⟩
      exact ⟨_, gives_run_concat_iff.2 ⟨r, hr, gives_ask_iff.2 ⟨answer, cache, hfound, rfl⟩⟩, rfl⟩
  -- Either the class has been asked for since the cache was emptied, or this is the first time.
  cases kept : r.cache.get? c with
  | some found =>
    obtain ⟨past, first, given⟩ := h.answer c found kept
    refine ⟨past, first.concat nofun, fun answer => (last answer).trans ⟨?_, ?_⟩⟩
    · rintro ⟨cache, hcache⟩
      rcases CandidateCache.gives_candidates_iff.1 hcache with ⟨here, -⟩ | ⟨none, -⟩
      · rw [kept] at here
        cases here
        exact given
      · rw [kept] at none
        cases none
    · intro other
      obtain rfl := given.unique other
      exact ⟨r.cache, CandidateCache.gives_candidates_iff.2 (.inl ⟨kept, rfl⟩)⟩
  | none =>
    have unknown : c ∉ asked steps := by
      rw [← h.isSome, kept]
      exact Bool.false_ne_true
    refine ⟨steps, asksFirst_of_notMem unknown, fun answer => (last answer).trans ?_⟩
    rw [← h.table]
    constructor
    · rintro ⟨cache, hcache⟩
      rcases CandidateCache.gives_candidates_iff.1 hcache with ⟨here, -⟩ | ⟨-, given, -⟩
      · rw [kept] at here
        cases here
      · exact given
    · intro given
      exact ⟨_, CandidateCache.gives_candidates_iff.2 (.inr ⟨kept, given, rfl⟩)⟩

/-- An answer outlives an edit of its class until the cache is emptied. -/
example : ((run .platform [.ask ⟨14⟩, .edit (.modify ⟨14⟩ fun d => { d with methods := [] }),
    .ask ⟨14⟩, .clear, .ask ⟨14⟩]).attempt 8).map
      (fun r => r.1.answers.map (Option.map List.length)) = some [some 1, some 1, some 0] := by
  cbv

end CacheRun

end LambdaTyping
