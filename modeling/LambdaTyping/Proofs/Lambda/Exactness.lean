import LambdaTyping.Proofs.Lambda.Completion

/-!
# Exactness of completion analysis

In a body without dead statements and shadowed labels every exit that the analysis counts is taken
by some execution. The invariant is `Exact`: a statement is run off its end if its exits say so, and
left by each of its jumps that no statement within takes. What a statement makes of the exits of
its parts, one of its executions does with theirs, so exactness goes from the parts to the whole
(`exact_of_tidy`).
-/

namespace LambdaTyping

namespace Stmt

/-- A statement with this label occurs in the statement. -/
def Declares (s : Stmt) (l : String) : Prop :=
  ∃ body, Within (.labeled l body) s

/-- The statement is not one with this label. -/
def Bare (l : String) (s : Stmt) : Prop :=
  ∀ body, s ≠ .labeled l body

/-- No statement within takes the jump by its label. -/
def Passes (s : Stmt) (j : Jump) : Prop :=
  ∀ l, j.label? = some l → ¬s.Declares l

/-- The label of a labeled statement is not used again inside. -/
def Unshadowed : Stmt → Prop
  | .labeled l body => ¬body.Declares l
  | _ => True

/-- Control can get past each statement but the last. -/
def Live (ss : List Stmt) : Prop :=
  ∀ s ∈ ss.dropLast, Runs [] s .normal

/-- A statement with live parts, with a label that is neither stacked nor used again. -/
structure Tidy (s : Stmt) : Prop where
  live : ∀ ss ∈ s.blocks, Live ss
  unstacked : s.Unstacked
  unshadowed : s.Unshadowed

/-- Some execution runs off the end of the statement if its exits say so, and some execution leaves
it by each jump that neither a statement within nor the loop under the label takes. -/
structure Exact (s : Stmt) (label : Option String) : Prop where
  falls : (s.exits label).normal = true → Runs label.toList s .normal
  leaves : ∀ j ∈ (s.exits label).jumps, s.Passes j →
    (∀ l, label = some l → j ≠ .cont (some l)) → Runs label.toList s (.jump j)

/-- The exits of some statements in sequence are exact. -/
structure ExactAll (ss : List Stmt) : Prop where
  falls : (exitsOf ss).normal = true → RunsAll ss .normal
  leaves : ∀ j ∈ (exitsOf ss).jumps, (∀ s ∈ ss, s.Passes j) → RunsAll ss (.jump j)

/-- A label that stands nowhere in a statement is not declared there. -/
lemma not_declares_of_bare {s : Stmt} {l : String} (h : s.Everywhere (Bare l)) : ¬s.Declares l := by
  rintro ⟨body, within⟩
  exact h _ within body rfl

/-- A jump that passes a statement passes the statements of its blocks. -/
lemma Passes.inside {s u : Stmt} {ss : List Stmt} {j : Jump} (h : s.Passes j) (hss : ss ∈ s.blocks)
    (hu : u ∈ ss) : u.Passes j := by
  rintro l hl ⟨body, hbody⟩
  exact h l hl ⟨body, .inside hss hu hbody⟩

/-- A jump without a label passes every statement. -/
lemma passes_of_label?_eq_none {s : Stmt} {j : Jump} (h : j.label? = none) : s.Passes j := by
  intro l hl
  rw [h] at hl
  cases hl

/-- A labeled jump passes a statement in which its label is not declared. -/
lemma passes_of_not_declares {s : Stmt} {j : Jump} {l : String} (hj : j.label? = some l)
    (h : ¬s.Declares l) : s.Passes j := by
  intro m hm
  rw [hj] at hm
  cases hm
  exact h

/-- Statements that leave early leave whatever comes after them. -/
lemma RunsAll.append_of_ne_normal {as bs : List Stmt} {o : Outcome} (run : RunsAll as o)
    (ne : o ≠ .normal) : RunsAll (as ++ bs) o := by
  induction as with
  | nil =>
    cases run
    exact absurd rfl ne
  | cons s as ih =>
    cases run with
    | next first rest => exact .next first (ih rest)
    | stop first ne => exact .stop first ne

/-- A live sequence of exact statements is exact. -/
lemma ExactAll.of_exact {ss : List Stmt} (live : Live ss) (h : ∀ s ∈ ss, s.Exact none) :
    ExactAll ss := by
  induction ss with
  | nil => exact ⟨fun _ => .nil, fun j hj => absurd hj List.not_mem_nil⟩
  | cons s ss ih =>
    have head := h s List.mem_cons_self
    have tail : ExactAll ss := by
      refine ih (fun u hu => live u ?_) fun u hu => h u (List.mem_cons_of_mem _ hu)
      cases ss with
      | nil => exact absurd hu List.not_mem_nil
      | cons v vs => exact List.mem_cons_of_mem _ hu
    constructor
    · intro hn
      obtain ⟨hs, hss⟩ := Bool.and_eq_true_iff.1 hn
      exact .next (head.falls hs) (tail.falls hss)
    · intro j hj passes
      rcases List.mem_append.1 hj with hj | hj
      · exact .stop (head.leaves j hj (passes s List.mem_cons_self) (by simp)) (by simp)
      · -- A jump of the tail is reached past the head, which is not the last statement.
        have past : Runs [] s .normal := by
          cases ss with
          | nil => exact absurd hj List.not_mem_nil
          | cons v vs => exact live s List.mem_cons_self
        exact .next past (tail.leaves j hj fun u hu => passes u (List.mem_cons_of_mem _ hu))

section Parts

variable {body finalizer : List Stmt} {catches arms : List (List Stmt)} {label : Option String}

/-- A loop with an exact body is exact, if the label it stands under is not declared inside. -/
lemma Exact.loop {kind : LoopKind} {unconditional : Bool} (h : ExactAll body)
    (fresh : ∀ l, label = some l → ∀ s ∈ body, ¬s.Declares l) :
    Exact (.loop kind body unconditional) label := by
  have exit {j : Jump} (hj : j ∈ (exitsOf body).jumps) (passes : ∀ s ∈ body, s.Passes j)
      (last : ¬(Outcome.jump j).repeats label.toList) :
      Runs label.toList (.loop kind body unconditional) ((Outcome.jump j).takeBreak none) :=
    .loopExit (h.leaves j hj passes) last
  constructor
  · intro hn
    simp only [exits, Exits.loop, Bool.or_eq_true, Bool.and_eq_true, Bool.not_eq_true'] at hn
    -- The loop ends at its test, where a round falls through or continues, or by a break.
    rcases hn with ⟨tested, rfl⟩ | breaks
    · cases kind with
      | whileDo => exact .loopTest
      | doWhile =>
        simp only [Bool.or_eq_true] at tested
        rcases tested with falls | continues
        · exact .loopDone (h.falls falls) rfl
        · simp only [Exits.continues, List.contains_iff_mem, Bool.or_eq_true] at continues
          rcases continues with hj | hj
          · exact .loopDone (h.leaves _ hj fun s _ => passes_of_label?_eq_none rfl) rfl
          · cases label with
            | none => exact .loopDone (h.leaves _ hj fun s _ => passes_of_label?_eq_none rfl) rfl
            | some l =>
              refine .loopDone (h.leaves _ hj fun s hs => ?_) (by simp [Outcome.repeats])
              exact passes_of_not_declares rfl (fresh l rfl s hs)
    · have hj : Jump.brk none ∈ (exitsOf body).jumps := List.contains_iff_mem.1 breaks
      exact exit hj (fun s _ => passes_of_label?_eq_none rfl) (by simp [Outcome.repeats])
  · intro j hj passes other
    -- A jump that leaves the loop has a label, and a continue another one than the loop.
    obtain ⟨hj, isLabeled⟩ := List.mem_filter.1 hj
    have passes : ∀ s ∈ body, s.Passes j := fun s => passes.inside (List.mem_singleton_self _)
    cases j with
    | brk l =>
      obtain ⟨l, rfl⟩ := Option.isSome_iff_exists.1 isLabeled
      exact exit hj passes (by simp [Outcome.repeats])
    | cont l =>
      obtain ⟨l, rfl⟩ := Option.isSome_iff_exists.1 isLabeled
      have ne : label ≠ some l := fun e => other l e rfl
      exact exit hj passes (by simpa [Outcome.repeats] using ne)

/-- A labeled statement over an exact one is exact, if the label is not declared inside. -/
lemma Exact.labeled {l : String} {s : Stmt} (h : s.Exact (some l)) (fresh : ¬s.Declares l) :
    Exact (.labeled l s) none := by
  constructor
  · intro hn
    simp only [exits, Exits.labeled, Bool.or_eq_true, List.contains_iff_mem] at hn
    rcases hn with falls | hj
    · exact .labeled (h.falls falls)
    · have taken := h.leaves _ hj (passes_of_not_declares rfl fresh) (by simp)
      have run : Runs [] (.labeled l s) ((Outcome.jump (.brk (some l))).takeBreak (some l)) :=
        .labeled taken
      rwa [Outcome.takeBreak, if_pos rfl] at run
  · intro j hj passes _
    have foreign : j.label? ≠ some l := fun e => passes l e ⟨s, .refl⟩
    have inside : s.Passes j :=
      passes.inside (List.mem_singleton_self _) (List.mem_singleton_self _)
    have left := h.leaves j hj inside (by rintro _ ⟨⟩ rfl; exact foreign rfl)
    have run : Runs [] (.labeled l s) ((Outcome.jump j).takeBreak (some l)) := .labeled left
    rwa [Outcome.takeBreak, if_neg (by rintro ⟨⟩; exact foreign rfl)] at run

/-- A switch with exact arms is exact. -/
lemma Exact.switch {arrows exhaustive : Bool} (h : ∀ arm ∈ arms, ExactAll arm) :
    Exact (.switch arms arrows exhaustive) label := by
  have arm_leaves {arm : List Stmt} {j : Jump} (mem : arm ∈ arms) (hj : j ∈ (exitsOf arm).jumps)
      (passes : ∀ s ∈ arm, s.Passes j) :
      Runs label.toList (.switch arms arrows exhaustive) ((Outcome.jump j).takeBreak none) := by
    have run := (h arm mem).leaves j hj passes
    cases arrows with
    | true => exact .switchArrow mem run
    | false =>
      obtain ⟨before, later, rfl⟩ := List.append_of_mem mem
      exact .switchFall rfl (run.append_of_ne_normal (by simp))
  constructor
  · intro hn
    rw [exits, exitsOfArms_eq] at hn
    simp only [Exits.switch, Bool.or_eq_true, Bool.not_eq_true'] at hn
    -- Past all arms, off the end of an arm (of the last, if arms fall through), or by a break.
    rcases hn with (rfl | falls) | breaks
    · exact .switchSkip
    · cases arrows with
      | true =>
        simp only [if_true, List.any_map, List.any_eq_true] at falls
        obtain ⟨arm, mem, falls⟩ := falls
        exact .switchArrow mem ((h arm mem).falls falls)
      | false =>
        rcases List.eq_nil_or_concat arms with rfl | ⟨before, last, rfl⟩
        · cases exhaustive
          · exact .switchSkip
          · exact .switchEmpty
        · have falls : (exitsOf last).normal = true := by simpa using falls
          have run := (h last (by simp)).falls falls
          exact .switchFall (List.concat_eq_append ..) (by simpa using run)
    · simp only [List.any_map, List.any_eq_true] at breaks
      obtain ⟨arm, mem, breaks⟩ := breaks
      have hj : Jump.brk none ∈ (exitsOf arm).jumps := List.contains_iff_mem.1 breaks
      exact arm_leaves mem hj fun s _ => passes_of_label?_eq_none rfl
  · intro j hj passes _
    rw [exits, exitsOfArms_eq] at hj
    simp only [Exits.switch, List.flatMap_map, List.mem_flatMap, List.mem_filter, decide_eq_true_eq]
      at hj
    obtain ⟨arm, mem, hj, ne⟩ := hj
    have run := arm_leaves mem hj fun s => passes.inside mem
    rwa [Outcome.takeBreak, if_neg (by simpa using ne)] at run

/-- The body of a `try` and its catches, all exact, are run off the end if their exits say so. -/
lemma RunsGuarded.of_normal (h : ExactAll body) (hc : ∀ c ∈ catches, ExactAll c)
    (hn : (Exits.guarded (exitsOf body) (exitsOfArms catches)).normal = true) :
    RunsGuarded body catches .normal := by
  simp only [exitsOfArms_eq, Exits.guarded_normal, List.any_map, Bool.or_eq_true, List.any_eq_true]
    at hn
  rcases hn with hn | ⟨c, mem, hn⟩
  · exact .body (h.falls hn)
  · exact .caught mem ((hc c mem).falls hn)

/-- The body of a `try` and its catches, all exact, are left by each of their jumps. -/
lemma RunsGuarded.of_jump {j : Jump} (h : ExactAll body) (hc : ∀ c ∈ catches, ExactAll c)
    (hj : j ∈ (Exits.guarded (exitsOf body) (exitsOfArms catches)).jumps)
    (passesBody : ∀ s ∈ body, s.Passes j) (passesCatches : ∀ c ∈ catches, ∀ s ∈ c, s.Passes j) :
    RunsGuarded body catches (.jump j) := by
  simp only [exitsOfArms_eq, Exits.guarded_jumps, List.flatMap_map, List.mem_append,
    List.mem_flatMap] at hj
  rcases hj with hj | ⟨c, mem, hj⟩
  · exact .body (h.leaves j hj passesBody)
  · exact .caught mem ((hc c mem).leaves j hj (passesCatches c mem))

/-- A guarded statement with exact body and catch blocks is exact. -/
lemma Exact.tryCatch (h : ExactAll body) (hc : ∀ c ∈ catches, ExactAll c) :
    Exact (.tryCatch body catches) label := by
  constructor
  · intro hn
    exact .tryCatch (.of_normal h hc hn)
  · intro j hj passes _
    refine .tryCatch (.of_jump h hc hj ?_ fun c mem s => ?_)
    · exact fun s => passes.inside List.mem_cons_self
    · exact passes.inside (List.mem_cons_of_mem _ mem)

/-- A `try` with exact parts and an exact finalizer is exact. -/
lemma Exact.tryFinally (h : ExactAll body) (hc : ∀ c ∈ catches, ExactAll c)
    (hf : ExactAll finalizer) : Exact (.tryFinally body catches finalizer) label := by
  constructor
  · intro hn
    obtain ⟨hn, hfn⟩ := Bool.and_eq_true_iff.1 hn
    exact .tryFinally (.of_normal h hc hn) (hf.falls hfn)
  · intro j hj passes _
    rcases List.mem_append.1 hj with hj | hj
    · -- The finalizer is always reached: the body may throw.
      have run := hf.leaves j hj fun s => passes.inside (List.mem_cons_of_mem _ List.mem_cons_self)
      exact .tryReplaced .threw run (by simp)
    · split at hj
      · rename_i hfn
        refine .tryFinally (.of_jump h hc hj ?_ fun c mem s => ?_) (hf.falls hfn)
        · exact fun s => passes.inside List.mem_cons_self
        · exact passes.inside (List.mem_cons_of_mem _ (List.mem_cons_of_mem _ mem))
      · exact absurd hj List.not_mem_nil

end Parts

/-- The exits of a tidy statement are exact, under a label that it does not declare. -/
lemma exact_of_tidy (s : Stmt) (tree : s.Everywhere Tidy) (label : Option String)
    (single : s.IsLabeled → label = none) (fresh : ∀ l, label = some l → ¬s.Declares l) :
    s.Exact label := by
  induction s using rec_blocks generalizing label with
  | step s ih =>
    -- A statement in a block has no label on it, so the hypothesis is used without one.
    have parts : ∀ ss ∈ s.blocks, ExactAll ss := fun ss hss =>
      .of_exact (tree.here.live ss hss) fun u hu =>
        ih ss hss u hu (tree.inside hss hu) none (fun _ => rfl) (by simp)
    cases s with
    | ret v => exact ⟨by simp [exits, Exits.stops], by simp [exits, Exits.stops]⟩
    | throw => exact ⟨by simp [exits, Exits.stops], by simp [exits, Exits.stops]⟩
    | brk l =>
      refine ⟨by simp [exits, Exits.jump], fun j hj _ _ => ?_⟩
      obtain rfl := List.mem_singleton.1 hj
      exact .brk
    | cont l =>
      refine ⟨by simp [exits, Exits.jump], fun j hj _ _ => ?_⟩
      obtain rfl := List.mem_singleton.1 hj
      exact .cont
    | expr e => exact ⟨fun _ => .expr, by simp [exits, Exits.falls]⟩
    | other => exact ⟨fun _ => .other, by simp [exits, Exits.falls]⟩
    | ifThen body =>
      have mem : body ∈ (Stmt.ifThen body).blocks := List.mem_singleton_self _
      exact ⟨fun _ => .ifSkip, fun j hj passes _ =>
        .ifThen ((parts body mem).leaves j hj fun s => passes.inside mem)⟩
    | ifThenElse thenBody elseBody =>
      have memThen : thenBody ∈ (Stmt.ifThenElse thenBody elseBody).blocks := List.mem_cons_self
      have memElse : elseBody ∈ (Stmt.ifThenElse thenBody elseBody).blocks :=
        List.mem_cons_of_mem _ List.mem_cons_self
      constructor
      · intro hn
        rcases Bool.or_eq_true_iff.1 hn with hn | hn
        · exact .ifTrue ((parts _ memThen).falls hn)
        · exact .ifFalse ((parts _ memElse).falls hn)
      · intro j hj passes _
        rcases List.mem_append.1 hj with hj | hj
        · exact .ifTrue ((parts _ memThen).leaves j hj fun s => passes.inside memThen)
        · exact .ifFalse ((parts _ memElse).leaves j hj fun s => passes.inside memElse)
    | block body =>
      have mem : body ∈ (Stmt.block body).blocks := List.mem_singleton_self _
      exact ⟨fun hn => .block ((parts body mem).falls hn), fun j hj passes _ =>
        .block ((parts body mem).leaves j hj fun s => passes.inside mem)⟩
    | sync body =>
      have mem : body ∈ (Stmt.sync body).blocks := List.mem_singleton_self _
      exact ⟨fun hn => .sync ((parts body mem).falls hn), fun j hj passes _ =>
        .sync ((parts body mem).leaves j hj fun s => passes.inside mem)⟩
    | loop kind body unconditional =>
      have mem : body ∈ (Stmt.loop kind body unconditional).blocks := List.mem_singleton_self _
      -- The loop takes the continues to the label on it, so the label must not come again inside.
      refine .loop (parts body mem) fun l hl s hs => ?_
      rintro ⟨inner, within⟩
      exact fresh l hl ⟨inner, .inside mem hs within⟩
    | labeled l body =>
      obtain rfl := single trivial
      -- Only here is a label handed on, to the statement that it stands on.
      have mem : [body] ∈ (Stmt.labeled l body).blocks := List.mem_singleton_self _
      have unshadowed : ¬body.Declares l := tree.here.unshadowed
      refine .labeled ?_ unshadowed
      refine ih [body] mem body List.mem_cons_self (tree.inside mem List.mem_cons_self) _ ?_ ?_
      · exact fun h => absurd h tree.here.unstacked
      · rintro _ ⟨⟩
        exact unshadowed
    | switch arms arrows exhaustive => exact .switch parts
    | tryCatch body catches =>
      exact .tryCatch (parts body List.mem_cons_self) fun c mem =>
        parts c (List.mem_cons_of_mem _ mem)
    | tryFinally body catches finalizer =>
      exact .tryFinally (parts body List.mem_cons_self)
        (fun c mem => parts c (List.mem_cons_of_mem _ (List.mem_cons_of_mem _ mem)))
        (parts finalizer (List.mem_cons_of_mem _ List.mem_cons_self))

end Stmt

/-- A body without dead statements that is found to complete can be run off its end. -/
theorem runs_off_end_of_completes {body : List Stmt} (live : Stmt.Live body)
    (tree : ∀ s ∈ body, s.Everywhere Stmt.Tidy) (h : (Body.block body).completes = true) :
    Stmt.RunsAll body .normal :=
  (Stmt.ExactAll.of_exact live fun s hs =>
    s.exact_of_tidy (tree s hs) none (fun _ => rfl) (by simp)).falls h

/-- The loop `l: while (true) { switch (e) { case 0: ; break; default: try { break l; } finally {}
} }`. -/
def escapingLoop : Stmt :=
  .labeled "l" (.loop .whileDo
    [.switch [[.other, .brk none], [.tryFinally [.brk (some "l")] [] [.other]]] false true] true)

/-- The escaping loop is tidy, and it runs off its end by way of the labeled break in its switch. -/
theorem runs_off_end_escapingLoop :
    Stmt.Live [escapingLoop] ∧ escapingLoop.Everywhere Stmt.Tidy ∧
      (Body.block [escapingLoop]).completes = true ∧ Stmt.RunsAll [escapingLoop] .normal := by
  have live : Stmt.Live [escapingLoop] := by simp [Stmt.Live]
  have completes : (Body.block [escapingLoop]).completes = true := by decide
  -- Everything under the label is tidy and does not carry the label again.
  have leaf (s : Stmt) (none : s.blocks = []) (bare : ¬s.IsLabeled) :
      s.Everywhere fun u => u.Tidy ∧ u.Bare "l" := by
    refine .of_blocks ⟨⟨by simp [none], ?_, ?_⟩, ?_⟩ (by simp [none])
    all_goals cases s <;> simp_all [Stmt.Unstacked, Stmt.Unshadowed, Stmt.Bare, Stmt.IsLabeled]
  have pass := leaf .other rfl id
  have leave := leaf (.brk none) rfl id
  have jump := leaf (.brk (some "l")) rfl id
  have guarded : (Stmt.tryFinally [.brk (some "l")] [] [.other]).Everywhere fun u =>
      u.Tidy ∧ u.Bare "l" :=
    .of_blocks ⟨⟨by simp [Stmt.blocks, Stmt.Live], trivial, trivial⟩, by simp [Stmt.Bare]⟩
      (by simp [Stmt.blocks, jump, pass])
  have switch : (Stmt.switch [[.other, .brk none],
      [.tryFinally [.brk (some "l")] [] [.other]]] false true).Everywhere fun u =>
        u.Tidy ∧ u.Bare "l" :=
    .of_blocks ⟨⟨by simp [Stmt.blocks, Stmt.Live, Stmt.Runs.other], trivial, trivial⟩,
      by simp [Stmt.Bare]⟩ (by simp [Stmt.blocks, pass, leave, guarded])
  have loop : (Stmt.loop .whileDo [.switch [[.other, .brk none],
      [.tryFinally [.brk (some "l")] [] [.other]]] false true] true).Everywhere fun u =>
        u.Tidy ∧ u.Bare "l" :=
    .of_blocks ⟨⟨by simp [Stmt.blocks, Stmt.Live], trivial, trivial⟩, by simp [Stmt.Bare]⟩
      (by simp [Stmt.blocks, switch])
  have tree : escapingLoop.Everywhere Stmt.Tidy :=
    .of_blocks ⟨by simp [escapingLoop, Stmt.blocks, Stmt.Live], id,
      Stmt.not_declares_of_bare (loop.imp fun u h => h.2)⟩
      (by simp [escapingLoop, Stmt.blocks, loop.imp fun u h => h.1])
  exact ⟨live, tree, completes, runs_off_end_of_completes live (by simpa using tree) completes⟩

end LambdaTyping
