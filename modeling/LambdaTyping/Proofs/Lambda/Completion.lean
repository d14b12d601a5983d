import LambdaTyping.Lambda.Shape
import LambdaTyping.Proofs.Lambda.Execution

/-!
# Completion analysis

The exits of a statement against its executions. Every execution leaves by one of the exits
(`Runs.admitted`), so a body that can be run off its end is found to complete. Where no statement is
dead and no label is shadowed, the exits are no more than what executions do (`exact_exits`), so a
body found to complete can be run off its end.
-/

namespace LambdaTyping

namespace Exits

/-- The exits allow for an outcome. They say nothing of returns and exceptions. -/
def Admits (e : Exits) : Outcome → Prop
  | .normal => e.normal = true
  | .jump j => j ∈ e.jumps
  | .returned | .thrown => True

/-- Exits allow for a normal end if they say so. -/
@[simp] lemma admits_normal {e : Exits} : e.Admits .normal ↔ e.normal = true := Iff.rfl

/-- Exits allow for the jumps that they list. -/
@[simp] lemma admits_jump {e : Exits} {j : Jump} : e.Admits (.jump j) ↔ j ∈ e.jumps := Iff.rfl

/-- Some pieces of text in sequence. -/
def inSequence (es : List Exits) : Exits :=
  es.foldr andThen falls

/-- A sequence can end normally if all its parts can. -/
@[simp] lemma inSequence_normal (es : List Exits) :
    (inSequence es).normal = es.all Exits.normal := by
  induction es with
  | nil => rfl
  | cons e es ih => simp [inSequence, andThen] at ih ⊢; rw [ih]

/-- A sequence is left by the jumps of its parts. -/
@[simp] lemma inSequence_jumps (es : List Exits) :
    (inSequence es).jumps = es.flatMap Exits.jumps := by
  induction es with
  | nil => rfl
  | cons e es ih => simp [inSequence, andThen] at ih ⊢; rw [ih]

/-- A guarded statement can end normally if its body or a catch block can. -/
@[simp] lemma guarded_normal (body : Exits) (catches : List Exits) :
    (guarded body catches).normal = (body.normal || catches.any Exits.normal) := by
  induction catches generalizing body with
  | nil => simp [guarded]
  | cons c catches ih =>
    change (guarded (body.orElse c) catches).normal = _
    simp [ih, orElse, Bool.or_assoc]

/-- A guarded statement is left by the jumps of its body and its catch blocks. -/
@[simp] lemma guarded_jumps (body : Exits) (catches : List Exits) :
    (guarded body catches).jumps = body.jumps ++ catches.flatMap Exits.jumps := by
  induction catches generalizing body with
  | nil => simp [guarded]
  | cons c catches ih =>
    change (guarded (body.orElse c) catches).jumps = _
    simp [ih, orElse]

/-- A choice allows for what its first part does. -/
lemma Admits.orElse_left {a b : Exits} {o : Outcome} (h : a.Admits o) : (a.orElse b).Admits o := by
  cases o with
  | normal => simp_all [Admits, orElse]
  | jump j => exact List.mem_append_left _ h
  | returned => trivial
  | thrown => trivial

/-- A choice allows for what its second part does. -/
lemma Admits.orElse_right {a b : Exits} {o : Outcome} (h : b.Admits o) : (a.orElse b).Admits o := by
  cases o with
  | normal => simp_all [Admits, orElse]
  | jump j => exact List.mem_append_right _ h
  | returned => trivial
  | thrown => trivial

/-- After a part that ends normally, a sequence allows for what the next part does. -/
lemma Admits.andThen_next {a b : Exits} {o : Outcome} (ha : a.Admits .normal) (hb : b.Admits o) :
    (a.andThen b).Admits o := by
  cases o with
  | normal => simp_all [Admits, andThen]
  | jump j => exact List.mem_append_right _ hb
  | returned => trivial
  | thrown => trivial

/-- A part that does not end normally ends its sequence. -/
lemma Admits.andThen_stop {a b : Exits} {o : Outcome} (h : a.Admits o) (ne : o ≠ .normal) :
    (a.andThen b).Admits o := by
  cases o with
  | normal => exact absurd rfl ne
  | jump j => exact List.mem_append_left _ h
  | returned => trivial
  | thrown => trivial

/-- A loop with a test after each round ends after a round that is followed by the test. -/
lemma Admits.loop_done {label : Option String} {body : Exits} {o : Outcome} (h : body.Admits o)
    (again : o.repeats label.toList) : (loop label .doWhile false body).Admits .normal := by
  cases o with
  | normal => simp_all [Admits, loop]
  | jump j =>
    cases j with
    | brk l => simp [Outcome.repeats] at again
    | cont l =>
      have mem : body.continues label = true := by
        cases l with
        | none => simpa [continues] using Or.inl (admits_jump.1 h)
        | some l =>
          obtain rfl : label = some l := by simpa [Outcome.repeats] using again
          simpa [continues] using Or.inr (admits_jump.1 h)
      simp [Admits, loop, mem]
  | returned => simp [Outcome.repeats] at again
  | thrown => simp [Outcome.repeats] at again

/-- A loop is left with a round that is not followed by another. -/
lemma Admits.loop_exit {label : Option String} {kind : LoopKind} {unconditional : Bool}
    {body : Exits} {o : Outcome} (h : body.Admits o) (last : ¬o.repeats label.toList) :
    (loop label kind unconditional body).Admits (o.takeBreak none) := by
  cases o with
  | normal => exact absurd rfl last
  | jump j =>
    match j, h with
    | .brk none, h =>
      have breaks : body.breaks = true := by
        simpa [Exits.breaks] using admits_jump.1 h
      simp [Outcome.takeBreak, Admits, loop, breaks]
    | .brk (some l), h => exact List.mem_filter.2 ⟨h, rfl⟩
    | .cont none, h => exact absurd rfl last
    | .cont (some l), h => exact List.mem_filter.2 ⟨h, rfl⟩
  | returned => trivial
  | thrown => trivial

/-- A labeled statement ends normally where its body breaks to the label. -/
lemma Admits.labeled {l : String} {body : Exits} {o : Outcome} (h : body.Admits o) :
    (labeled l body).Admits (o.takeBreak (some l)) := by
  unfold Outcome.takeBreak
  split
  · rename_i e
    subst e
    have taken : .brk (some l) ∈ body.jumps := h
    simp [Exits.labeled, taken]
  · cases o with
    | normal => simp_all [Admits, Exits.labeled]
    | jump j => exact h
    | returned => trivial
    | thrown => trivial

/-- A switch is left by a jump of one of its arms, or ended by a break. -/
lemma admits_switch_jump {arrows exhaustive : Bool} {arms : List Exits} {arm : Exits} {j : Jump}
    (mem : arm ∈ arms) (h : j ∈ arm.jumps) :
    (switch arrows exhaustive arms).Admits ((Outcome.jump j).takeBreak none) := by
  unfold Outcome.takeBreak
  split
  · rename_i e
    cases e
    have breaks : arms.any breaks = true :=
      List.any_eq_true.2 ⟨arm, mem, by simpa [Exits.breaks] using h⟩
    simp [Admits, switch, breaks]
  · rename_i ne
    have ne : j ≠ .brk none := fun e => ne (congrArg _ e)
    exact List.mem_flatMap.2 ⟨arm, mem, List.mem_filter.2 ⟨h, by simpa using ne⟩⟩

/-- An arrow switch allows for what each arm does, with breaks out of the switch taken. -/
lemma Admits.switch_arrow {exhaustive : Bool} {arms : List Exits} {arm : Exits} {o : Outcome}
    (mem : arm ∈ arms) (h : arm.Admits o) :
    (switch true exhaustive arms).Admits (o.takeBreak none) := by
  cases o with
  | normal =>
    have falls : arms.any Exits.normal = true := List.any_eq_true.2 ⟨arm, mem, h⟩
    simp [Admits, switch, Outcome.takeBreak, falls]
  | jump j => exact admits_switch_jump mem h
  | returned => trivial
  | thrown => trivial

/-- A switch allows for what control does that enters at an arm and falls through. -/
lemma Admits.switch_fall {exhaustive : Bool} {before later : List Exits} {arm : Exits} {o : Outcome}
    (h : (inSequence (arm :: later)).Admits o) :
    (switch false exhaustive (before ++ arm :: later)).Admits (o.takeBreak none) := by
  cases o with
  | normal =>
    -- Control that gets through the arm and all later ones falls out of the last of them.
    have all : ∀ e ∈ arm :: later, e.normal = true := by simpa [Admits] using h
    have last := all _ (List.getLast_mem (List.cons_ne_nil arm later))
    simp [Admits, switch, Outcome.takeBreak, List.getLast?_eq_some_getLast, last]
  | jump j =>
    have mem : j ∈ (arm :: later).flatMap Exits.jumps := by simpa [Admits] using h
    obtain ⟨e, he, hj⟩ := List.mem_flatMap.1 mem
    exact admits_switch_jump (List.mem_append_right _ he) hj
  | returned => trivial
  | thrown => trivial

/-- A guarded statement allows for what its body does. -/
lemma Admits.guarded_body {body : Exits} {catches : List Exits} {o : Outcome} (h : body.Admits o) :
    (guarded body catches).Admits o := by
  cases o with
  | normal => simp_all [Admits]
  | jump j => simpa [Admits] using Or.inl h
  | returned => trivial
  | thrown => trivial

/-- A guarded statement allows for what each catch block does. -/
lemma Admits.guarded_catch {body c : Exits} {catches : List Exits} {o : Outcome}
    (mem : c ∈ catches) (h : c.Admits o) : (guarded body catches).Admits o := by
  cases o with
  | normal =>
    have any : catches.any Exits.normal = true := List.any_eq_true.2 ⟨c, mem, h⟩
    simp [Admits, any]
  | jump j => simpa [Admits] using Or.inr ⟨c, mem, h⟩
  | returned => trivial
  | thrown => trivial

/-- Past a finalizer that ends normally a statement allows for what it did before. -/
lemma Admits.finalized {a f : Exits} {o : Outcome} (h : a.Admits o) (hf : f.Admits .normal) :
    (finalized a f).Admits o := by
  have hf : f.normal = true := hf
  cases o with
  | normal => simp_all [Admits, Exits.finalized]
  | jump j =>
    have h : j ∈ a.jumps := h
    simp [Admits, Exits.finalized, hf, h]
  | returned => trivial
  | thrown => trivial

/-- A finalizer that does not end normally decides the exit. -/
lemma Admits.finalized_replaced {a f : Exits} {o : Outcome} (h : f.Admits o) (ne : o ≠ .normal) :
    (Exits.finalized a f).Admits o := by
  cases o with
  | normal => exact absurd rfl ne
  | jump j => exact List.mem_append_left _ h
  | returned => trivial
  | thrown => trivial

end Exits

namespace Stmt

/-- The exits of the arms are those of each arm as a sequence. -/
@[simp] lemma exitsOfArms_eq (arms : List (List Stmt)) : exitsOfArms arms = arms.map exitsOf := by
  induction arms with
  | nil => rfl
  | cons arm arms ih => simp [exitsOfArms, ih]

/-- The exits of a longer sequence are those of its two parts, one after the other. -/
lemma exitsOf_append (as bs : List Stmt) :
    exitsOf (as ++ bs) = .andThen (exitsOf as) (exitsOf bs) := by
  induction as with
  | nil => simp [exitsOf, Exits.andThen, Exits.falls]
  | cons s as ih => simp [exitsOf, ih, Exits.andThen, Bool.and_assoc]

/-- The exits of arms that control falls through. -/
lemma exitsOf_flatten (arms : List (List Stmt)) :
    exitsOf arms.flatten = .inSequence (arms.map exitsOf) := by
  induction arms with
  | nil => rfl
  | cons arm arms ih =>
    rw [List.flatten_cons, exitsOf_append, ih]
    rfl

/-- The statement carries a label. -/
def IsLabeled : Stmt → Prop
  | .labeled _ _ => True
  | _ => False

/-- No label stands directly on a labeled statement. -/
def Unstacked : Stmt → Prop
  | .labeled _ body => ¬body.IsLabeled
  | _ => True

mutual

/-- Every execution of a statement leaves by one of its exits. -/
lemma Runs.admitted {labels : List String} {s : Stmt} {o : Outcome} (run : Runs labels s o)
    (label : Option String) (hl : labels = label.toList) (single : s.IsLabeled → label = none)
    (tree : s.Everywhere Unstacked) : (s.exits label).Admits o := by
  match run with
  | .ret => trivial
  | .throw => trivial
  | .brk => exact List.mem_singleton_self _
  | .cont => exact List.mem_singleton_self _
  | .expr => rfl
  | .other => rfl
  | .ifSkip => exact Exits.Admits.orElse_left rfl
  | .ifThen run =>
    exact (run.admitted fun s => tree.inside (List.mem_singleton_self _)).orElse_right
  | .ifTrue run => exact (run.admitted fun s => tree.inside List.mem_cons_self).orElse_left
  | .ifFalse run =>
    have branch := run.admitted fun s => tree.inside (List.mem_cons_of_mem _ List.mem_cons_self)
    exact branch.orElse_right
  | .block run => exact run.admitted fun s => tree.inside (List.mem_singleton_self _)
  | .sync run => exact run.admitted fun s => tree.inside (List.mem_singleton_self _)
  | .loopTest => simp [exits, Exits.loop]
  | .loopDone run again =>
    have round := RunsAll.admitted run fun s => tree.inside (List.mem_singleton_self _)
    exact round.loop_done (hl ▸ again)
  | .loopNext _ _ later => exact later.admitted label hl single tree
  | .loopExit run last =>
    have round := RunsAll.admitted run fun s => tree.inside (List.mem_singleton_self _)
    exact round.loop_exit (hl ▸ last)
  | @Runs.labeled _ l body _ run =>
    -- No second label follows, so the exits of the body are taken under this one.
    have bare : ¬body.IsLabeled := tree.here
    have inside := tree.inside (List.mem_singleton_self _) (List.mem_singleton_self _)
    have alone : l :: labels = (some l).toList := by rw [hl, single trivial]; rfl
    exact (run.admitted (some l) alone (fun h => absurd h bare) inside).labeled
  | .switchArrow mem run =>
    rw [exits, exitsOfArms_eq]
    exact (run.admitted fun s => tree.inside mem).switch_arrow (List.mem_map_of_mem mem)
  | @Runs.switchFall _ _ _ before arm later o e run =>
    have admits : (exitsOf (arm :: later).flatten).Admits o := by
      refine run.admitted fun s hs => ?_
      obtain ⟨ss, hss, hs⟩ := List.mem_flatten.1 (show s ∈ (arm :: later).flatten from hs)
      exact tree.inside (e ▸ List.mem_append_right _ hss) hs
    rw [exitsOf_flatten] at admits
    rw [exits, exitsOfArms_eq, e, List.map_append]
    exact admits.switch_fall
  | .switchSkip => simp [exits, Exits.switch]
  | .switchEmpty => simp [exits, Exits.switch]
  | .tryCatch run =>
    exact run.admitted (fun s => tree.inside List.mem_cons_self)
      fun ss hss s => tree.inside (List.mem_cons_of_mem _ hss)
  | .tryFinally run final =>
    have body := run.admitted (fun s => tree.inside List.mem_cons_self)
      fun ss hss s => tree.inside (List.mem_cons_of_mem _ (List.mem_cons_of_mem _ hss))
    have finalizer :=
      final.admitted fun s => tree.inside (List.mem_cons_of_mem _ List.mem_cons_self)
    exact body.finalized finalizer
  | .tryReplaced _ final ne =>
    have finalizer :=
      final.admitted fun s => tree.inside (List.mem_cons_of_mem _ List.mem_cons_self)
    exact finalizer.finalized_replaced ne

/-- Every execution of statements in sequence leaves by one of their exits. -/
lemma RunsAll.admitted {ss : List Stmt} {o : Outcome} (run : RunsAll ss o)
    (tree : ∀ s ∈ ss, s.Everywhere Unstacked) : (exitsOf ss).Admits o := by
  match run with
  | .nil => rfl
  | .next first rest =>
    have head := first.admitted none rfl (fun _ => rfl) (tree _ List.mem_cons_self)
    exact head.andThen_next (rest.admitted fun s hs => tree s (List.mem_cons_of_mem _ hs))
  | .stop first ne =>
    exact (first.admitted none rfl (fun _ => rfl) (tree _ List.mem_cons_self)).andThen_stop ne

/-- Every execution of the body of a `try` with its catches leaves by one of their exits. -/
lemma RunsGuarded.admitted {body : List Stmt} {catches : List (List Stmt)} {o : Outcome}
    (run : RunsGuarded body catches o) (treeBody : ∀ s ∈ body, s.Everywhere Unstacked)
    (treeCatches : ∀ ss ∈ catches, ∀ s ∈ ss, s.Everywhere Unstacked) :
    (Exits.guarded (exitsOf body) (exitsOfArms catches)).Admits o := by
  match run with
  | .body run => exact (run.admitted treeBody).guarded_body
  | .threw => trivial
  | .caught mem run =>
    rw [exitsOfArms_eq]
    exact (run.admitted (treeCatches _ mem)).guarded_catch (List.mem_map_of_mem mem)

end

end Stmt

/-- A body that some execution runs off the end of is found to complete. -/
theorem completes_of_runs_off_end {body : List Stmt}
    (tree : ∀ s ∈ body, s.Everywhere Stmt.Unstacked) (run : Stmt.RunsAll body .normal) :
    (Body.block body).completes = true :=
  run.admitted tree

/-- The loop `l: do { try { continue l; } finally { ; } } while (c);` -/
def continuingLoop : Stmt :=
  .labeled "l" (.loop .doWhile [.tryFinally [.cont (some "l")] [] [.other]] false)

/-- The continuing loop runs off its end, and its body is found to complete. -/
theorem completes_continuingLoop :
    continuingLoop.Everywhere Stmt.Unstacked ∧ Stmt.RunsAll [continuingLoop] .normal ∧
      (Body.block [continuingLoop]).completes = true := by
  have jump : (Stmt.cont (some "l")).Everywhere Stmt.Unstacked :=
    .of_blocks trivial (by simp [Stmt.blocks])
  have pass : Stmt.other.Everywhere Stmt.Unstacked := .of_blocks trivial (by simp [Stmt.blocks])
  have guarded : (Stmt.tryFinally [.cont (some "l")] [] [.other]).Everywhere Stmt.Unstacked :=
    .of_blocks trivial (by simp [Stmt.blocks, jump, pass])
  have loop : (Stmt.loop .doWhile [.tryFinally [.cont (some "l")] [] [.other]] false).Everywhere
      Stmt.Unstacked :=
    .of_blocks trivial (by simp [Stmt.blocks, guarded])
  have tree : continuingLoop.Everywhere Stmt.Unstacked :=
    .of_blocks id (by simp [continuingLoop, Stmt.blocks, loop])
  have run : Stmt.RunsAll [continuingLoop] .normal := by
    have round :
        Stmt.RunsAll [.tryFinally [.cont (some "l")] [] [.other]] (.jump (.cont (some "l"))) :=
      .stop (.tryFinally (.body (.stop .cont (by decide))) (.next .other .nil)) (by decide)
    exact .next (.labeled (.loopDone round (by decide))) .nil
  exact ⟨tree, run, completes_of_runs_off_end (by simpa using tree) run⟩

end LambdaTyping
