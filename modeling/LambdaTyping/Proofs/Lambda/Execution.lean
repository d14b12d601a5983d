import LambdaTyping.Lambda.Exits
import Mathlib.Tactic.Lemma

/-!
# Executions of statements

The executions of a statement as a relation. Conditions and selectors may come out either way, a
`try` body may throw at any point, and everything else is determined by the text: what a loop, a
switch, a label and a `finally` do with the outcome of the statements they are made of.

`Runs labels s o` says that some execution of the statement `s`, which stands directly under these
labels, ends in the outcome `o`. `RunsAll` is the same for statements in sequence, `RunsGuarded` for
the body of a `try` together with its catches.
-/

namespace LambdaTyping

/-- How an execution of a statement ends. -/
inductive Outcome where
  | normal
  | jump (j : Jump)
  | returned
  | thrown
  deriving DecidableEq

namespace Jump

/-- The label that a jump names. -/
def label? : Jump → Option String
  | .brk l => l
  | .cont l => l

end Jump

namespace Outcome

/-- Whether a loop under these labels goes on to its next round after a round that ends so. -/
def repeats (labels : List String) : Outcome → Bool
  | .normal => true
  | .jump (.cont none) => true
  | .jump (.cont (some l)) => l ∈ labels
  | _ => false

/-- The outcome of a statement that takes the breaks to a label, or those without one: such a break
ends it normally. -/
def takeBreak (label : Option String) (o : Outcome) : Outcome :=
  if o = .jump (.brk label) then .normal else o

end Outcome

namespace Stmt

mutual

/-- Some execution of the statement, which stands directly under these labels, ends so. -/
inductive Runs : List String → Stmt → Outcome → Prop where
  | ret {labels v} :
    Runs labels (.ret v) .returned
  | throw {labels} :
    Runs labels .throw .thrown
  | brk {labels l} :
    Runs labels (.brk l) (.jump (.brk l))
  | cont {labels l} :
    Runs labels (.cont l) (.jump (.cont l))
  | expr {labels e} :
    Runs labels (.expr e) .normal
  | other {labels} :
    Runs labels .other .normal
  | ifSkip {labels body} :
    Runs labels (.ifThen body) .normal
  | ifThen {labels body o} :
    RunsAll body o →
    Runs labels (.ifThen body) o
  | ifTrue {labels thenBody elseBody o} :
    RunsAll thenBody o →
    Runs labels (.ifThenElse thenBody elseBody) o
  | ifFalse {labels thenBody elseBody o} :
    RunsAll elseBody o →
    Runs labels (.ifThenElse thenBody elseBody) o
  | block {labels body o} :
    RunsAll body o →
    Runs labels (.block body) o
  | sync {labels body o} :
    RunsAll body o →
    Runs labels (.sync body) o
  /-- The test before a round fails. -/
  | loopTest {labels body} :
    Runs labels (.loop .whileDo body false) .normal
  /-- The test after a round fails. -/
  | loopDone {labels body o} :
    RunsAll body o →
    o.repeats labels →
    Runs labels (.loop .doWhile body false) .normal
  | loopNext {labels kind body unconditional o o'} :
    RunsAll body o →
    o.repeats labels →
    Runs labels (.loop kind body unconditional) o' →
    Runs labels (.loop kind body unconditional) o'
  | loopExit {labels kind body unconditional o} :
    RunsAll body o →
    ¬o.repeats labels →
    Runs labels (.loop kind body unconditional) (o.takeBreak none)
  /-- A `continue` to a label that does not stand on a loop is passed on. -/
  | labeled {labels l body o} :
    Runs (l :: labels) body o →
    Runs labels (.labeled l body) (o.takeBreak (some l))
  | switchArrow {labels arms exhaustive arm o} :
    arm ∈ arms →
    RunsAll arm o →
    Runs labels (.switch arms true exhaustive) (o.takeBreak none)
  /-- Control enters at an arm and falls through to the later ones. -/
  | switchFall {labels arms exhaustive before arm later o} :
    arms = before ++ arm :: later →
    RunsAll (arm ++ later.flatten) o →
    Runs labels (.switch arms false exhaustive) (o.takeBreak none)
  | switchSkip {labels arms arrows} :
    Runs labels (.switch arms arrows false) .normal
  /-- Without any arm to enter at, control passes through. -/
  | switchEmpty {labels exhaustive} :
    Runs labels (.switch [] false exhaustive) .normal
  | tryCatch {labels body catches o} :
    RunsGuarded body catches o →
    Runs labels (.tryCatch body catches) o
  | tryFinally {labels body catches finalizer o} :
    RunsGuarded body catches o →
    RunsAll finalizer .normal →
    Runs labels (.tryFinally body catches finalizer) o
  /-- The outcome of the finalizer replaces that of the rest. -/
  | tryReplaced {labels body catches finalizer o o'} :
    RunsGuarded body catches o →
    RunsAll finalizer o' →
    o' ≠ .normal →
    Runs labels (.tryFinally body catches finalizer) o'

/-- Some execution of the statements in sequence ends so. -/
inductive RunsAll : List Stmt → Outcome → Prop where
  | nil :
    RunsAll [] .normal
  | next {s ss o} :
    Runs [] s .normal →
    RunsAll ss o →
    RunsAll (s :: ss) o
  | stop {s ss o} :
    Runs [] s o →
    o ≠ .normal →
    RunsAll (s :: ss) o

/-- Some execution of the body of a `try` with its catches ends so. -/
inductive RunsGuarded : List Stmt → List (List Stmt) → Outcome → Prop where
  | body {body catches o} :
    RunsAll body o →
    RunsGuarded body catches o
  /-- The body throws at some point what no catch takes. -/
  | threw {body catches} :
    RunsGuarded body catches .thrown
  /-- The body throws at some point what this catch takes. -/
  | caught {body catches c o} :
    c ∈ catches →
    RunsAll c o →
    RunsGuarded body catches o

end

/-- The lists of statements that a statement is made of; a labeled statement counts as one. -/
def blocks : Stmt → List (List Stmt)
  | .ifThen body => [body]
  | .ifThenElse thenBody elseBody => [thenBody, elseBody]
  | .block body => [body]
  | .sync body => [body]
  | .loop _ body _ => [body]
  | .labeled _ body => [[body]]
  | .switch arms _ _ => arms
  | .tryCatch body catches => body :: catches
  | .tryFinally body catches finalizer => body :: finalizer :: catches
  | .ret _ | .expr _ | .throw | .brk _ | .cont _ | .other => []

/-- A statement occurs in another, at any depth. -/
inductive Within : Stmt → Stmt → Prop where
  | refl {s} :
    Within s s
  | inside {s u t : Stmt} {ss : List Stmt} :
    ss ∈ t.blocks →
    u ∈ ss →
    Within s u →
    Within s t

/-- Every statement that occurs in this one, itself included, has the property. -/
def Everywhere (P : Stmt → Prop) (s : Stmt) : Prop :=
  ∀ u, Within u s → P u

/-- A property that holds everywhere in a statement holds of the statement. -/
lemma Everywhere.here {P : Stmt → Prop} {s : Stmt} (h : s.Everywhere P) : P s :=
  h s .refl

/-- What a property implies holds everywhere in a statement where the property does. -/
lemma Everywhere.imp {P Q : Stmt → Prop} {s : Stmt} (h : s.Everywhere P) (pq : ∀ u, P u → Q u) :
    s.Everywhere Q :=
  fun u hu => pq u (h u hu)

/-- A property that holds everywhere in a statement holds everywhere in those it is made of. -/
lemma Everywhere.inside {P : Stmt → Prop} {s u : Stmt} {ss : List Stmt} (h : s.Everywhere P)
    (hss : ss ∈ s.blocks) (hu : u ∈ ss) : u.Everywhere P :=
  fun v hv => h v (.inside hss hu hv)

/-- A property holds everywhere in a statement if it holds of the statement and everywhere in those
it is made of. -/
lemma Everywhere.of_blocks {P : Stmt → Prop} {s : Stmt} (here : P s)
    (inside : ∀ ss ∈ s.blocks, ∀ u ∈ ss, u.Everywhere P) : s.Everywhere P := by
  intro v hv
  cases hv with
  | refl => exact here
  | inside hss hu hv => exact inside _ hss _ hu v hv

/-- A statement is larger than those it is made of. -/
lemma sizeOf_lt_of_mem_blocks {s t : Stmt} {ss : List Stmt} (h : ss ∈ t.blocks) (hs : s ∈ ss) :
    sizeOf s < sizeOf t := by
  have lt : sizeOf s < sizeOf ss := List.sizeOf_lt_of_mem hs
  cases t with
  | switch arms arrows exhaustive =>
    have := List.sizeOf_lt_of_mem (show ss ∈ arms from h)
    simp only [switch.sizeOf_spec]
    omega
  | tryCatch body catches =>
    simp only [tryCatch.sizeOf_spec]
    rcases List.mem_cons.1 h with rfl | h
    · omega
    · have := List.sizeOf_lt_of_mem h
      omega
  | tryFinally body catches finalizer =>
    simp only [tryFinally.sizeOf_spec]
    rcases List.mem_cons.1 h with rfl | h
    · omega
    · rcases List.mem_cons.1 h with rfl | h
      · omega
      · have := List.sizeOf_lt_of_mem h
        omega
  | ifThenElse thenBody elseBody =>
    simp only [ifThenElse.sizeOf_spec]
    rcases List.mem_cons.1 h with rfl | h
    · omega
    · obtain rfl := List.mem_singleton.1 h
      omega
  | labeled label body =>
    obtain rfl := List.mem_singleton.1 h
    obtain rfl := List.mem_singleton.1 hs
    simp only [labeled.sizeOf_spec]
    omega
  | ifThen body => obtain rfl := List.mem_singleton.1 h; simp only [ifThen.sizeOf_spec]; omega
  | block body => obtain rfl := List.mem_singleton.1 h; simp only [block.sizeOf_spec]; omega
  | sync body => obtain rfl := List.mem_singleton.1 h; simp only [sync.sizeOf_spec]; omega
  | loop kind body unconditional =>
    obtain rfl := List.mem_singleton.1 h
    simp only [loop.sizeOf_spec]
    omega
  | _ => exact absurd h List.not_mem_nil

/-- Induction over statements that reaches every statement of every list. -/
lemma rec_blocks {P : Stmt → Prop} (step : ∀ s, (∀ ss ∈ s.blocks, ∀ u ∈ ss, P u) → P s) (s : Stmt) :
    P s :=
  step s fun _ _h u _hu => rec_blocks step u
termination_by sizeOf s
decreasing_by exact sizeOf_lt_of_mem_blocks _h _hu

end Stmt

end LambdaTyping
