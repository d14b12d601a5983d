import LambdaTyping.Lambda.Statement

/-!
# Exits of statements

How control can leave a statement: by running off its end, or by a jump to somewhere around it.
Conditions are taken to go either way unless a loop is marked unconditional, and jumps count even
where control never gets to them. A `finally` that does not run off its end swallows every other
exit.
-/

namespace LambdaTyping

/-- A jump, to a label or to the nearest statement that takes it. -/
inductive Jump where
  | brk (label : Option String)
  | cont (label : Option String)
  deriving DecidableEq

namespace Jump

/-- Whether the jump names its target. -/
def isLabeled : Jump → Bool
  | .brk l => l.isSome
  | .cont l => l.isSome

end Jump

/-- How control can leave: off the end, and by these jumps. -/
structure Exits where
  normal : Bool
  jumps : List Jump
  deriving DecidableEq

namespace Exits

/-- Control runs off the end and nowhere else. -/
def falls : Exits := ⟨true, []⟩

/-- Control does not get out by itself. -/
def stops : Exits := ⟨false, []⟩

/-- Control leaves by one jump. -/
def jump (j : Jump) : Exits := ⟨false, [j]⟩

/-- One piece of text after another: control gets through both or leaves either by a jump. -/
def andThen (a b : Exits) : Exits :=
  ⟨a.normal && b.normal, a.jumps ++ b.jumps⟩

/-- One of two pieces of text. -/
def orElse (a b : Exits) : Exits :=
  ⟨a.normal || b.normal, a.jumps ++ b.jumps⟩

/-- Whether control breaks out of the nearest statement that takes a `break`. -/
def breaks (e : Exits) : Bool :=
  e.jumps.contains (.brk none)

/-- Whether control continues with the next round of a loop that a label may directly wrap. -/
def continues (label : Option String) (e : Exits) : Bool :=
  e.jumps.contains (.cont none) || e.jumps.contains (.cont label)

/-- A loop over a body: it ends at its test, or by a `break`, and takes the jumps without label. -/
def loop (label : Option String) (kind : LoopKind) (unconditional : Bool) (body : Exits) : Exits :=
  let tested :=
    match kind with
    | .whileDo => true
    | .doWhile => body.normal || body.continues label
  ⟨(tested && !unconditional) || body.breaks, body.jumps.filter Jump.isLabeled⟩

/-- A labeled statement, which also ends by a `break` to its label. -/
def labeled (label : String) (body : Exits) : Exits :=
  ⟨body.normal || body.jumps.contains (.brk (some label)), body.jumps⟩

/-- A switch over some arms: it ends where control falls out of the last arm (of any, with arrows),
by a `break`, or when no arm is chosen. It takes the breaks without label. -/
def switch (arrows exhaustive : Bool) (arms : List Exits) : Exits :=
  let fallsOut :=
    if arrows then arms.any Exits.normal
    else
      match arms.getLast? with
      | none => true
      | some last => last.normal
  ⟨!exhaustive || fallsOut || arms.any breaks,
    arms.flatMap fun a => a.jumps.filter fun j => j ≠ .brk none⟩

/-- A body and the catches that may take over from it. -/
def guarded (body : Exits) (catches : List Exits) : Exits :=
  catches.foldl orElse body

/-- A statement whose exits all go through a finalizer. -/
def finalized (body finalizer : Exits) : Exits :=
  ⟨body.normal && finalizer.normal,
    finalizer.jumps ++ if finalizer.normal then body.jumps else []⟩

end Exits

namespace Stmt

mutual

/-- How control can leave a statement that a label may directly wrap. -/
def exits (label : Option String) : Stmt → Exits
  | .ret _ | .throw => .stops
  | .brk l => .jump (.brk l)
  | .cont l => .jump (.cont l)
  | .expr _ | .other => .falls
  | .ifThen body => .orElse .falls (exitsOf body)
  | .ifThenElse thenBody elseBody => .orElse (exitsOf thenBody) (exitsOf elseBody)
  | .block body => exitsOf body
  | .sync body => exitsOf body
  | .loop kind body unconditional => .loop label kind unconditional (exitsOf body)
  | .labeled l body => .labeled l (body.exits (some l))
  | .switch arms arrows exhaustive => .switch arrows exhaustive (exitsOfArms arms)
  | .tryCatch body catches => .guarded (exitsOf body) (exitsOfArms catches)
  | .tryFinally body catches finalizer =>
    .finalized (.guarded (exitsOf body) (exitsOfArms catches)) (exitsOf finalizer)

/-- How control can leave some statements in sequence. -/
def exitsOf : List Stmt → Exits
  | [] => .falls
  | s :: ss => .andThen (s.exits none) (exitsOf ss)

/-- How control can leave each of some lists of statements. -/
def exitsOfArms : List (List Stmt) → List Exits
  | [] => []
  | arm :: arms => exitsOf arm :: exitsOfArms arms

end

/-- Whether control can run off the end of some statements. -/
def complete (body : List Stmt) : Bool :=
  (exitsOf body).normal

end Stmt

end LambdaTyping
