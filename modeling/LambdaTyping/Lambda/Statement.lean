import LambdaTyping.Identifier

/-!
# Statements

The statements of a lambda body, as far as control flow and returned values need them. Lambdas and
classes nested in an expression are part of the expression.
-/

namespace LambdaTyping

/-- An expression. -/
structure Expr where
  id : ExprId
  /-- Whether the expression may stand alone as a statement. -/
  statementShaped : Bool
  deriving DecidableEq

/-- When a loop tests its condition: before each round or after it. -/
inductive LoopKind where
  | whileDo | doWhile
  deriving DecidableEq

/-- A statement. -/
inductive Stmt where
  | ret (value : Option Expr)
  | expr (e : Expr)
  | throw
  | brk (label : Option String)
  | cont (label : Option String)
  | ifThen (body : List Stmt)
  | ifThenElse (thenBody elseBody : List Stmt)
  | block (body : List Stmt)
  | sync (body : List Stmt)
  /-- A loop, `unconditional` if its condition is the constant `true`. -/
  | loop (kind : LoopKind) (body : List Stmt) (unconditional : Bool)
  | labeled (label : String) (body : Stmt)
  /-- A switch: with `arrows` each arm is a rule of its own, otherwise control falls from each arm
  into the next. It is `exhaustive` if some arm is always chosen. -/
  | switch (arms : List (List Stmt)) (arrows exhaustive : Bool)
  | tryCatch (body : List Stmt) (catches : List (List Stmt))
  | tryFinally (body : List Stmt) (catches : List (List Stmt)) (finalizer : List Stmt)
  /-- A declaration, an empty statement, or anything else that control only passes through. -/
  | other
  deriving Inhabited

namespace Stmt

mutual

/-- The values of the `return` statements in a statement, in the order of the text; `none` for a
`return` without a value. -/
def returns : Stmt → List (Option Expr)
  | .ret value => [value]
  | .ifThen body => returnsOf body
  | .ifThenElse thenBody elseBody => returnsOf thenBody ++ returnsOf elseBody
  | .block body => returnsOf body
  | .sync body => returnsOf body
  | .loop _ body _ => returnsOf body
  | .labeled _ body => body.returns
  | .switch arms _ _ => returnsOfArms arms
  | .tryCatch body catches => returnsOf body ++ returnsOfArms catches
  | .tryFinally body catches finalizer =>
    returnsOf body ++ returnsOfArms catches ++ returnsOf finalizer
  | .expr _ | .throw | .brk _ | .cont _ | .other => []

/-- The values of the `return` statements in some statements. -/
def returnsOf : List Stmt → List (Option Expr)
  | [] => []
  | s :: ss => s.returns ++ returnsOf ss

/-- The values of the `return` statements in some lists of statements. -/
def returnsOfArms : List (List Stmt) → List (Option Expr)
  | [] => []
  | arm :: arms => returnsOf arm ++ returnsOfArms arms

end

end Stmt

end LambdaTyping
