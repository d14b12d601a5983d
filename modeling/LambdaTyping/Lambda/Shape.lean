import LambdaTyping.Lambda.Exits
import LambdaTyping.Type.Basic

/-!
# Lambdas

A lambda expression as the checks see it: its parameters and its body, a block or one expression.
-/

namespace LambdaTyping

/-- A parameter. The type of an implicitly typed one is what the context binds it to, `unknown` if
nothing. -/
structure Param where
  name : String
  ty : Ty
  deriving DecidableEq

/-- A parameter list, with types that are all written or all left out. -/
inductive ParamList where
  | explicit (params : List Param)
  | implicit (params : List Param)
  deriving DecidableEq

namespace ParamList

/-- The parameters. -/
def toList : ParamList → List Param
  | .explicit ps => ps
  | .implicit ps => ps

/-- Whether the types are written. -/
def isExplicit : ParamList → Bool
  | .explicit _ => true
  | .implicit _ => false

end ParamList

/-- The body of a lambda. -/
inductive Body where
  | block (stmts : List Stmt)
  | expression (e : Expr)

namespace Body

/-- The values of the `return` statements, in the order of the text; `none` for one without a
value. -/
def returns : Body → List (Option Expr)
  | .block stmts => Stmt.returnsOf stmts
  | .expression _ => []

/-- The expressions whose values the body returns: those of its `return` statements, or the body
itself. -/
def results : Body → List Expr
  | .block stmts => (Stmt.returnsOf stmts).filterMap id
  | .expression e => [e]

/-- Whether control can run off the end of the body, which needs a block. -/
def completes : Body → Bool
  | .block stmts => Stmt.complete stmts
  | .expression _ => false

end Body

/-- The place where a lambda stands. -/
inductive Place where
  | argumentList | expression | other
  deriving DecidableEq

/-- A lambda. -/
structure Lambda where
  params : ParamList
  body : Body
  /-- Whether the lambda fits a method without a result. -/
  voidCompatible : Bool

namespace Lambda

/-- A lambda with a block for a body: it fits a method without a result if no `return` has a
value. -/
def ofBlock (params : ParamList) (stmts : List Stmt) : Lambda where
  params := params
  body := .block stmts
  voidCompatible := (Stmt.returnsOf stmts).all Option.isNone

/-- A lambda with an expression for a body: it fits a method without a result if the expression can
stand as a statement. -/
def ofExpression (params : ParamList) (e : Expr) : Lambda where
  params := params
  body := .expression e
  voidCompatible := e.statementShaped

/-- Whether a lambda in this place is closed by a semicolon of its own. -/
def needsSemicolon (l : Lambda) (place : Place) : Bool :=
  match l.body with
  | .block _ => true
  | .expression _ => place = .other

end Lambda

end LambdaTyping
