import LambdaTyping.Identifier

/-!
# Events

What the analyses report to a log beside their answers.
-/

namespace LambdaTyping

/-- How serious an event is. -/
inductive Level where
  | error | warn | debug | trace
  deriving DecidableEq

/-- The part of the library an event comes from: the type model or the lambda analyses. -/
inductive Origin where
  | types | lambdas
  deriving DecidableEq

/-- An event of the log. -/
inductive Event where
  /-- A definition was given for a class that the table does not hold. -/
  | foreignDefinition (cls : ClassId) (name : String)
  /-- Erasure came back to a type variable through its own bounds. -/
  | cyclicBound (v : TypeVarId)
  /-- The target of a lambda names a class that the table does not hold. -/
  | missingClass (cls : ClassId)
  /-- The target of a lambda is still being inferred. -/
  | targetDeferred (ty : String)
  /-- The target of a lambda has a functional method. -/
  | targetResolved (ty method : String)
  /-- The target of a lambda is unfit, for the reason of that code. -/
  | targetRejected (ty code : String)
  /-- A wildcard argument is not pinned down by the functional method. -/
  | unconstrainedWildcard (cls param method : String)
  /-- A lambda was checked against the method, with that many diagnostics. -/
  | lambdaChecked (method : String) (diagnostics : Nat)
  /-- The type of an expression was asked for while it was being computed. -/
  | recursiveTyping (expr : ExprId)
  deriving DecidableEq

/-- The value of a field of an event. -/
inductive Event.Field where
  | number (n : Nat)
  | text (s : String)
  deriving DecidableEq

namespace Event

/-- How serious the event is. -/
def level : Event → Level
  | .foreignDefinition .. => .warn
  | .missingClass .. => .error
  | .cyclicBound .. | .recursiveTyping .. => .trace
  | .targetDeferred .. | .targetResolved .. | .targetRejected .. | .unconstrainedWildcard ..
  | .lambdaChecked .. => .debug

/-- Where the event comes from. -/
def origin : Event → Origin
  | .foreignDefinition .. | .cyclicBound .. => .types
  | _ => .lambdas

/-- The sentence that describes the event. -/
def message : Event → String
  | .foreignDefinition .. => "ignoring definition for a class id this store did not allocate"
  | .cyclicBound .. => "cyclic type variable bound; erasing to Object"
  | .missingClass .. => "lambda target refers to a class that is not in the declaration table"
  | .targetDeferred .. => "functional target deferred"
  | .targetResolved .. => "resolved functional target"
  | .targetRejected .. => "type is not a functional target"
  | .unconstrainedWildcard .. =>
    "wildcard type argument is not constrained by the functional method"
  | .lambdaChecked .. => "checked lambda against functional target"
  | .recursiveTyping .. => "recursive expression typing; treating type as unknown"

/-- The details of the event by name. -/
def fields : Event → List (String × Field)
  | .foreignDefinition c name => [("class", .number c.raw), ("name", .text name)]
  | .cyclicBound v => [("type_var", .number v.raw)]
  | .missingClass c => [("class", .number c.raw)]
  | .targetDeferred ty => [("ty", .text ty)]
  | .targetResolved ty method => [("ty", .text ty), ("method", .text method)]
  | .targetRejected ty code => [("ty", .text ty), ("code", .text code)]
  | .unconstrainedWildcard cls param method =>
    [("class", .text cls), ("type_param", .text param), ("method", .text method)]
  | .lambdaChecked method diagnostics =>
    [("method", .text method), ("diagnostics", .number diagnostics)]
  | .recursiveTyping e => [("expr", .number e.raw)]

end Event

end LambdaTyping
