import LambdaTyping.Config
import LambdaTyping.Identifier

/-!
# Unfit targets

Why a type cannot be the target of a lambda, with the code and the message of each reason.
-/

namespace LambdaTyping

/-- Why a type cannot be the target of a lambda. Types are given as they are displayed. -/
inductive TargetError where
  | notInterface
  | noMethod
  /-- Several methods are left, of the members of this intersection if one is given. -/
  | ambiguous (inType : Option String)
  | genericMethod
  | unresolvedArguments (ty : String)
  | notFunctional (ty : String)
  /-- The type names a class that the table does not hold: a fault of the caller, not of the
  program text. -/
  | missingClass (cls : ClassId)
  deriving DecidableEq

namespace TargetError

/-- Whether the reason is a fault of the caller, which is not shown to the author of the text. -/
def isInternal : TargetError → Bool
  | .missingClass _ => true
  | _ => false

/-- The code that names the reason. -/
def code : TargetError → String
  | .notInterface => "LAMBDA_NOT_INTERFACE"
  | .noMethod => "LAMBDA_NO_TARGET_METHOD"
  | .ambiguous _ => "LAMBDA_AMBIGUOUS_METHODS"
  | .genericMethod => "LAMBDA_GENERIC_TARGET"
  | .unresolvedArguments _ => "LAMBDA_UNRESOLVED_TYPE_ARGS"
  | .notFunctional _ => "LAMBDA_NOT_FUNCTIONAL"
  | .missingClass _ => "LAMBDA_INTERNAL"

/-- The message under a configuration, which words the first of the reasons. -/
def message (config : Config) : TargetError → String
  | .notInterface => config.notInterfaceMessage
  | .noMethod => "No target method found"
  | .ambiguous none => "Multiple non-overriding abstract methods found"
  | .ambiguous (some ty) => s!"Multiple non-overriding abstract methods found in {ty}"
  | .genericMethod => "Target method is generic"
  | .unresolvedArguments ty =>
    s!"No instance of type {ty} exists so that lambda expression can be type-checked"
  | .notFunctional ty => s!"{ty} is not a functional interface"
  | .missingClass c => s!"class #{c.raw} is missing from the declaration table"

/-- The reason in words, under the default configuration. -/
def describe (e : TargetError) : String :=
  e.message .default

end TargetError

end LambdaTyping
