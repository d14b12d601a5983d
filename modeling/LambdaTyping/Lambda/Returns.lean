import LambdaTyping.Lambda.Shape
import LambdaTyping.Lambda.Typing
import LambdaTyping.Subtyping.Basic
import LambdaTyping.Type.Display

/-!
# Return check

The values a lambda returns against the result type of the method it implements: none for `void`,
otherwise a fitting value on every way out of the body.
-/

namespace LambdaTyping

/-- How what a lambda returns does not fit. -/
inductive ReturnMismatch where
  | unexpectedValue
  /-- A value of the type found, unknown if absent, where another is expected. -/
  | badType (found : Option Ty) (expected : Ty)
  | missingValue
  deriving DecidableEq

namespace ReturnMismatch

/-- How a type that was found is shown. -/
def displayFound (t : ClassTable) : Option Ty → String
  | none | some .null => "<null>"
  | some ty => t.display ty

/-- The mismatch in words. -/
def message (t : ClassTable) : ReturnMismatch → String
  | .unexpectedValue => "Unexpected return value"
  | .badType found expected =>
    "Bad return type in lambda expression: " ++
      s!"{displayFound t found} cannot be converted to {t.display expected}"
  | .missingValue => "Missing return value"

end ReturnMismatch

namespace Lambda

/-- Check a body against a method without a result: a block returns no value, and an expression can
stand as a statement. -/
def checkVoid (l : Lambda) (typing : ExprTyping) : GuardedQuery (Option ReturnMismatch) :=
  match l.body with
  | .block _ => return if l.body.results.isEmpty then none else some .unexpectedValue
  | .expression e => do
    if e.statementShaped then return none
    return some (.badType (← typing e.id) .void)

/-- Whether some way out of the body returns no value. -/
def missesValue (l : Lambda) : Bool :=
  l.body.returns.length > l.body.results.length ||
    l.body.results.isEmpty && !l.voidCompatible ||
    l.body.completes

end Lambda

namespace ClassTable

/-- The first of some returned expressions whose type is known and not assignable to the result
type. -/
def firstBadResult (t : ClassTable) (typing : ExprTyping) (expected : Ty) :
    List Expr → GuardedQuery (Option ReturnMismatch)
  | [] => return none
  | e :: es => do
    match ← typing e.id with
    | none => t.firstBadResult typing expected es
    | some found =>
      if ← t.assignable found expected then t.firstBadResult typing expected es
      else return some (.badType (some found) expected)

/-- Check what a lambda returns against a result type, under the guard of an ongoing typing. There
is nothing to check as long as the result type is not resolved. -/
def checkReturnGuarded (t : ClassTable) (l : Lambda) (target : Option Ty) (typing : ExprTyping) :
    GuardedQuery (Option ReturnMismatch) :=
  match target with
  | none => return none
  | some .void => l.checkVoid typing
  | some expected => do
    match ← t.firstBadResult typing expected l.body.results with
    | some mismatch => return some mismatch
    | none => return if l.missesValue then some .missingValue else none

/-- Check what a lambda returns against a result type. -/
def checkReturn (t : ClassTable) (l : Lambda) (target : Option Ty) (typing : ExprTyping) :
    Query (Option ReturnMismatch) :=
  (t.checkReturnGuarded l target typing).run' .empty

end ClassTable

end LambdaTyping
