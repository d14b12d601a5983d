import LambdaTyping.Diagnostic
import LambdaTyping.Lambda.Parameters
import LambdaTyping.Lambda.Returns
import LambdaTyping.Target.Resolution

/-!
# Checking lambdas

A checker resolves the target of a lambda, then checks the parameters, then what is returned, and
stops at the first of these that fails.
-/

namespace LambdaTyping

/-- A checker: its configuration and, if it keeps candidates, those found so far. -/
structure Checker where
  config : Config
  cache : Option CandidateCache

namespace Checker

/-- The code of a finding about the parameters of a lambda. -/
def parameterCode : String := "LAMBDA_PARAMS"

/-- The code of a finding about what a lambda returns. -/
def returnCode : String := "LAMBDA_RETURN"

/-- A checker that has found no candidates yet. -/
def ofConfig (config : Config) : Checker where
  config := config
  cache := if config.memoizeCandidates then some .empty else none

/-- Forget the candidates found so far, as is due when the table has changed. -/
def invalidate (checker : Checker) : Checker :=
  { checker with cache := checker.cache.map fun _ => .empty }

/-- Resolve a type as the target of a lambda. -/
def resolve (checker : Checker) (t : ClassTable) (target : Ty) : Query (Resolution × Checker) := do
  let (result, cache) ← t.resolve checker.config (checker.cache.getD .empty) target
  return (result, { checker with cache := checker.cache.map fun _ => cache })

/-- Check a lambda against the method it implements. -/
def checkMethod (t : ClassTable) (m : TargetMethod) (l : Lambda) (typing : ExprTyping)
    (span : Option Span) : Query (List Diagnostic) := do
  let s := m.groundSubst t
  match ← t.checkParameters l m.signature s with
  | some mismatch => return [.error parameterCode (mismatch.message t) span]
  | none =>
    let found ← t.checkReturn l (some (s.apply m.signature.returnType)) typing
    let diagnostics := found.toList.map fun mismatch => .error returnCode (mismatch.message t) span
    Query.report [.lambdaChecked m.signature.name diagnostics.length]
    return diagnostics

/-- Check a lambda against its target. Nothing is found about a target that is still being inferred
or that names a class the table does not hold. -/
def check (checker : Checker) (t : ClassTable) (target : Ty) (l : Lambda) (typing : ExprTyping)
    (span : Option Span) : Query (List Diagnostic × Checker) := do
  let (result, checker) ← checker.resolve t target
  match result with
  | .ok .deferred => return ([], checker)
  | .ok (.method m) => return (← checkMethod t m l typing span, checker)
  | .error e =>
    if e.isInternal then return ([], checker)
    else return ([.error e.code (e.message checker.config) span], checker)

end Checker

/-- Check one lambda, without keeping candidates. -/
def ClassTable.checkLambda (t : ClassTable) (config : Config) (target : Ty) (l : Lambda)
    (typing : ExprTyping) : Query (List Diagnostic) := do
  let checker := Checker.ofConfig { config with memoizeCandidates := false }
  return (← checker.check t target l typing none).1

end LambdaTyping
