import LambdaTyping.Method.CandidateCache
import LambdaTyping.Target.Error
import LambdaTyping.Target.Method
import LambdaTyping.Target.Wildcard

/-!
# Resolution of targets

A class type is a target if its class has one candidate, which is not generic and not left open by
a wildcard argument. An intersection is one through the one member that is.
-/

namespace LambdaTyping

/-- What comes of a type as the target of a lambda. -/
abbrev Resolution := Except TargetError Target

namespace Resolution

/-- Whether the resolution failed by a fault of the caller. -/
def isInternal : Resolution → Bool
  | .error e => e.isInternal
  | .ok _ => false

/-- The resolution of an intersection, displayed so, from those of its members: the first internal
failure, else the one success; several are ambiguous, and without any the first failure stands. -/
def ofMembers (shown : String) (rs : List Resolution) : Resolution :=
  match rs.find? isInternal with
  | some r => r
  | none =>
    match rs.filter Except.isOk with
    | [r] => r
    | [] => rs.head?.getD (.error (.notFunctional shown))
    | _ => .error (.ambiguous (some shown))

end Resolution

/-- The one candidate that a lambda can implement. -/
def singleCandidate : Option (List Signature) → Except TargetError Signature
  | none => .error .notInterface
  | some [] => .error .noMethod
  | some [m] => if m.isGeneric then .error .genericMethod else .ok m
  | some _ => .error (.ambiguous none)

mutual

/-- The class types that a type is resolved through: itself, those of its members if it is an
intersection, of its bound if it is a wildcard `? extends`. -/
def Ty.targetClasses : Ty → List ClassTy
  | .cls c args => [⟨c, args⟩]
  | .inter ms => Ty.targetClassesOf ms
  | .wildExtends b => b.targetClasses
  | _ => []

/-- The class types that the types of a list are resolved through. -/
def Ty.targetClassesOf : List Ty → List ClassTy
  | [] => []
  | t :: ts => t.targetClasses ++ Ty.targetClassesOf ts

end

namespace ClassTable

/-- The resolution of a class type, given the candidates of its class. -/
def resolveClass (t : ClassTable) (config : Config) (candidates : Option (List Signature))
    (c : ClassTy) : Resolution :=
  match t.class? c.head with
  | none => .error (.missingClass c.head)
  | some d => do
    let m ← singleCandidate candidates
    let s := t.instantiate d c.args
    if config.reportUnresolved && t.hasUnconstrainedWildcard d m s then
      .error (.unresolvedArguments (t.display c.toTy))
    else .ok (.method ⟨c.head, m, s⟩)

mutual

/-- The resolution of a type, given the candidates of each class. -/
def resolveWith (t : ClassTable) (config : Config)
    (candidates : ClassId → Option (List Signature)) : Ty → Resolution
  | .var _ | .unknown => .ok .deferred
  | .cls c args => t.resolveClass config (candidates c) ⟨c, args⟩
  | .wildExtends b => t.resolveWith config candidates b
  | .inter ms => .ofMembers (t.display (.inter ms)) (t.resolveAllWith config candidates ms)
  | ty => .error (.notFunctional (t.display ty))

/-- The resolutions of the types of a list. -/
def resolveAllWith (t : ClassTable) (config : Config)
    (candidates : ClassId → Option (List Signature)) : List Ty → List Resolution
  | [] => []
  | ty :: tys => t.resolveWith config candidates ty :: t.resolveAllWith config candidates tys

end

/-- What a resolution reports at its end, which is nothing of an internal failure. -/
def outcomeEvents (t : ClassTable) (ty : Ty) : Resolution → List Event
  | .ok .deferred => [.targetDeferred (t.display ty)]
  | .ok (.method m) => [.targetResolved (t.display ty) m.signature.name]
  | .error e => if e.isInternal then [] else [.targetRejected (t.display ty) e.code]

/-- What is reported of a class whose candidates have been found: a wildcard argument that leaves
the one candidate open. -/
def openWildcardEvents (t : ClassTable) (config : Config) (d : ClassDecl) (args : List Ty)
    (candidates : Option (List Signature)) : List Event :=
  match singleCandidate candidates with
  | .ok m =>
    if config.reportUnresolved then t.unconstrainedEvents d m (t.instantiate d args) else []
  | .error _ => []

/-- Find the candidates of these class types in turn and keep them, as far as the first class that
the table does not hold. -/
def collectCandidates (t : ClassTable) (config : Config) :
    List ClassTy → CandidateCache → Query CandidateCache
  | [], cache => return cache
  | c :: cs, cache =>
    match t.class? c.head with
    | none => do
      Query.report [.missingClass c.head]
      return cache
    | some d => do
      Query.report (t.instantiationEvents d c.args)
      let (found, cache) ← cache.candidates t c.head
      Query.report (t.openWildcardEvents config d c.args found)
      t.collectCandidates config cs cache

/-- Resolve a type as the target of a lambda, with the candidates kept in a cache. -/
def resolve (t : ClassTable) (config : Config) (cache : CandidateCache) (ty : Ty) :
    Query (Resolution × CandidateCache) := do
  let cache ← t.collectCandidates config ty.targetClasses cache
  let result := t.resolveWith config (fun c => (cache.get? c).join) ty
  Query.report (t.outcomeEvents ty result)
  return (result, cache)

/-- Whether a class can be the target of a lambda, whatever its type arguments: the candidate, or
why there is none. -/
def functionalMethod (t : ClassTable) (c : ClassId) : Query (Except TargetError Signature) := do
  if t.declares c then return singleCandidate (← t.candidates c)
  Query.report [.missingClass c]
  return .error (.missingClass c)

end ClassTable

end LambdaTyping
