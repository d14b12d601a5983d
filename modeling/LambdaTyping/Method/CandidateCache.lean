import LambdaTyping.Method.Candidates

/-!
# Candidate cache

The candidates found so far, by class. An answer once given, a negative one included, is kept until
the cache is emptied, whatever happens to the table.
-/

namespace LambdaTyping

/-- The answers kept for some classes. -/
structure CandidateCache where
  entries : Std.TreeMap ClassId (Option (List Signature))

namespace CandidateCache

/-- The cache that keeps nothing. -/
def empty : CandidateCache := ⟨∅⟩

/-- The answer kept for a class. -/
def get? (cache : CandidateCache) (c : ClassId) : Option (Option (List Signature)) :=
  cache.entries[c]?

/-- For how many classes an answer is kept. -/
def size (cache : CandidateCache) : Nat :=
  cache.entries.size

/-- Whether no answer is kept. -/
def isEmpty (cache : CandidateCache) : Bool :=
  cache.entries.isEmpty

/-- The cache with an answer kept. -/
def insert (cache : CandidateCache) (c : ClassId) (answer : Option (List Signature)) :
    CandidateCache :=
  ⟨cache.entries.insert c answer⟩

/-- The candidates of a class, from the cache or else computed and kept. -/
def candidates (t : ClassTable) (cache : CandidateCache) (c : ClassId) :
    Query (Option (List Signature) × CandidateCache) :=
  match cache.get? c with
  | some answer => return (answer, cache)
  | none => do
    let answer ← t.candidates c
    return (answer, cache.insert c answer)

end CandidateCache

end LambdaTyping
