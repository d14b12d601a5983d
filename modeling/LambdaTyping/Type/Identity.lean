import LambdaTyping.Type.Basic

/-!
# Type identity

Two types are identical when they are built alike; an unknown part is identical to anything, and
intersections are compared without regard to the order of their members.
-/

namespace LambdaTyping.Ty

mutual

/-- Type identity. Two intersections need equally many members, and to each member of the left one
an identical member of the right one. -/
def identical : Ty → Ty → Bool
  | .unknown, _ => true
  | _, .unknown => true
  | .array a, .array b => identical a b
  | .cls c as, .cls d bs => c = d && identicalAll as bs
  | .wildExtends a, .wildExtends b => identical a b
  | .wildSuper a, .wildSuper b => identical a b
  | .inter as, .inter bs => as.length = bs.length && identicalSome as bs
  | a, b => a = b

/-- Two lists of types are of one length and identical place by place. -/
def identicalAll : List Ty → List Ty → Bool
  | [], [] => true
  | a :: as, b :: bs => identical a b && identicalAll as bs
  | _, _ => false

/-- Each type of the first list is identical to some type of the second. -/
def identicalSome : List Ty → List Ty → Bool
  | [], _ => true
  | a :: as, bs => bs.any (identical a) && identicalSome as bs

end

end LambdaTyping.Ty
