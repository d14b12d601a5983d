import LambdaTyping.Hierarchy.Instantiation

/-!
# Supertype closure

The class types above a class type, found breadth first: each class once, in the instantiation that
is met first. Above a raw use stand raw uses, and above an interface stands `Object`.
-/

namespace LambdaTyping

/-- The class type that a type is, if it is one. -/
def Ty.asClass? : Ty → Option ClassTy
  | .cls c args => some ⟨c, args⟩
  | _ => none

namespace ClassTable

/-- The declared supertypes of a class that are class types, at some type arguments. -/
def declaredParents (t : ClassTable) (d : ClassDecl) (args : List Ty) : List ClassTy :=
  if d.isRawUse args then
    d.supertypes.filterMap fun s => s.asClass?.map fun c => ⟨c.head, []⟩
  else
    d.supertypes.filterMap fun s => ((t.instantiate d args).apply s).asClass?

/-- The class types directly above a class type, none above a class the table does not hold. -/
def parents (t : ClassTable) (c : ClassTy) : List ClassTy :=
  match t.class? c.head with
  | none => []
  | some d =>
    t.declaredParents d c.args ++ if d.isInterface then [⟨t.wellKnown.object, []⟩] else []

/-- Nothing stands above a class that the table does not hold. -/
theorem parents_of_undeclared {t : ClassTable} {c : ClassTy} (h : t.class? c.head = none) :
    t.parents c = [] := by
  simp [parents, h]

/-- The walk up from a queue of class types, past the classes already seen. -/
def closureFrom (t : ClassTable) (seen : List ClassId) : List ClassTy → List ClassTy
  | [] => []
  | c :: queue =>
    if c.head ∈ seen then t.closureFrom seen queue
    else c :: t.closureFrom (c.head :: seen) (queue ++ t.parents c)
termination_by queue => (t.classesOutside seen, queue.length)
decreasing_by
  · decreasing_tactic
  · cases hc : t.class? c.head with
    | none =>
      simp only [parents_of_undeclared hc, List.append_nil, List.length_cons]
      rcases Nat.lt_or_eq_of_le (t.classesOutside_cons_le seen c.head) with lt | eq
      · exact .left _ _ lt
      · rw [eq]
        exact .right _ (Nat.lt_succ_self _)
    | some d => exact .left _ _ (classesOutside_cons_lt (by simp [hc]) ‹_›)

/-- The class types above a class type, itself included. -/
def classClosure (t : ClassTable) (c : ClassTy) : List ClassTy :=
  t.closureFrom [] [c]

/-- The class types above a type, itself included; none unless it is a class type. -/
def closure (t : ClassTable) (ty : Ty) : List ClassTy :=
  match ty.asClass? with
  | some c => t.classClosure c
  | none => []

/-- What a closure reports: the cyclic bounds met in raw uses, in the order of the closure. -/
def closureEvents (t : ClassTable) (ty : Ty) : List Event :=
  (t.closure ty).flatMap fun c =>
    match t.class? c.head with
    | none => []
    | some d => t.instantiationEvents d c.args

/-- A class type viewed as one of its superclasses: the entry of its closure for that class. -/
def classView? (t : ClassTable) (c : ClassTy) (target : ClassId) : Option ClassTy :=
  (t.classClosure c).find? fun s => s.head = target

end ClassTable

end LambdaTyping
