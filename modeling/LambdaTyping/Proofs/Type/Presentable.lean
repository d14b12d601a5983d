import Mathlib.Logic.Function.Iterate
import LambdaTyping.Proofs.Type.NormalForm
import LambdaTyping.Proofs.Type.Subterms

/-!
# Types that can be displayed without brackets around intersections

A presentable type has its wildcards in type arguments only, and its intersections join two types
or more and stand neither in arrays nor in other intersections. Such a type is taken apart in three
ways, each of which it can be put together from again: into the members of an intersection
(`Presentable.eq_of_members`), into the dimensions of an array and what it is built on
(`eq_of_core`), and into a class and its type arguments (`eq_of_bare`).
-/

namespace LambdaTyping

/-- What a type refers to by its name: a class or a type parameter. -/
inductive Referent where
  | cls (c : ClassId)
  | param (v : TypeVarId)
  deriving DecidableEq

namespace Ty

/-- The class or the type parameter that stands at the top of the type. -/
def referent? : Ty → Option Referent
  | .cls c _ => some (.cls c)
  | .var v => some (.param v)
  | _ => none

/-- Whether an intersection stands directly in an array or an intersection, or joins less than two
types. -/
def misplacesIntersection : Ty → Bool
  | .array e => e.isIntersection
  | .inter ms => ms.length < 2 || ms.any isIntersection
  | _ => false

/-- At its top the type refers to one of these classes and type parameters, if to any, and has
neither a wildcard nor an intersection out of place. -/
structure Placed (ns : List Referent) (a : Ty) : Prop where
  named : ∀ n ∈ a.referent?, n ∈ ns
  wildcards : a.misplacesWildcard = false
  intersections : a.misplacesIntersection = false

instance (ns : List Referent) (a : Ty) : Decidable (a.Placed ns) :=
  decidable_of_iff
    ((∀ n ∈ a.referent?, n ∈ ns) ∧ a.misplacesWildcard = false ∧ a.misplacesIntersection = false)
    ⟨fun ⟨named, wildcards, intersections⟩ => ⟨named, wildcards, intersections⟩,
      fun ⟨named, wildcards, intersections⟩ => ⟨named, wildcards, intersections⟩⟩

/-- The type refers to these classes and type parameters only, wildcards are nothing but type
arguments in it, and its intersections have two members or more and are neither elements of arrays
nor members of intersections. -/
def Presentable (ns : List Referent) (a : Ty) : Prop :=
  a.Everywhere (Placed ns)

instance (ns : List Referent) (a : Ty) : Decidable (a.Presentable ns) :=
  inferInstanceAs (Decidable (a.Everywhere _))

/-- The type is neither a wildcard nor an intersection. -/
structure Simple (a : Ty) : Prop where
  notWildcard : a.isWildcard = false
  notIntersection : a.isIntersection = false

section Presentable

variable {ns : List Referent} {a b : Ty}

/-- The elements of a presentable array are presentable and simple. -/
lemma Presentable.elem {e : Ty} (h : (array e).Presentable ns) : e.Presentable ns ∧ e.Simple := by
  obtain ⟨placed, inside⟩ := everywhere_array.1 h
  exact ⟨inside, placed.wildcards, placed.intersections⟩

/-- The upper bound of a presentable wildcard is presentable. -/
lemma Presentable.extendsBound (h : (wildExtends b).Presentable ns) : b.Presentable ns :=
  (everywhere_wildExtends.1 h).2

/-- The lower bound of a presentable wildcard is presentable. -/
lemma Presentable.superBound (h : (wildSuper b).Presentable ns) : b.Presentable ns :=
  (everywhere_wildSuper.1 h).2

/-! ### The members of an intersection -/

/-- A type that is not an intersection is its own only member. -/
lemma Presentable.of_mem_members (h : a.Presentable ns) (plain : a.isWildcard = false) :
    ∀ m ∈ a.members, m.Presentable ns ∧ m.Simple := by
  cases a with
  | inter ms =>
    intro m hm
    obtain ⟨⟨_, wildcards, intersections⟩, inside⟩ := everywhere_inter.1 h
    simp only [misplacesWildcard, misplacesIntersection, Bool.or_eq_false_iff, List.any_eq_false,
      Bool.not_eq_true] at wildcards intersections
    exact ⟨inside m hm, wildcards m hm, intersections.2 m hm⟩
  | _ =>
    intro m hm
    rw [List.mem_singleton.1 hm]
    exact ⟨h, plain, rfl⟩

/-- A presentable intersection has two members or more. -/
lemma Presentable.two_le_length {ms : List Ty} (h : (inter ms).Presentable ns) :
    2 ≤ ms.length := by
  have intersections := h.here.intersections
  simp only [misplacesIntersection, Bool.or_eq_false_iff, decide_eq_false_iff_not]
    at intersections
  exact Nat.not_lt.1 intersections.1

/-- A presentable type has a member. -/
lemma Presentable.members_ne_nil (h : a.Presentable ns) : a.members ≠ [] := by
  cases a with
  | inter ms =>
    rintro rfl
    exact absurd h.two_le_length (by decide)
  | _ => exact List.cons_ne_nil _ _

/-- Intersections and other types can be told apart by how many members they have. -/
lemma Presentable.eq_of_members (ha : a.Presentable ns) (hb : b.Presentable ns)
    (h : a.members = b.members) : a = b := by
  have several {ms : List Ty} {x : Ty} (hm : (inter ms).Presentable ns) : ms ≠ [x] := by
    rintro rfl
    exact Nat.not_succ_le_self 1 hm.two_le_length
  cases a with
  | inter ms =>
    cases b with
    | inter ms' => exact congrArg inter h
    | _ => exact absurd h (several ha)
  | _ =>
    cases b with
    | inter ms' => exact absurd h.symm (several hb)
    | _ => exact List.singleton_inj.1 h

/-! ### What an array is built on -/

/-- What an array is built on, through all its dimensions; other types are built on themselves. -/
def core : Ty → Ty
  | .array e => e.core
  | a => a

/-- How many dimensions an array has; none for other types. -/
def rank : Ty → Nat
  | .array e => e.rank + 1
  | _ => 0

/-- An array is determined by its dimensions and what it is built on. -/
lemma eq_of_core (cores : a.core = b.core) (ranks : a.rank = b.rank) : a = b := by
  have rebuilt (x : Ty) : array^[x.rank] x.core = x := by
    induction x using rec_members with
    | array e ih => rw [rank, core, Function.iterate_succ_apply', ih]
    | _ => rfl
  rw [← rebuilt a, ← rebuilt b, cores, ranks]

/-- The type is displayed without an operator around other types. -/
def isAtom : Ty → Bool
  | .array _ | .wild | .wildExtends _ | .wildSuper _ | .inter _ => false
  | _ => true

/-- The type is displayed by a name or a keyword, and type arguments if it has any. -/
structure Worded (a : Ty) : Prop where
  atom : a.isAtom = true
  known : a ≠ .unknown

/-- A simple presentable type is built on a presentable type that is displayed without an
operator. -/
lemma Presentable.core (h : a.Presentable ns) (simple : a.Simple) :
    a.core.Presentable ns ∧ a.core.isAtom = true := by
  induction a using rec_members with
  | array e ih => exact ih h.elem.1 h.elem.2
  | wild | wildExtends | wildSuper => cases simple.notWildcard
  | inter => cases simple.notIntersection
  | _ => exact ⟨h, rfl⟩

/-! ### A class and its type arguments -/

/-- The type arguments of a class; none for other types. -/
def args : Ty → List Ty
  | .cls _ as => as
  | _ => []

/-- A class without its type arguments; other types as they are. -/
def bare : Ty → Ty
  | .cls c _ => .cls c []
  | a => a

/-- A type is determined by its type arguments and the rest of it. -/
lemma eq_of_bare (heads : a.bare = b.bare) (lists : a.args = b.args) : a = b := by
  cases a <;> cases b <;> simp_all [bare, args]

/-- The type arguments of a presentable type are presentable. -/
lemma Presentable.args (h : a.Presentable ns) : ∀ x ∈ a.args, x.Presentable ns := by
  cases a with
  | cls c as => exact (everywhere_cls.1 h).2
  | _ => exact fun x hx => nomatch hx

/-- What a type refers to decides all of it but the type arguments. -/
lemma bare_eq_of_referent {n : Referent} (ha : a.referent? = some n)
    (hb : b.referent? = some n) : a.bare = b.bare := by
  cases a <;> cases ha <;> cases b <;> cases hb <;> rfl

end Presentable

end Ty

end LambdaTyping
