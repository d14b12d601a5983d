import LambdaTyping.Hierarchy.Closure
import LambdaTyping.Proofs.Type.NormalForm

/-!
# Well-scoped tables

A declaration mentions the type parameters of its class, and a method its own besides. All
properties here can be decided for a given table.
-/

namespace LambdaTyping

namespace Ty

mutual

/-- The type variables that occur in the type, at any depth. -/
def freeVars : Ty → List TypeVarId
  | .var v => [v]
  | .cls _ args => freeVarsOf args
  | .array e => freeVars e
  | .wildExtends b => freeVars b
  | .wildSuper b => freeVars b
  | .inter ms => freeVarsOf ms
  | .void | .null | .unknown | .prim _ | .wild => []

/-- The type variables that occur in the types of a list. -/
def freeVarsOf : List Ty → List TypeVarId
  | [] => []
  | t :: ts => freeVars t ++ freeVarsOf ts

end

/-- The type variables of a list are those of its types. -/
lemma mem_freeVarsOf {v : TypeVarId} {ts : List Ty} :
    v ∈ freeVarsOf ts ↔ ∃ a ∈ ts, v ∈ a.freeVars := by
  induction ts with
  | nil => simp [freeVarsOf]
  | cons t ts ih => simp [freeVarsOf, ih]

/-- The type variables that occur in a type are those it mentions. -/
lemma mem_freeVars {v : TypeVarId} {t : Ty} : v ∈ t.freeVars ↔ t.mentions v = true := by
  have any {ts : List Ty} (ih : ∀ a ∈ ts, (v ∈ a.freeVars ↔ a.mentions v = true)) :
      v ∈ freeVarsOf ts ↔ mentionsAny v ts = true := by
    rw [mem_freeVarsOf, mentionsAny_eq, List.any_eq_true]
    exact exists_congr fun a => and_congr_right (ih a)
  induction t using rec_members with
  | var w => simp [freeVars, mentions, eq_comm]
  | array e ih => rwa [freeVars, mentions]
  | cls c args ih =>
    rw [freeVars, mentions]
    exact any ih
  | wildExtends b ih => rwa [freeVars, mentions]
  | wildSuper b ih => rwa [freeVars, mentions]
  | inter ms ih =>
    rw [freeVars, mentions]
    exact any ih
  | _ => simp [freeVars, mentions]

/-- The type mentions only these type variables. -/
def ScopedIn (vs : List TypeVarId) (t : Ty) : Prop :=
  ∀ v, t.mentions v = true → v ∈ vs

instance (vs : List TypeVarId) (t : Ty) : Decidable (t.ScopedIn vs) :=
  decidable_of_iff (∀ v ∈ t.freeVars, v ∈ vs) (forall_congr' fun _ => by rw [mem_freeVars])

end Ty

/-- The types that the declaration of a method names. -/
def MethodDecl.types (m : MethodDecl) : List Ty :=
  m.returnType :: m.params

namespace ClassTable

/-- The supertypes of a class are class types, and its declaration mentions its own type parameters
only; a method mentions its own besides. -/
structure WellScoped (t : ClassTable) : Prop where
  isClass : ∀ d ∈ t.classes, ∀ s ∈ d.supertypes, s.asClass?.isSome = true
  supertypes : ∀ d ∈ t.classes, ∀ s ∈ d.supertypes, s.ScopedIn d.typeParams
  bounds : ∀ d ∈ t.classes, ∀ v ∈ d.typeParams, ∀ b ∈ t.upperBounds v, b.ScopedIn d.typeParams
  methods : ∀ d ∈ t.classes, ∀ m ∈ d.methods, ∀ ty ∈ m.types,
    ty.ScopedIn (d.typeParams ++ m.typeParams)

/-- All types that the table declares are in normal form. -/
structure Normal (t : ClassTable) : Prop where
  supertypes : ∀ d ∈ t.classes, ∀ s ∈ d.supertypes, s.Normal
  bounds : ∀ p ∈ t.params, ∀ b ∈ p.upperBounds, b.Normal
  methods : ∀ d ∈ t.classes, ∀ m ∈ d.methods, ∀ ty ∈ m.types, ty.Normal

variable {t : ClassTable}

instance : Decidable t.WellScoped :=
  decidable_of_iff
    ((∀ d ∈ t.classes, ∀ s ∈ d.supertypes, s.asClass?.isSome = true) ∧
      (∀ d ∈ t.classes, ∀ s ∈ d.supertypes, s.ScopedIn d.typeParams) ∧
      (∀ d ∈ t.classes, ∀ v ∈ d.typeParams, ∀ b ∈ t.upperBounds v, b.ScopedIn d.typeParams) ∧
      ∀ d ∈ t.classes, ∀ m ∈ d.methods, ∀ ty ∈ m.types, ty.ScopedIn (d.typeParams ++ m.typeParams))
    ⟨fun ⟨a, b, c, d⟩ => ⟨a, b, c, d⟩, fun ⟨a, b, c, d⟩ => ⟨a, b, c, d⟩⟩

instance : Decidable t.Normal :=
  decidable_of_iff
    ((∀ d ∈ t.classes, ∀ s ∈ d.supertypes, s.Normal) ∧
      (∀ p ∈ t.params, ∀ b ∈ p.upperBounds, b.Normal) ∧
      ∀ d ∈ t.classes, ∀ m ∈ d.methods, ∀ ty ∈ m.types, ty.Normal)
    ⟨fun ⟨a, b, c⟩ => ⟨a, b, c⟩, fun ⟨a, b, c⟩ => ⟨a, b, c⟩⟩

/-- A class that is found by its number is among the classes of the table. -/
lemma mem_classes_of_class? {c : ClassId} {d : ClassDecl} (h : t.class? c = some d) :
    d ∈ t.classes :=
  Array.mem_of_getElem? h

end ClassTable

end LambdaTyping
