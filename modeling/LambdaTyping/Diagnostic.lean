/-!
# Diagnostics

Findings about program text: how severe, what, and where.
-/

namespace LambdaTyping

/-- A stretch of program text, from `start` up to but not including `stop`. -/
structure Span where
  start : Nat
  stop : Nat
  deriving DecidableEq

namespace Span

/-- How long the stretch is; one that ends before it starts has no length. -/
def length (s : Span) : Nat :=
  s.stop - s.start

/-- Whether the stretch is empty. -/
def isEmpty (s : Span) : Bool :=
  s.stop ≤ s.start

/-- The empty stretches are those without length. -/
theorem isEmpty_iff {s : Span} : s.isEmpty = true ↔ s.length = 0 := by
  simp [isEmpty, length, Nat.sub_eq_zero_iff_le]

/-- The text that shows the stretch to a developer. -/
def describe (s : Span) : String :=
  s!"Span({s.start}..{s.stop})"

end Span

/-- How severe a finding is. -/
inductive Severity where
  | error | warning | info
  deriving DecidableEq

namespace Severity

/-- The word for the severity. -/
def name : Severity → String
  | error => "error"
  | warning => "warning"
  | info => "info"

/-- The severity a word stands for. -/
def ofName? (word : String) : Option Severity :=
  [error, warning, info].find? fun s => s.name = word

/-- Each severity is read back from its word. -/
theorem ofName?_name (s : Severity) : ofName? s.name = some s := by
  cases s <;> decide

end Severity

/-- A finding, with a code that names its kind. -/
structure Diagnostic where
  severity : Severity
  code : String
  message : String
  span : Option Span
  deriving DecidableEq

namespace Diagnostic

/-- A finding that is an error. -/
def error (code message : String) (span : Option Span) : Diagnostic :=
  ⟨.error, code, message, span⟩

/-- A finding that is a warning. -/
def warning (code message : String) (span : Option Span) : Diagnostic :=
  ⟨.warning, code, message, span⟩

end Diagnostic

end LambdaTyping
