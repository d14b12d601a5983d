import LambdaTyping.Table.Basic

/-!
# Display of types

Types as they are spelled in source text, with simple class names: `Function<? super String, T>`,
`int[]`, `Runnable & Serializable`.
-/

namespace LambdaTyping

/-- The simple name in a binary name: what stands after the last dot, with a dot for each `$`
between a class and a class nested in it. -/
def simpleName (binaryName : String) : String :=
  let chars := binaryName.toList
  let simple := (chars.reverse.takeWhile (· ≠ '.')).reverse
  .ofList (simple.map fun c => if c = '$' then '.' else c)

namespace ClassTable

/-- The name a class is shown by. -/
def className (t : ClassTable) (c : ClassId) : String :=
  match t.class? c with
  | some d => simpleName d.name
  | none => s!"<class#{c.raw}>"

/-- The name a type variable is shown by. -/
def paramName (t : ClassTable) (v : TypeVarId) : String :=
  match t.param? v with
  | some p => p.name
  | none => s!"<tv#{v.raw}>"

mutual

/-- The type as it is spelled in source text. -/
def display (t : ClassTable) : Ty → String
  | .void => "void"
  | .null => "null"
  | .unknown => "<unknown>"
  | .prim p => p.keyword
  | .array e => t.display e ++ "[]"
  | .cls c [] => t.className c
  | .cls c (a :: as) => t.className c ++ "<" ++ t.display a ++ t.displayRest ", " as ++ ">"
  | .var v => t.paramName v
  | .wild => "?"
  | .wildExtends b => "? extends " ++ t.display b
  | .wildSuper b => "? super " ++ t.display b
  | .inter [] => ""
  | .inter (m :: ms) => t.display m ++ t.displayRest " & " ms

/-- Each type of a list behind a separator. -/
def displayRest (t : ClassTable) (separator : String) : List Ty → String
  | [] => ""
  | a :: as => separator ++ t.display a ++ t.displayRest separator as

end

end ClassTable

end LambdaTyping
