import TreeLang.Library.Splice
import TreeLang.Tree.Builder

/-!
# The prelude

The prelude declares the types that the language knows as ordinary records, so that their names
resolve like any other, and the functions whose work is done natively, with empty bodies.
-/

namespace TreeLang

/-- The name under which the prelude is a library. -/
def preludeName : String := "Prelude"

/-- The records whose values are written as literals and that have no constructor. -/
def primitiveTypes : List String := ["Boolean", "Number", "String"]

/-- The types that are known without a declaration. -/
def builtinTypes : List String := ["Boolean", "Number", "String", "Color", "Unit", "Array"]

/-- A record without members, as a statement. -/
def emptyRecord (name : String) : Build Statement := do
  Build.declaration (← Build.record name [] [])

/-- The record of a colour, with its hexadecimal form. -/
def colorRecord : Build Statement := do
  let text ← Build.type "String"
  let value ← Build.variableNamed "value" (some text) none
  Build.declaration (← Build.record "Color" [] [value])

/-- A namespace with one native function of two parameters. -/
def nativeSpace (spaceName name first firstType second secondType resultType : String) :
    Build Statement := do
  let firstType ← Build.type firstType
  let first ← Build.parameter none first firstType
  let secondType ← Build.type secondType
  let second ← Build.parameter none second secondType
  let resultType ← Build.type resultType
  let function ← Build.function name [] [first, second] resultType []
  Build.declaration (← Build.space spaceName [function])

/-- The parts of the prelude in order. -/
def buildPrelude : Build Program := do
  let boolean ← emptyRecord "Boolean"
  let number ← emptyRecord "Number"
  let string ← emptyRecord "String"
  let unit ← emptyRecord "Unit"
  let color ← colorRecord
  let concat ← nativeSpace "String" "concat" "a" "String" "b" "String" "String"
  let saturate ← nativeSpace "Color" "saturate" "color" "Color" "factor" "Number" "Color"
  Build.program [boolean, number, string, unit, color, concat, saturate]

/-- The built-in library. -/
def prelude : Program := (buildPrelude .start).1

/-- A shelf with the prelude on it, unless it holds a library of that name. -/
def Shelf.withPrelude (shelf : Shelf) : Shelf :=
  if shelf.has preludeName then shelf else shelf ++ [(preludeName, prelude)]

end TreeLang
