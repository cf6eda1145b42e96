import TreeLang.Value.Color
import TreeLang.Value.Text

/-!
# Native functions

A native function is known by the path under which the prelude declares it. A parameter takes the
argument with its label, or else an argument without a label at its position.
-/

namespace TreeLang

namespace Builtin

/-- All native functions. -/
def all : List Builtin := [.stringConcat, .colorSaturate]

/-- The segments of the path of a native function. -/
def segments : Builtin → List String
  | .stringConcat => ["String", "concat"]
  | .colorSaturate => ["Color", "saturate"]

/-- The native function at a path. -/
def ofPath? (path : List String) : Option Builtin :=
  all.find? fun builtin => builtin.segments = path

/-- The labels of the parameters, in order. -/
def parameters : Builtin → List String
  | .stringConcat => ["a", "b"]
  | .colorSaturate => ["color", "factor"]

/-- The argument for a parameter. -/
def argumentFor (given : List (Option String × Value)) (position : Nat) (parameter : String) :
    Option Value :=
  match given.find? fun argument => argument.1 = some parameter with
  | some argument => some argument.2
  | none =>
    match given[position]? with
    | some (none, value) => some value
    | _ => none

/-- The arguments for the parameters from a position on, when each of them has one. -/
def argumentsFor (given : List (Option String × Value)) :
    Nat → List String → Option (List Value)
  | _, [] => some []
  | position, parameter :: rest => do
    let value ← argumentFor given position parameter
    let values ← argumentsFor given (position + 1) rest
    some (value :: values)

/-- Calls a native function. There is no result when an argument is missing or is of another
sort. -/
def call (builtin : Builtin) (given : List (Option String × Value)) : Option Value := do
  let arguments ← argumentsFor given 0 builtin.parameters
  match builtin, arguments with
  | .stringConcat, [a, b] => do
    let a ← a.asString
    let b ← b.asString
    some (Value.string (a ++ b))
  | .colorSaturate, [color, factor] => do
    let hex ← color.asColor
    let factor ← factor.asNumber
    match saturate hex factor with
    | .ok hex => some (Value.color hex)
    | .error _ => none
  | _, _ => none

end Builtin

end TreeLang
