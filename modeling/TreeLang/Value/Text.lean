import TreeLang.Number.Shortest
import TreeLang.Text.Quoted
import TreeLang.Value

/-!
# The text of values

Strings are quoted, cases begin with a point, and records with the name of their type. A member
without a value shows a line in its place, and what can be called stands in angle brackets.
-/

namespace TreeLang

/-- The path under which a native function is declared. -/
def Builtin.path : Builtin → String
  | .stringConcat => "String.concat"
  | .colorSaturate => "Color.saturate"

/-- The text of what can be called. -/
def Callable.text : Callable → String
  | .builtin inner => "<builtin " ++ inner.path ++ ">"
  | .constructor _ => "<constructor>"
  | .caseOf case => "<case " ++ case ++ ">"

mutual

/-- The text of a value. -/
def Value.text : Value → String
  | .mk type memory => memory.text (type.consName.getD "record")

/-- The text of a content; a record has the given name. -/
def Memory.text (recordName : String) : Memory → String
  | .unit => "()"
  | .bool value => if value then "true" else "false"
  | .number value => Number.text value
  | .string value => Text.quoted value
  | .array items => "[" ++ ", ".intercalate (Value.texts items) ++ "]"
  | .enumeration case values =>
    match values with
    | [] => "." ++ case
    | first :: rest => "." ++ case ++ "(" ++ ", ".intercalate (Value.texts (first :: rest)) ++ ")"
  | .record members => recordName ++ "(" ++ ", ".intercalate (Slot.texts members) ++ ")"
  | .function callable => callable.text

/-- The texts of a list of values. -/
def Value.texts : List Value → List String
  | [] => []
  | value :: rest => value.text :: Value.texts rest

/-- The texts of the members of a record. -/
def Slot.texts : List Slot → List String
  | [] => []
  | .vacant name :: rest => (name ++ ": _") :: Slot.texts rest
  | .filled name value :: rest => (name ++ ": " ++ value.text) :: Slot.texts rest

end

end TreeLang
