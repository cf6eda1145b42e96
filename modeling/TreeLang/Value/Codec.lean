import TreeLang.Term.Codec
import TreeLang.Value

/-!
# The JSON form of values

The content of a value is an object whose one member names its sort; the value that says nothing is
a bare word. A value may be a list of its two fields, but the fields of a content are always named.
-/

namespace TreeLang

open Json

/-- The word for a native function. -/
def Builtin.word : Builtin → String
  | .stringConcat => "stringConcat"
  | .colorSaturate => "colorSaturate"

/-- Decodes a native function. -/
def Builtin.ofJson? (json : Json) : Option Builtin :=
  (plainCase? false json).bind fun word =>
    [Builtin.stringConcat, Builtin.colorSaturate].find? fun builtin => builtin.word = word

mutual

/-- Decodes a value; the bound on its depth is first. -/
def Value.ofJsonAt? : Nat → Json → Option Value
  | 0, _ => none
  | fuel + 1, json => do
    let fields ← record? ["type", "memory"] json
    let type ← fields.required "type" Term.ofJson?
    let memory ← fields.required "memory" (Memory.ofJsonAt? fuel)
    some (.mk type memory)

/-- Decodes a content. -/
def Memory.ofJsonAt? : Nat → Json → Option Memory
  | 0, _ => none
  | fuel + 1, json =>
    match json with
    | str "unit" | obj [("unit", null)] => some .unit
    | obj [("bool", value)] => (flag? value).map .bool
    | obj [("number", value)] => (number? value).map .number
    | obj [("string", value)] => (text? value).map .string
    | obj [("array", value)] => (list? (Value.ofJsonAt? fuel) value).map .array
    | obj [("enum", obj members)] => do
      let fields ← record? ["case", "values"] (obj members)
      let case ← fields.required "case" text?
      let values ← fields.required "values" (list? (Value.ofJsonAt? fuel))
      some (.enumeration case values)
    | obj [("record", obj members)] => (Slot.ofMembersAt? fuel members).map .record
    | obj [("function", value)] => (Callable.ofJsonAt? fuel value).map .function
    | _ => none

/-- Decodes what can be called. -/
def Callable.ofJsonAt? : Nat → Json → Option Callable
  | 0, _ => none
  | fuel + 1, json =>
    match json with
    | obj [("builtin", value)] => (Builtin.ofJson? value).map .builtin
    | obj [("recordInit", obj given)] => do
      let fields ← record? ["members"] (obj given)
      let members ← fields.required "members" fun
        | obj members => Slot.ofMembersAt? fuel members
        | _ => none
      some (.constructor members)
    | obj [("enumInit", obj given)] => do
      let fields ← record? ["case"] (obj given)
      let case ← fields.required "case" text?
      some (.caseOf case)
    | _ => none

/-- Decodes the members of a record, of which null has no value. -/
def Slot.ofMembersAt? : Nat → List (String × Json) → Option (List Slot)
  | 0, _ => none
  | fuel + 1, members =>
    members.foldlM (fun slots (name, json) =>
      match json with
      | null => some (Slot.declare (.vacant name) slots)
      | json => (Value.ofJsonAt? fuel json).map fun value =>
          Slot.declare (.filled name value) slots) []

end

/-- Decodes a value. Each level of a value takes at most two levels of calls for each of its own. -/
def Value.ofJson? (json : Json) : Option Value := Value.ofJsonAt? (2 * json.depth) json

mutual

/-- Encodes a value. -/
def Value.toJson : Value → Json
  | .mk type memory => obj [("type", type.toJson), ("memory", memory.toJson)]

/-- Encodes a content. -/
def Memory.toJson : Memory → Json
  | .unit => str "unit"
  | .bool value => obj [("bool", bool value)]
  | .number value => obj [("number", real value)]
  | .string value => obj [("string", str value)]
  | .array items => obj [("array", arr (Value.toJsons items))]
  | .enumeration case values =>
    obj [("enum", obj [("case", str case), ("values", arr (Value.toJsons values))])]
  | .record members => obj [("record", obj (Slot.toMembers members))]
  | .function callable => obj [("function", callable.toJson)]

/-- Encodes what can be called. -/
def Callable.toJson : Callable → Json
  | .builtin builtin => obj [("builtin", str builtin.word)]
  | .constructor members =>
    obj [("recordInit", obj [("members", obj (Slot.toMembers members))])]
  | .caseOf case => obj [("enumInit", obj [("case", str case)])]

/-- Encodes a list of values. -/
def Value.toJsons : List Value → List Json
  | [] => []
  | value :: rest => value.toJson :: Value.toJsons rest

/-- Encodes the members of a record. -/
def Slot.toMembers : List Slot → List (String × Json)
  | [] => []
  | .vacant name :: rest => (name, null) :: Slot.toMembers rest
  | .filled name value :: rest => (name, value.toJson) :: Slot.toMembers rest

end

end TreeLang
