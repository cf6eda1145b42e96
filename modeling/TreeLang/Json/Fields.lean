import TreeLang.Json
import TreeLang.NodeId
import TreeLang.Number.Rounding

/-!
# Fields of JSON objects

A record is an object whose members are its fields, in any order and among others that are not read,
or else a list of its first fields in order. A variant is a record that also names its kind. Reading
fails on a field that is given twice, on one that is missing without a default, and on a value of
another type.
-/

namespace TreeLang.Json

/-- The fields that a JSON value gives for a record. -/
abbrev Fields := List (String × Json)

/-- Whether no field name stands twice in a list of members. -/
def givenOnce (names : List String) (members : Fields) : Bool :=
  names.all fun name => (members.filter (·.1 = name)).length ≤ 1

/-- The fields of a record with the given field names. -/
def record? (names : List String) : Json → Option Fields
  | obj members => if givenOnce names members then some members else none
  | arr items => if items.length ≤ names.length then some (names.zip items) else none
  | _ => none

/-- A kind of variant: its name and its field names. -/
abbrev Kind := String × List String

/-- The kind that a JSON value names. Within another variant its position is a name too. -/
def kind? (kinds : List Kind) (nested : Bool) : Json → Option Kind
  | str name => kinds.find? (·.1 = name)
  | integer position => if nested ∧ 0 ≤ position then kinds[position.toNat]? else none
  | _ => none

/-- The kind of a variant and its fields. -/
def variant? (kinds : List Kind) (nested : Bool) : Json → Option (String × Fields)
  | obj members => do
    let [tag] := members.filter (·.1 = "kind") | none
    let (name, names) ← kind? kinds nested tag.2
    let fields ← record? names (obj (members.filter (·.1 ≠ "kind")))
    some (name, fields)
  | arr (tag :: items) => do
    let (name, names) ← kind? kinds nested tag
    let fields ← record? names (arr items)
    some (name, fields)
  | _ => none

/-- The name of a case without fields: a string, or an object whose one member is null. Within a
variant that member may also be an object without members. -/
def plainCase? (nested : Bool) : Json → Option String
  | str name => some name
  | obj [(name, null)] => some name
  | obj [(name, obj [])] => if nested then some name else none
  | _ => none

/-- The value of a field, when given. -/
def Fields.find? (fields : Fields) (name : String) : Option Json :=
  (List.find? (·.1 = name) fields).map Prod.snd

/-- A field that must be given. -/
def Fields.required (fields : Fields) (name : String) (decode : Json → Option α) : Option α :=
  (fields.find? name).bind decode

/-- A field that may be missing or null. -/
def Fields.optional (fields : Fields) (name : String) (decode : Json → Option α) :
    Option (Option α) :=
  match fields.find? name with
  | none | some null => some none
  | some value => (decode value).map some

/-- A field that may be missing, but not null. -/
def Fields.defaulted (fields : Fields) (name : String) (decode : Json → Option α)
    (otherwise : α) : Option α :=
  match fields.find? name with
  | none => some otherwise
  | some value => decode value

/-! ## Values of one type -/

/-- A string. -/
def text? : Json → Option String
  | str text => some text
  | _ => none

/-- A truth value. -/
def flag? : Json → Option Bool
  | bool value => some value
  | _ => none

/-- A number; a whole number becomes the nearest double. -/
def number? : Json → Option Float
  | integer n => some (Number.ofInt n)
  | real x => some x
  | _ => none

/-- A list of values. -/
def list? (decode : Json → Option α) : Json → Option (List α)
  | arr items => items.mapM decode
  | _ => none

/-- An id: a whole number from zero on, of at most 64 bits. -/
def nodeId? : Json → Option NodeId
  | integer n => if 0 ≤ n then NodeId.ofNat? n.toNat else none
  | _ => none

/-- An id, written. -/
def ofNodeId (id : NodeId) : Json := integer id.value

mutual

/-- How deeply containers are nested. -/
def depth : Json → Nat
  | arr items => depths items + 1
  | obj members => memberDepths members + 1
  | _ => 1

/-- The depth of the deepest item. -/
def depths : List Json → Nat
  | [] => 0
  | item :: rest => max item.depth (depths rest)

/-- The depth of the deepest member. -/
def memberDepths : List (String × Json) → Nat
  | [] => 0
  | (_, value) :: rest => max value.depth (memberDepths rest)

end

end TreeLang.Json
