/-!
# JSON values

Whole numbers and other numbers are kept apart: an id must be written as a whole number. An object
is the list of its members in written order.
-/

namespace TreeLang

/-- A JSON value. -/
inductive Json where
  | null
  | bool (value : Bool)
  | integer (value : Int)
  | real (value : Float)
  | str (value : String)
  | arr (items : List Json)
  | obj (members : List (String × Json))

instance : Inhabited Json := ⟨.null⟩

namespace Json

/-- A list of strings. -/
def strings (texts : List String) : Json := arr (texts.map str)

/-- A natural number. -/
def nat (n : Nat) : Json := integer n

/-- An optional value, null when absent. -/
def optional (encode : α → Json) : Option α → Json
  | none => null
  | some a => encode a

/-- A list of values. -/
def list (encode : α → Json) (values : List α) : Json := arr (values.map encode)

mutual

/-- A JSON value with the members of its objects in the order of their names. -/
def sorted : Json → Json
  | arr items => arr (sortedItems items)
  | obj members =>
    obj ((sortedMembers members).mergeSort fun a b => a.1 ≤ b.1)
  | json => json

/-- The items of an array, each sorted. -/
def sortedItems : List Json → List Json
  | [] => []
  | item :: rest => item.sorted :: sortedItems rest

/-- The members of an object, each sorted. -/
def sortedMembers : List (String × Json) → List (String × Json)
  | [] => []
  | (name, value) :: rest => (name, value.sorted) :: sortedMembers rest

end

end Json

end TreeLang
