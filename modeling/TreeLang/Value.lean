import TreeLang.Number.Rounding
import TreeLang.Term

/-!
# Values

A value is what a node computes to, together with the term that it was computed at. Records keep
their members in order, and a member may have no value. Two values are equal when their terms and
their contents are; the order of record members does not count.
-/

namespace TreeLang

/-- The functions that are implemented natively. -/
inductive Builtin where
  | stringConcat
  | colorSaturate
  deriving DecidableEq

mutual

/-- A value and its term. -/
inductive Value where
  | mk (type : Term) (memory : Memory)

/-- The content of a value. -/
inductive Memory where
  | unit
  | bool (value : Bool)
  | number (value : Float)
  | string (value : String)
  | array (items : List Value)
  | enumeration (case : String) (values : List Value)
  | record (members : List Slot)
  | function (callable : Callable)

/-- What can be called: a native function, the constructor of a record with the defaults of its
members, or a case that carries values. -/
inductive Callable where
  | builtin (builtin : Builtin)
  | constructor (members : List Slot)
  | caseOf (case : String)

/-- A member of a record, with a value or without. -/
inductive Slot where
  | vacant (name : String)
  | filled (name : String) (value : Value)

end

namespace Value

/-- The term of a value. -/
def type : Value → Term
  | .mk type _ => type

/-- The content of a value. -/
def memory : Value → Memory
  | .mk _ memory => memory

end Value

namespace Slot

/-- The name of a member. -/
def name : Slot → String
  | .vacant name | .filled name _ => name

/-- The value of a member. -/
def value? : Slot → Option Value
  | .vacant _ => none
  | .filled _ value => some value

/-- A member from its name and its value. -/
def ofOption (name : String) : Option Value → Slot
  | none => .vacant name
  | some value => .filled name value

/-- The member of a name. -/
def find? (name : String) (members : List Slot) : Option Slot :=
  List.find? (fun slot => slot.name = name) members

/-- Declares a member: in the place of an earlier one of its name, or else last. -/
def declare (slot : Slot) : List Slot → List Slot
  | [] => [slot]
  | first :: rest => if first.name = slot.name then slot :: rest else first :: declare slot rest

/-- Fills the member of a name; without such a member nothing changes. -/
def fillNamed (name : String) (value : Value) : List Slot → List Slot
  | [] => []
  | first :: rest =>
    if first.name = name then .filled name value :: rest else first :: fillNamed name value rest

/-- Fills the member at a position; without such a member nothing changes. -/
def fillAt : Nat → Value → List Slot → List Slot
  | _, _, [] => []
  | 0, value, first :: rest => .filled first.name value :: rest
  | position + 1, value, first :: rest => first :: fillAt position value rest

end Slot

namespace Value

/-! ## Making values -/

/-- The value that says nothing. -/
def unit : Value := .mk .unit .unit

/-- A truth value. -/
def bool (b : Bool) : Value := .mk .boolean (.bool b)

/-- A number. -/
def number (x : Float) : Value := .mk .number (.number x)

/-- A string. -/
def string (s : String) : Value := .mk .string (.string s)

/-- A colour: a record that holds its hexadecimal form. -/
def color (hex : String) : Value := .mk .color (.record [.filled "value" (string hex)])

/-! ## Reading values -/

/-- The truth value in a value. -/
def asBool : Value → Option Bool
  | .mk _ (.bool b) => some b
  | _ => none

/-- The number in a value. -/
def asNumber : Value → Option Float
  | .mk _ (.number x) => some x
  | _ => none

/-- The string in a value. -/
def asString : Value → Option String
  | .mk _ (.string s) => some s
  | _ => none

/-- The hexadecimal form of a colour. -/
def asColor : Value → Option String
  | .mk _ (.record members) => ((Slot.find? "value" members).bind Slot.value?).bind asString
  | _ => none

/-- What can be called in a value. -/
def asCallable : Value → Option Callable
  | .mk _ (.function callable) => some callable
  | _ => none

end Value

/-! ## Equality -/

mutual

/-- Whether two values have the same term and the same content. -/
def Value.same : Value → Value → Bool
  | .mk type memory, .mk type' memory' => decide (type = type') && memory.same memory'
termination_by structural value => value

/-- Whether two contents are the same. Numbers are compared as numbers are. -/
def Memory.same : Memory → Memory → Bool
  | .unit, .unit => true
  | .bool a, .bool b => a == b
  | .number a, .number b => a == b
  | .string a, .string b => a == b
  | .array as, .array bs => Value.sameList as bs
  | .enumeration a as, .enumeration b bs => a == b && Value.sameList as bs
  | .record as, .record bs => as.length == bs.length && Slot.sameWithin as bs
  | .function a, .function b => a.same b
  | _, _ => false
termination_by structural memory => memory

/-- Whether two things that can be called are the same. -/
def Callable.same : Callable → Callable → Bool
  | .builtin a, .builtin b => a = b
  | .constructor as, .constructor bs => as.length == bs.length && Slot.sameWithin as bs
  | .caseOf a, .caseOf b => a == b
  | _, _ => false
termination_by structural callable => callable

/-- Whether two lists of values are the same. -/
def Value.sameList : List Value → List Value → Bool
  | [], [] => true
  | a :: as, b :: bs => a.same b && Value.sameList as bs
  | _, _ => false
termination_by structural values => values

/-- Whether every member of the first list is in the second one, with the same value. -/
def Slot.sameWithin : List Slot → List Slot → Bool
  | [], _ => true
  | .vacant name :: rest, members =>
    (match Slot.find? name members with
      | some (.vacant _) => true
      | _ => false) && Slot.sameWithin rest members
  | .filled name value :: rest, members =>
    (match Slot.find? name members with
      | some (.filled _ other) => value.same other
      | _ => false) && Slot.sameWithin rest members
termination_by structural members => members

end

/-- How two numbers compare; not-a-number compares with nothing. -/
def compareNumbers? (a b : Float) : Option Ordering :=
  if a < b then some .lt
  else if a == b then some .eq
  else if b < a then some .gt
  else none

/-- How two contents compare: numbers by size, strings by code points, others not at all. -/
def Memory.compare? : Memory → Memory → Option Ordering
  | .number a, .number b => compareNumbers? a b
  | .string a, .string b => some (if a < b then .lt else if a = b then .eq else .gt)
  | _, _ => none

end TreeLang
