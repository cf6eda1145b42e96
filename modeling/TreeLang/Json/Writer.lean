import TreeLang.Json
import TreeLang.Number.Shortest

/-!
# Writing JSON

`line` writes a value on one line without blanks, `pretty` on many with two blanks of indentation a
level. A number that is not whole has its shortest digits, with a point between magnitudes of
`10 ^ -5` and `10 ^ 16` and an exponent outside them.
-/

namespace TreeLang.Json

/-- The digits of a decimal with a point and an exponent where they keep the text short. -/
def decimalText (x : Number.Decimal) : String :=
  let digits := Number.trimZeros (Nat.toDigits 10 x.digits)
  let place := x.exponent + (Nat.toDigits 10 x.digits).length
  let text : List Char :=
    if 0 < place ∧ place ≤ 16 then
      if digits.length ≤ place.toNat then
        digits ++ List.replicate (place.toNat - digits.length) '0' ++ ['.', '0']
      else digits.take place.toNat ++ '.' :: digits.drop place.toNat
    else if -5 < place ∧ place ≤ 0 then
      '0' :: '.' :: (List.replicate (-place).toNat '0' ++ digits)
    else
      let head := match digits with
        | [d] => [d]
        | d :: rest => d :: '.' :: rest
        | [] => []
      head ++ 'e' :: (toString (place - 1)).toList
  String.ofList text

/-- A number as JSON; there is no form for infinities and not-a-number but null. -/
def numberText (x : Float) : String :=
  if Number.isFinite x then
    let m := Number.decompose x
    (if Number.isNegative x then "-" else "") ++
      (if m.significand = 0 then "0.0" else decimalText m.shortest)
  else "null"

/-- One character of a written string. -/
def writtenChar (c : Char) : List Char :=
  if c = '"' then ['\\', '"']
  else if c = '\\' then ['\\', '\\']
  else if c = '\n' then ['\\', 'n']
  else if c = '\r' then ['\\', 'r']
  else if c = '\t' then ['\\', 't']
  else if c.toNat = 8 then ['\\', 'b']
  else if c.toNat = 12 then ['\\', 'f']
  else if c.toNat < 32 then
    ['\\', 'u', '0', '0', Nat.digitChar (c.toNat / 16), Nat.digitChar (c.toNat % 16)]
  else [c]

/-- A string between quotes. -/
def stringText (s : String) : String :=
  String.ofList ('"' :: (s.toList.flatMap writtenChar ++ ['"']))

mutual

/-- The value on one line. -/
def line : Json → String
  | null => "null"
  | bool value => if value then "true" else "false"
  | integer value => toString value
  | real value => numberText value
  | str value => stringText value
  | arr items => "[" ++ ",".intercalate (lines items) ++ "]"
  | obj members => "\x7b" ++ ",".intercalate (memberLines members) ++ "\x7d"

/-- The items of an array, each on one line. -/
def lines : List Json → List String
  | [] => []
  | item :: rest => line item :: lines rest

/-- The members of an object, each on one line. -/
def memberLines : List (String × Json) → List String
  | [] => []
  | (name, value) :: rest => (stringText name ++ ":" ++ line value) :: memberLines rest

end

/-- A line break and the indentation of a level. -/
def newline (level : Nat) : String := "\n" ++ "".pushn ' ' (2 * level)

mutual

/-- The value over many lines, starting at an indentation level. -/
def prettyAt (level : Nat) : Json → String
  | arr [] => "[]"
  | arr (item :: rest) =>
    "[" ++ newline (level + 1) ++
      ("," ++ newline (level + 1)).intercalate (prettyItems (level + 1) (item :: rest)) ++
      newline level ++ "]"
  | obj [] => "\x7b\x7d"
  | obj (member :: rest) =>
    "\x7b" ++ newline (level + 1) ++
      ("," ++ newline (level + 1)).intercalate (prettyMembers (level + 1) (member :: rest)) ++
      newline level ++ "\x7d"
  | null => "null"
  | bool value => if value then "true" else "false"
  | integer value => toString value
  | real value => numberText value
  | str value => stringText value

/-- The items of an array over many lines. -/
def prettyItems (level : Nat) : List Json → List String
  | [] => []
  | item :: rest => prettyAt level item :: prettyItems level rest

/-- The members of an object over many lines. -/
def prettyMembers (level : Nat) : List (String × Json) → List String
  | [] => []
  | (name, value) :: rest =>
    (stringText name ++ ": " ++ prettyAt level value) :: prettyMembers level rest

end

/-- The value over many lines. -/
def pretty (value : Json) : String := prettyAt 0 value

end TreeLang.Json
