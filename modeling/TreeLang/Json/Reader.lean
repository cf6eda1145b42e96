import TreeLang.Json
import TreeLang.Number.Rounding

/-!
# Reading JSON

The reader accepts exactly one value with blanks around it. Numbers without a fraction and an
exponent that fit 64 bits, signed or unsigned, are whole; all others become the nearest double and
are refused outside its range. Half of a surrogate pair is refused, and so is nesting of more than
127 levels.
-/

namespace TreeLang.Json

/-- Drops the blanks that may stand between tokens. -/
def skipBlanks (cs : List Char) : List Char :=
  cs.dropWhile fun c => c = ' ' || c = '\n' || c = '\t' || c = '\r'

/-- The value of a hexadecimal digit. -/
def hexDigit? (c : Char) : Option Nat :=
  if '0' ≤ c ∧ c ≤ '9' then some (c.toNat - 48)
  else if 'a' ≤ c ∧ c ≤ 'f' then some (c.toNat - 87)
  else if 'A' ≤ c ∧ c ≤ 'F' then some (c.toNat - 55)
  else none

/-- Four hexadecimal digits and what follows them. -/
def hexUnit? : List Char → Option (Nat × List Char)
  | a :: b :: c :: d :: rest => do
    let a ← hexDigit? a
    let b ← hexDigit? b
    let c ← hexDigit? c
    let d ← hexDigit? d
    some (((a * 16 + b) * 16 + c) * 16 + d, rest)
  | _ => none

/-- The character of a sixteen-bit escape; a first half of a pair needs its second half. -/
def escapedUnit? (cs : List Char) : Option (Char × List Char) := do
  let (unit, rest) ← hexUnit? cs
  if 0xD800 ≤ unit ∧ unit < 0xDC00 then
    match rest with
    | '\\' :: 'u' :: rest =>
      let (low, rest) ← hexUnit? rest
      if 0xDC00 ≤ low ∧ low < 0xE000 then
        some (Char.ofNat (0x10000 + (unit - 0xD800) * 0x400 + (low - 0xDC00)), rest)
      else none
    | _ => none
  else if 0xDC00 ≤ unit ∧ unit < 0xE000 then none
  else some (Char.ofNat unit, rest)

/-- The rest of a string after its opening quote; `done` holds the characters read, last first. -/
def readString : Nat → List Char → List Char → Option (String × List Char)
  | 0, _, _ => none
  | fuel + 1, done, cs =>
    match cs with
    | '"' :: rest => some (String.ofList done.reverse, rest)
    | '\\' :: 'u' :: rest =>
      match escapedUnit? rest with
      | some (c, rest) => readString fuel (c :: done) rest
      | none => none
    | '\\' :: c :: rest =>
      let plain : Option Char :=
        if c = '"' then some '"'
        else if c = '\\' then some '\\'
        else if c = '/' then some '/'
        else if c = 'b' then some (Char.ofNat 8)
        else if c = 'f' then some (Char.ofNat 12)
        else if c = 'n' then some '\n'
        else if c = 'r' then some '\r'
        else if c = 't' then some '\t'
        else none
      match plain with
      | some c => readString fuel (c :: done) rest
      | none => none
    | c :: rest => if c.toNat < 32 then none else readString fuel (c :: done) rest
    | [] => none

/-- The number written by a list of decimal digits. -/
def digitsValue (digits : List Char) : Nat :=
  digits.foldl (fun n c => n * 10 + (c.toNat - 48)) 0

/-- The digits at the head of a list, and the rest. -/
def spanDigits (cs : List Char) : List Char × List Char :=
  cs.span fun c => '0' ≤ c && c ≤ '9'

/-- The digits of a fraction, when a point is written. -/
def readFraction : List Char → Option (List Char × List Char)
  | '.' :: rest =>
    match spanDigits rest with
    | ([], _) => none
    | (digits, rest) => some (digits, rest)
  | cs => some ([], cs)

/-- The exponent after its letter: an optional sign and at least one digit. -/
def readExponentDigits (cs : List Char) : Option (Int × List Char) :=
  let (negative, cs) : Bool × List Char :=
    match cs with
    | '+' :: rest => (false, rest)
    | '-' :: rest => (true, rest)
    | _ => (false, cs)
  match spanDigits cs with
  | ([], _) => none
  | (digits, rest) =>
    let n : Int := digitsValue digits
    some (if negative then -n else n, rest)

/-- The exponent, when one is written. -/
def readExponent : List Char → Option (Option Int × List Char)
  | 'e' :: rest => (readExponentDigits rest).map fun (n, rest) => (some n, rest)
  | 'E' :: rest => (readExponentDigits rest).map fun (n, rest) => (some n, rest)
  | cs => some (none, cs)

/-- The value of a number from its parts. -/
def numberValue (negative : Bool) (whole fraction : List Char) (exponent : Option Int) :
    Option Json :=
  let signed (x : Float) : Json := real (if negative then Number.negated x else x)
  let significand := digitsValue (whole ++ fraction)
  match fraction, exponent with
  | [], none =>
    if negative then
      if 0 < significand ∧ significand ≤ 0x8000000000000000 then some (integer (-significand))
      else (Number.ofScientific? significand 0).map signed
    else if significand < 0x10000000000000000 then some (integer significand)
    else (Number.ofScientific? significand 0).map signed
  | _, _ => (Number.ofScientific? significand (exponent.getD 0 - fraction.length)).map signed

/-- A number: no leading zeros, and digits on both sides of a point. -/
def readNumber (cs : List Char) : Option (Json × List Char) := do
  let (negative, cs) : Bool × List Char :=
    match cs with
    | '-' :: rest => (true, rest)
    | _ => (false, cs)
  let (whole, rest) := spanDigits cs
  let sound : Bool := match whole with
    | [] => false
    | '0' :: _ :: _ => false
    | _ => true
  if sound then
    let (fraction, rest) ← readFraction rest
    let (exponent, rest) ← readExponent rest
    let value ← numberValue negative whole fraction exponent
    some (value, rest)
  else none

/-- What follows a fixed word at the head of the text. -/
def afterWord (word cs : List Char) : Option (List Char) :=
  if word.isPrefixOf cs then some (cs.drop word.length) else none

mutual

/-- One value at the head of the text; `depth` is how many containers may still be opened. -/
def readValue : Nat → Nat → List Char → Option (Json × List Char)
  | 0, _, _ => none
  | fuel + 1, depth, cs =>
    match skipBlanks cs with
    | 'n' :: rest => (afterWord ['u', 'l', 'l'] rest).map fun rest => (null, rest)
    | 't' :: rest => (afterWord ['r', 'u', 'e'] rest).map fun rest => (bool true, rest)
    | 'f' :: rest => (afterWord ['a', 'l', 's', 'e'] rest).map fun rest => (bool false, rest)
    | '"' :: rest =>
      (readString (rest.length + 1) [] rest).map fun (text, rest) => (str text, rest)
    | '[' :: rest =>
      match depth with
      | 0 => none
      | depth + 1 =>
        match skipBlanks rest with
        | ']' :: rest => some (arr [], rest)
        | rest => readItems fuel depth [] rest
    | '\x7b' :: rest =>
      match depth with
      | 0 => none
      | depth + 1 =>
        match skipBlanks rest with
        | '\x7d' :: rest => some (obj [], rest)
        | rest => readMembers fuel depth [] rest
    | cs => readNumber cs

/-- The items of an array up to its closing bracket; `done` holds those read, last first. -/
def readItems : Nat → Nat → List Json → List Char → Option (Json × List Char)
  | 0, _, _, _ => none
  | fuel + 1, depth, done, cs =>
    match readValue fuel depth cs with
    | none => none
    | some (item, rest) =>
      match skipBlanks rest with
      | ',' :: rest => readItems fuel depth (item :: done) rest
      | ']' :: rest => some (arr (item :: done).reverse, rest)
      | _ => none

/-- The members of an object up to its closing brace; `done` holds those read, last first. -/
def readMembers : Nat → Nat → List (String × Json) → List Char → Option (Json × List Char)
  | 0, _, _, _ => none
  | fuel + 1, depth, done, cs =>
    match skipBlanks cs with
    | '"' :: rest =>
      match readString (rest.length + 1) [] rest with
      | none => none
      | some (name, rest) =>
        match skipBlanks rest with
        | ':' :: rest =>
          match readValue fuel depth rest with
          | none => none
          | some (value, rest) =>
            match skipBlanks rest with
            | ',' :: rest => readMembers fuel depth ((name, value) :: done) rest
            | '\x7d' :: rest => some (obj ((name, value) :: done).reverse, rest)
            | _ => none
        | _ => none
    | _ => none

end

/-- Reads a text that holds one JSON value. Every call of the reader but one in two takes a
character, which bounds the number of nested calls. -/
def read? (text : String) : Option Json :=
  let cs := text.toList
  match readValue (2 * cs.length + 2) 127 cs with
  | some (value, rest) => if (skipBlanks rest).isEmpty then some value else none
  | none => none

end TreeLang.Json
