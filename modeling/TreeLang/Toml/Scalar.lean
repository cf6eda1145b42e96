import TreeLang.Number.Rounding
import TreeLang.Toml

/-!
# Unquoted TOML values

A word that stands for a value is a truth value, a date, a time or both, or a number. Digits may be
grouped by single underscores; a whole number fits 64 bits. A number too large for a double is
refused, one too far below zero is negative infinity.
-/

namespace TreeLang.Toml

/-- The values of exactly `count` decimal digits at the head, read as one number, and the rest. -/
def digits? (count : Nat) (cs : List Char) : Option (Nat × List Char) :=
  let head := cs.take count
  if head.length = count ∧ head.all Char.isDigit then
    some (head.foldl (fun n c => n * 10 + (c.toNat - 48)) 0, cs.drop count)
  else none

/-- The digits of a run of digits in groups; every underscore stands between two digits. -/
def grouped? (isDigit : Char → Bool) : List Char → Option (List Char)
  | [c] => if isDigit c then some [c] else none
  | c :: '_' :: rest => if isDigit c then (grouped? isDigit rest).map (c :: ·) else none
  | c :: rest => if isDigit c then (grouped? isDigit rest).map (c :: ·) else none
  | [] => none

/-- The value of a digit in bases up to sixteen. -/
def digitValue (c : Char) : Nat :=
  if c.isDigit then c.toNat - 48
  else if 'a' ≤ c ∧ c ≤ 'f' then c.toNat - 87
  else c.toNat - 55

/-- The number written by digits in a base. -/
def valueIn (base : Nat) (digits : List Char) : Nat :=
  digits.foldl (fun n c => n * base + digitValue c) 0

/-- A sign, when one is written: whether it is a minus, and the rest. -/
def signed : List Char → Bool × List Char
  | '+' :: rest => (false, rest)
  | '-' :: rest => (true, rest)
  | cs => (false, cs)

/-- The digits of a decimal number that does not start with a needless zero. -/
def decimal? (cs : List Char) : Option (List Char) :=
  match cs with
  | '0' :: _ :: _ => none
  | _ => grouped? Char.isDigit cs

/-- The digits of a number with the letter of its base. -/
def based? (isDigit : Char → Bool) (base : Nat) (cs : List Char) : Option Int :=
  (grouped? isDigit cs).map fun digits => (valueIn base digits : Int)

/-- A whole number in 64 bits. -/
def whole? (cs : List Char) : Option Int := do
  let value : Int ←
    match cs with
    | '0' :: 'x' :: rest =>
      based? (fun c => c.isDigit || ('a' ≤ c && c ≤ 'f') || ('A' ≤ c && c ≤ 'F')) 16 rest
    | '0' :: 'o' :: rest => based? (fun c => '0' ≤ c && c ≤ '7') 8 rest
    | '0' :: 'b' :: rest => based? (fun c => c = '0' || c = '1') 2 rest
    | _ =>
      let (minus, cs) := signed cs
      (decimal? cs).map fun digits =>
        if minus then -(valueIn 10 digits : Int) else valueIn 10 digits
  if -0x8000000000000000 ≤ value ∧ value < 0x8000000000000000 then some value else none

/-- The exponent after its letter. -/
def exponent? (cs : List Char) : Option Int :=
  let (minus, cs) := signed cs
  (grouped? Char.isDigit cs).map fun digits =>
    if minus then -(valueIn 10 digits : Int) else valueIn 10 digits

/-- Whether a character is the letter of an exponent. -/
def isExponentLetter (c : Char) : Bool := c = 'e' || c = 'E'

/-- A number with a fraction, an exponent or both, or one of the words for infinity and
not-a-number. -/
def real? (cs : List Char) : Option Float := do
  let (minus, cs) := signed cs
  let apply (x : Float) : Float := if minus then Number.negated x else x
  if cs = ['i', 'n', 'f'] then return apply (1.0 / 0.0)
  if cs = ['n', 'a', 'n'] then return apply (0.0 / 0.0)
  let (significand, tail) := cs.span fun c => !isExponentLetter c
  let (ones, fraction) := significand.span fun c => c != '.'
  let ones ← decimal? ones
  let exponent : Int ← if tail.isEmpty then some 0 else exponent? tail.tail
  let fraction ← if fraction.isEmpty then some [] else grouped? Char.isDigit fraction.tail
  if fraction.isEmpty && tail.isEmpty then none
  else
    match Number.ofScientific? (valueIn 10 (ones ++ fraction)) (exponent - fraction.length) with
    | some x => some (apply x)
    | none => if minus then some (-1.0 / 0.0) else none

/-- The number of days of a month. -/
def monthLength (year month : Nat) : Nat :=
  if month = 2 then
    if year % 4 = 0 ∧ (year % 100 ≠ 0 ∨ year % 400 = 0) then 29 else 28
  else if month = 4 ∨ month = 6 ∨ month = 9 ∨ month = 11 then 30
  else 31

/-- What follows one given character. -/
def after? (c : Char) : List Char → Option (List Char)
  | d :: rest => if d = c then some rest else none
  | [] => none

/-- A day of the calendar at the head, and the rest. -/
def afterDate? (cs : List Char) : Option (List Char) := do
  let (year, cs) ← digits? 4 cs
  let (month, cs) ← digits? 2 (← after? '-' cs)
  let (day, cs) ← digits? 2 (← after? '-' cs)
  if 1 ≤ month ∧ month ≤ 12 ∧ 1 ≤ day ∧ day ≤ monthLength year month then some cs else none

/-- A time of the day at the head, and the rest; a minute may have a leap second. -/
def afterTime? (cs : List Char) : Option (List Char) := do
  let (hour, cs) ← digits? 2 cs
  let (minute, cs) ← digits? 2 (← after? ':' cs)
  let (second, cs) ← digits? 2 (← after? ':' cs)
  if hour ≤ 23 ∧ minute ≤ 59 ∧ second ≤ 60 then
    match cs with
    | '.' :: c :: rest => if c.isDigit then some (rest.dropWhile Char.isDigit) else some cs
    | _ => some cs
  else none

/-- Whether the text is the distance of a time from the zero meridian, or empty. -/
def isOffset (cs : List Char) : Bool :=
  match cs with
  | [] => true
  | ['Z'] => true
  | ['z'] => true
  | sign :: rest =>
    if sign = '+' || sign = '-' then
      let read : Option Bool := do
        let (hour, cs) ← digits? 2 rest
        let (minute, cs) ← digits? 2 (← after? ':' cs)
        return decide (hour ≤ 23 ∧ minute ≤ 59) && cs.isEmpty
      read.getD false
    else false

/-- Whether the text is a day. -/
def isDate (cs : List Char) : Bool := afterDate? cs = some []

/-- Whether the text is a time with or without an offset. -/
def isTimeWithOffset (cs : List Char) : Bool :=
  match afterTime? cs with
  | some rest => isOffset rest
  | none => false

/-- Whether the text is a day, a time, or both with a letter between them. -/
def isMoment (cs : List Char) : Bool :=
  match afterDate? cs with
  | some [] => true
  | some (c :: rest) => (c = 'T' || c = 't') && isTimeWithOffset rest
  | none => afterTime? cs = some []

/-- The value of an unquoted word. -/
def scalar? (cs : List Char) : Option Toml :=
  if cs = ['t', 'r', 'u', 'e'] then some (flag true)
  else if cs = ['f', 'a', 'l', 's', 'e'] then some (flag false)
  else if isMoment cs then some (moment (String.ofList cs))
  else
    match whole? cs with
    | some n => some (whole n)
    | none => (real? cs).map real

end TreeLang.Toml
