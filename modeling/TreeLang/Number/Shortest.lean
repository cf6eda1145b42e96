import TreeLang.Number.Rounding

/-!
# Shortest decimal text

The text of a finite double has the fewest digits that read back as that double. Of several such
texts of one length it is the nearest, and of two equally near the larger. It is always positional:
no exponent, no trailing zeros after the point, and no point when nothing follows it.
-/

namespace TreeLang.Number

/-- A decimal number: its digits after the point, times a power of ten. -/
structure Decimal where
  digits : Nat
  exponent : Int
  deriving DecidableEq

/-- A positive double together with the reals that round to it, as multiples of one unit `num /
den`. The bounds belong to the interval when the significand is even. -/
structure Interval where
  low : Nat
  value : Nat
  high : Nat
  closed : Bool
  num : Nat
  den : Nat

/-- The interval of a positive magnitude, in quarters of its last binary place. The gap below a
power of two is half the gap above it. -/
def Magnitude.interval (x : Magnitude) : Interval :=
  let q := x.exponent - 2
  let narrow : Bool := x.significand = 0x10000000000000 ∧ -1074 < x.exponent
  { low := if narrow then 4 * x.significand - 1 else 4 * x.significand - 2
    value := 4 * x.significand
    high := 4 * x.significand + 2
    closed := x.significand % 2 = 0
    num := Nat.pow 2 q.toNat
    den := Nat.pow 2 (-q).toNat }

namespace Interval

/-- The quotient of `n` units by `10 ^ p`. -/
def inUnitsOf (i : Interval) (n : Nat) (p : Int) : Nat × Nat :=
  (n * i.num * Nat.pow 10 (-p).toNat, i.den * Nat.pow 10 p.toNat)

/-- Whether `d * 10 ^ p` lies in the interval. -/
def holds (i : Interval) (d : Nat) (p : Int) : Bool :=
  let (low, den) := i.inUnitsOf i.low p
  let (high, _) := i.inUnitsOf i.high p
  if i.closed then low ≤ d * den && d * den ≤ high else low < d * den && d * den < high

/-- The least exponent `e` with `value < 10 ^ e`. -/
def pointPlace (i : Interval) : Int :=
  let log2 : Int := (Nat.log2 (i.value * i.num) : Int) - (Nat.log2 i.den : Int)
  let e := log2 * 30103 / 100000
  let below (e : Int) : Bool :=
    let (n, d) := i.inUnitsOf i.value e
    n < d
  if below e then e else if below (e + 1) then e + 1 else e + 2

/-- The multiple of `10 ^ p` in the interval that is nearest to the value, when there is one. -/
def onGrid (i : Interval) (p : Int) : Option Decimal :=
  let (n, d) := i.inUnitsOf i.value p
  let down := n / d
  let up := down + 1
  match i.holds down p, i.holds up p with
  | true, true => some ⟨if 2 * (n % d) < d then down else up, p⟩
  | true, false => some ⟨down, p⟩
  | false, true => some ⟨up, p⟩
  | false, false => none

/-- The first grid with a point in the interval, from `count` digits on, up to `fuel` more. -/
def search (i : Interval) (place : Int) (count : Nat) : Nat → Decimal
  | 0 => ⟨i.value, 0⟩
  | fuel + 1 =>
    match i.onGrid (place - count) with
    | some decimal => decimal
    | none => i.search place (count + 1) fuel

end Interval

/-- The shortest decimal that reads back as the magnitude; seventeen digits always do. -/
def Magnitude.shortest (x : Magnitude) : Decimal :=
  let i := x.interval
  i.search i.pointPlace 1 17

/-- Trailing zeros of a digit list, removed. -/
def trimZeros (digits : List Char) : List Char :=
  (digits.reverse.dropWhile (· = '0')).reverse

/-- The positional text of a positive decimal. -/
def Decimal.text (x : Decimal) : String :=
  let written := Nat.toDigits 10 x.digits
  let digits := trimZeros written
  let place := x.exponent + written.length
  if place ≤ 0 then
    String.ofList ('0' :: '.' :: (List.replicate (-place).toNat '0' ++ digits))
  else if digits.length ≤ place.toNat then
    String.ofList (digits ++ List.replicate (place.toNat - digits.length) '0')
  else
    String.ofList (digits.take place.toNat ++ '.' :: digits.drop place.toNat)

/-- The text of any double. -/
def text (x : Float) : String :=
  let sign := if isNegative x then "-" else ""
  if isFinite x then
    let m := decompose x
    sign ++ (if m.significand = 0 then "0" else m.shortest.text)
  else if x.toBits.toNat % 0x10000000000000 = 0 then sign ++ "inf"
  else "NaN"

end TreeLang.Number
