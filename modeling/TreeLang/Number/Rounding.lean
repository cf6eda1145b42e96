/-!
# Floating-point numbers and exact arithmetic

A finite double is a sign, a whole significand and a power of two. `decompose` reads these off its
bit pattern; `nearest` goes the other way and rounds an exact quotient to the nearest double, a tie
to the even significand. `remEuclid` is the exact remainder, which needs no rounding at all.

The constants are those of the format: `0x10000000000000` is `2 ^ 52`, the place of the hidden bit,
`0x20000000000000` its double, `0x8000000000000000` the sign bit, and `0x7FF0000000000000` the bit
pattern of infinity.
-/

namespace TreeLang.Number

/-- The significand and binary exponent of the magnitude of a finite number. -/
structure Magnitude where
  significand : Nat
  exponent : Int
  deriving DecidableEq

/-- The exponent field of a bit pattern, all ones for infinities and not-a-number. -/
def exponentField (x : Float) : Nat := (x.toBits.toNat / 0x10000000000000) % 2048

/-- Whether the sign bit is set. -/
def isNegative (x : Float) : Bool := x.toBits.toNat / 0x8000000000000000 = 1

/-- Whether a number is neither an infinity nor not-a-number. -/
def isFinite (x : Float) : Bool := exponentField x < 2047

/-- The magnitude of a finite number, as its bits give it. -/
def decompose (x : Float) : Magnitude :=
  let fraction := x.toBits.toNat % 0x10000000000000
  match exponentField x with
  | 0 => ⟨fraction, -1074⟩
  | field + 1 => ⟨0x10000000000000 + fraction, (field : Int) - 1074⟩

/-- `a / b` rounded to the nearest whole number, a tie to the even one. -/
def roundHalfEven (a b : Nat) : Nat :=
  let q := a / b
  let r := a % b
  if 2 * r < b then q
  else if b < 2 * r then q + 1
  else if q % 2 = 0 then q else q + 1

/-- The quotient `a / b` scaled by the power of two `2 ^ (-q)`, as a quotient. -/
def scaled (a b : Nat) (q : Int) : Nat × Nat :=
  if 0 ≤ q then (a, b * Nat.pow 2 q.toNat) else (a * Nat.pow 2 (-q).toNat, b)

/-- The least exponent for which the significand of `a / b` has 53 bits, but at least `-1074`. -/
def exponentOf (a b : Nat) : Int :=
  let q : Int := (Nat.log2 a : Int) - (Nat.log2 b : Int) - 53
  let (n, d) := scaled a b q
  let q := if n / d < 0x20000000000000 then q else q + 1
  if q < -1074 then -1074 else q

/-- The bit pattern of `significand * 2 ^ q`; a carry out of the significand moves into the
exponent field, and what is too large becomes infinite. -/
def assemble (significand : Nat) (q : Int) : Nat :=
  if significand = 0 then 0
  else if significand < 0x10000000000000 then significand
  else
    let bits := (q + 1075).toNat * 0x10000000000000 + (significand - 0x10000000000000)
    if bits < 0x7FF0000000000000 then bits else 0x7FF0000000000000

/-- The double nearest to `a / b`, a tie going to the even significand; infinite when `a / b` is
half a unit or more above the largest finite double. -/
def nearest (a b : Nat) : Float :=
  if a = 0 then Float.ofBits 0
  else
    let q := exponentOf a b
    let (n, d) := scaled a b q
    Float.ofBits (assemble (roundHalfEven n d) q).toUInt64

/-- `x` with the sign bit set. -/
def negated (x : Float) : Float := Float.ofBits (x.toBits.toNat + 0x8000000000000000).toUInt64

/-- The number of decimal digits of `n`, at least one. -/
def digitCount (n : Nat) : Nat := (Nat.toDigits 10 n).length

/-- The double nearest to `significand * 10 ^ exponent`, when that is in the finite range. -/
def ofScientific? (significand : Nat) (exponent : Int) : Option Float :=
  let size : Int := exponent + digitCount significand
  if significand = 0 ∨ size < -400 then some (Float.ofBits 0)
  else if 400 < size then none
  else
    let x :=
      if 0 ≤ exponent then nearest (significand * Nat.pow 10 exponent.toNat) 1
      else nearest significand (Nat.pow 10 (-exponent).toNat)
    if isFinite x then some x else none

/-- The double nearest to a whole number. -/
def ofInt (n : Int) : Float :=
  let x := nearest n.natAbs 1
  if n < 0 then negated x else x

/-- The remainder of `x` by a positive finite `y`, in the range from zero to `y`. Both are whole
multiples of one power of two, so the remainder is exact; only adding `y` to a negative one
rounds. -/
def remEuclid (x y : Float) : Float :=
  if !isFinite x then 0.0 / 0.0
  else
    let ⟨mx, ex⟩ := decompose x
    let ⟨my, ey⟩ := decompose y
    let e := min ex ey
    let r := (mx * Nat.pow 2 (ex - e).toNat) % (my * Nat.pow 2 (ey - e).toNat)
    let magnitude :=
      if 0 ≤ e then nearest (r * Nat.pow 2 e.toNat) 1 else nearest r (Nat.pow 2 (-e).toNat)
    if isNegative x then
      if r = 0 then negated magnitude else negated magnitude + y
    else magnitude

end TreeLang.Number
