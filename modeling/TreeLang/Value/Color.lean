import TreeLang.Json.Reader
import TreeLang.Number.Rounding

/-!
# Colours

A colour has three channels of eight bits. It is written with six hexadecimal digits, or read from
three that stand for a doubled digit each, after an optional hash sign. Saturation is scaled in
terms of hue, saturation and lightness.
-/

namespace TreeLang

/-- Red, green and blue. -/
structure Rgb where
  red : UInt8
  green : UInt8
  blue : UInt8
  deriving DecidableEq

/-- A hue in degrees, and saturation and lightness from zero to one. -/
structure Hsl where
  hue : Float
  saturation : Float
  lightness : Float

/-- A text that is no colour. -/
inductive ColorError where
  | invalidHex (text : String)
  deriving DecidableEq

/-- The text of an error. -/
def ColorError.message : ColorError → String
  | .invalidHex text => "`" ++ text ++ "` is not a #RRGGBB color"

namespace Rgb

/-- A channel of two digits. A plus sign may stand in the place of the first one. -/
def channel? (high low : Char) : Option UInt8 := do
  let low ← Json.hexDigit? low
  if high = '+' then some low.toUInt8
  else
    let high ← Json.hexDigit? high
    some (high * 16 + low).toUInt8

/-- A channel of one digit, which is doubled. -/
def shortChannel? (digit : Char) : Option UInt8 :=
  (Json.hexDigit? digit).map fun n => (n * 17).toUInt8

/-- The channels that some digits write. -/
def ofDigits? : List Char → Option Rgb
  | [a, b, c, d, e, f] => do
    let red ← channel? a b
    let green ← channel? c d
    let blue ← channel? e f
    some { red, green, blue }
  | [a, b, c] => do
    let red ← shortChannel? a
    let green ← shortChannel? b
    let blue ← shortChannel? c
    some { red, green, blue }
  | _ => none

/-- The digits after the hash sign, which may be left out. -/
def digitsOf : List Char → List Char
  | '#' :: digits => digits
  | digits => digits

/-- Reads a colour. -/
def ofHex (text : String) : Except ColorError Rgb :=
  match ofDigits? (digitsOf text.toList) with
  | some color => .ok color
  | none => .error (.invalidHex text)

/-- Two lowercase digits. -/
def channelDigits (channel : UInt8) : List Char :=
  [Nat.digitChar (channel.toNat / 16), Nat.digitChar (channel.toNat % 16)]

/-- Writes a colour: a hash sign and six lowercase digits. -/
def toHex (color : Rgb) : String :=
  String.ofList ('#' ::
    (channelDigits color.red ++ channelDigits color.green ++ channelDigits color.blue))

/-- The larger of two numbers. -/
def larger (a b : Float) : Float := if a < b then b else a

/-- The smaller of two numbers. -/
def smaller (a b : Float) : Float := if b < a then b else a

/-- Hue, saturation and lightness of a colour. A grey has hue zero. -/
def toHsl (color : Rgb) : Hsl :=
  let r := color.red.toFloat / 255.0
  let g := color.green.toFloat / 255.0
  let b := color.blue.toFloat / 255.0
  let max := larger (larger r g) b
  let min := smaller (smaller r g) b
  let lightness := (max + min) / 2.0
  let delta := max - min
  if delta == 0.0 then { hue := 0.0, saturation := 0.0, lightness }
  else
    let saturation := delta / (1.0 - (2.0 * lightness - 1.0).abs)
    let hue :=
      if max == r then 60.0 * Number.remEuclid ((g - b) / delta) 6.0
      else if max == g then 60.0 * ((b - r) / delta + 2.0)
      else 60.0 * ((r - g) / delta + 4.0)
    { hue, saturation, lightness }

end Rgb

/-- A number moved into a range; not-a-number stays. -/
def clamped (low high x : Float) : Float :=
  let x := if x < low then low else x
  if high < x then high else x

/-- The colour of a hue, a saturation and a lightness. The sector of the hue says which channels get
the chroma and the intermediate part. -/
def Hsl.toRgb (color : Hsl) : Rgb :=
  let chroma := (1.0 - (2.0 * color.lightness - 1.0).abs) * color.saturation
  let sextant := Number.remEuclid color.hue 360.0 / 60.0
  let middle := chroma * (1.0 - (Number.remEuclid sextant 2.0 - 1.0).abs)
  let (r, g, b) : Float × Float × Float :=
    match sextant.toUInt32.toNat with
    | 0 => (chroma, middle, 0.0)
    | 1 => (middle, chroma, 0.0)
    | 2 => (0.0, chroma, middle)
    | 3 => (0.0, middle, chroma)
    | 4 => (middle, 0.0, chroma)
    | _ => (chroma, 0.0, middle)
  let base := color.lightness - chroma / 2.0
  let channel (v : Float) : UInt8 := (clamped 0.0 255.0 ((v + base) * 255.0).round).toUInt8
  { red := channel r, green := channel g, blue := channel b }

/-- Scales the saturation of a colour by a factor, and keeps it between zero and one. -/
def saturate (hex : String) (factor : Float) : Except ColorError String := do
  let color := (← Rgb.ofHex hex).toHsl
  let scaled := { color with saturation := clamped 0.0 1.0 (color.saturation * factor) }
  return scaled.toRgb.toHex

end TreeLang
