import Mathlib.Tactic.IntervalCases
import TreeLang.Value.Color

/-!
# Colours in hexadecimal

A colour is written with six hexadecimal digits, or with three that stand for two equal digits each,
after a hash sign that may be left out. Every text of this form is read as the colour that it
writes, and what is written for a colour is the form with six digits in lower case. More is read:
the first digit of a channel may be a plus sign, which counts as zero. Without plus signs nothing
else is read.
-/

namespace TreeLang

/-! ## Digits -/

/-- A character is the hexadecimal digit of a number, in lower or in upper case. -/
def HexDigit (c : Char) (n : Nat) : Prop :=
  n < 16 ∧ (c = Nat.digitChar n ∨ c = (Nat.digitChar n).toUpper)

instance (c : Char) (n : Nat) : Decidable (HexDigit c n) := inferInstanceAs (Decidable (_ ∧ _))

/-- What is read as a digit has a small code. -/
theorem toNat_lt_of_hexDigit?_eq {c : Char} {n : Nat} (h : Json.hexDigit? c = some n) :
    c.toNat < 103 := by
  have hbound : ∀ {high : Char}, c ≤ high → c.toNat ≤ high.toNat := fun h => h
  unfold Json.hexDigit? at h
  split at h
  · next hrange => exact lt_of_le_of_lt (hbound hrange.2) (by decide)
  · split at h
    · next hrange => exact lt_of_le_of_lt (hbound hrange.2) (by decide)
    · split at h
      · next hrange => exact lt_of_le_of_lt (hbound hrange.2) (by decide)
      · cases h

/-- The reader of hexadecimal digits accepts the digits and gives their values. -/
theorem hexDigit?_eq_some_iff {c : Char} {n : Nat} :
    Json.hexDigit? c = some n ↔ HexDigit c n := by
  constructor
  · intro h
    have hcodes : ∀ code < 103, ∀ n ∈ Json.hexDigit? (Char.ofNat code),
        HexDigit (Char.ofNat code) n := by decide
    have hdigit := hcodes c.toNat (toNat_lt_of_hexDigit?_eq h) n
    rw [Char.ofNat_toNat] at hdigit
    exact hdigit h
  · rintro ⟨hn, hc⟩
    interval_cases n <;> rcases hc with rfl | rfl <;> rfl

namespace HexDigit

variable {c : Char} {n m : Nat}

/-- A digit's value is below sixteen. -/
theorem lt (h : HexDigit c n) : n < 16 := h.1

/-- Every number below sixteen has a digit. -/
theorem digitChar (h : n < 16) : HexDigit (Nat.digitChar n) n := ⟨h, .inl rfl⟩

/-- A digit in lower case is the one that is written for its value. -/
theorem toLower_eq (h : HexDigit c n) : c.toLower = Nat.digitChar n := by
  obtain ⟨hn, hc⟩ := h
  interval_cases n <;> rcases hc with rfl | rfl <;> rfl

/-- A sign is no digit. -/
theorem ne_sign (h : HexDigit c n) : c ≠ '+' ∧ c ≠ '#' := by
  obtain ⟨hn, hc⟩ := h
  interval_cases n <;> rcases hc with rfl | rfl <;> decide

end HexDigit

/-! ## Channels -/

/-- Two characters are the digits of a channel. -/
def HexPair (high low : Char) (channel : UInt8) : Prop :=
  ∃ n m, HexDigit high n ∧ HexDigit low m ∧ channel.toNat = 16 * n + m

/-- Two characters are the digits of a channel, or a plus sign and the only digit of a small one. -/
def SignedHexPair (high low : Char) (channel : UInt8) : Prop :=
  HexPair high low channel ∨ high = '+' ∧ HexDigit low channel.toNat

/-- A number below 256 is a channel when it is the channel's number. -/
theorem toUInt8_eq_iff {n : Nat} (h : n < 256) {channel : UInt8} :
    n.toUInt8 = channel ↔ channel.toNat = n := by
  rw [← UInt8.toNat_inj, Nat.toUInt8, UInt8.toNat_ofNat', Nat.mod_eq_of_lt h, eq_comm]

/-- A pair of digits without a sign is one of those that are read. -/
theorem HexPair.signed {high low : Char} {channel : UInt8} (h : HexPair high low channel) :
    SignedHexPair high low channel := .inl h

/-- Where the first character is no plus sign, there is no sign. -/
theorem SignedHexPair.unsigned {high low : Char} {channel : UInt8}
    (h : SignedHexPair high low channel) (hsign : high ≠ '+') : HexPair high low channel :=
  h.resolve_right fun hplus => hsign hplus.1

namespace Rgb

/-- A channel is read from the pairs of digits, and from a plus sign before one digit. -/
theorem channel?_eq_some_iff {high low : Char} {channel : UInt8} :
    channel? high low = some channel ↔ SignedHexPair high low channel := by
  unfold channel?
  constructor
  · intro h
    obtain ⟨m, hlow, h⟩ := Option.bind_eq_some_iff.1 h
    have hm := hexDigit?_eq_some_iff.1 hlow
    split at h
    · next hplus =>
      have hchannel := (toUInt8_eq_iff (by have := hm.lt; omega)).1 (Option.some.inj h)
      exact .inr ⟨hplus, hchannel ▸ hm⟩
    · obtain ⟨n, hhigh, h⟩ := Option.bind_eq_some_iff.1 h
      have hn := hexDigit?_eq_some_iff.1 hhigh
      have hchannel := (toUInt8_eq_iff (by have := hm.lt; have := hn.lt; omega)).1
        (Option.some.inj h)
      exact .inl ⟨n, m, hn, hm, by omega⟩
  · rintro (⟨n, m, hn, hm, hchannel⟩ | ⟨rfl, hm⟩)
    · rw [hexDigit?_eq_some_iff.2 hm, hexDigit?_eq_some_iff.2 hn]
      simp only [Option.bind_eq_bind, Option.bind_some, if_neg hn.ne_sign.1]
      rw [Option.some_inj, toUInt8_eq_iff (by have := hm.lt; have := hn.lt; omega)]
      omega
    · rw [hexDigit?_eq_some_iff.2 hm]
      simp only [Option.bind_eq_bind, Option.bind_some, if_true]
      rw [Option.some_inj, toUInt8_eq_iff (by have := hm.lt; omega)]

/-- A doubled digit is read as two equal ones, and a sign cannot be doubled. -/
theorem shortChannel?_eq_some_iff {digit : Char} {channel : UInt8} :
    shortChannel? digit = some channel ↔ SignedHexPair digit digit channel := by
  unfold shortChannel?
  rw [Option.map_eq_some_iff]
  constructor
  · rintro ⟨n, hdigit, hchannel⟩
    have hn := hexDigit?_eq_some_iff.1 hdigit
    have hvalue := (toUInt8_eq_iff (by have := hn.lt; omega)).1 hchannel
    exact .inl ⟨n, n, hn, hn, by omega⟩
  · rintro (⟨n, m, hn, hm, hchannel⟩ | ⟨hplus, hm⟩)
    · have hsame : n = m := Option.some.inj
        ((hexDigit?_eq_some_iff.2 hn).symm.trans (hexDigit?_eq_some_iff.2 hm))
      refine ⟨n, hexDigit?_eq_some_iff.2 hn, ?_⟩
      rw [toUInt8_eq_iff (by have := hn.lt; omega)]
      omega
    · exact absurd hplus hm.ne_sign.1

/-! ## Texts -/

/-- The digits of a colour: two for each channel, or one that is doubled. -/
inductive Digits (pair : Char → Char → UInt8 → Prop) : List Char → Rgb → Prop
  | six {a b c d e f : Char} {color : Rgb} (red : pair a b color.red) (green : pair c d color.green)
    (blue : pair e f color.blue) : Digits pair [a, b, c, d, e, f] color
  | three {a b c : Char} {color : Rgb} (red : pair a a color.red) (green : pair b b color.green)
    (blue : pair c c color.blue) : Digits pair [a, b, c] color

/-- A text writes a colour: it has its digits, with one hash sign in front of them or without. -/
def Written (pair : Char → Char → UInt8 → Prop) (text : String) (color : Rgb) : Prop :=
  ∃ digits, (text.toList = digits ∨ text.toList = '#' :: digits) ∧ Digits pair digits color

/-- The six digits that some digits stand for. -/
def sixDigits : List Char → List Char
  | [a, b, c] => [a, a, b, b, c, c]
  | digits => digits

/-- Six digits are read as three pairs, one to a channel. -/
theorem ofDigits?_eq_some_iff {digits : List Char} {color : Rgb} :
    ofDigits? digits = some color ↔ Digits SignedHexPair digits color := by
  -- six digits are read in pairs and three digits one by one, and others are no colour
  constructor
  · intro h
    unfold ofDigits? at h
    split at h
    · obtain ⟨red, hred, h⟩ := Option.bind_eq_some_iff.1 h
      obtain ⟨green, hgreen, h⟩ := Option.bind_eq_some_iff.1 h
      obtain ⟨blue, hblue, h⟩ := Option.bind_eq_some_iff.1 h
      obtain rfl := Option.some.inj h
      exact .six (channel?_eq_some_iff.1 hred) (channel?_eq_some_iff.1 hgreen)
        (channel?_eq_some_iff.1 hblue)
    · obtain ⟨red, hred, h⟩ := Option.bind_eq_some_iff.1 h
      obtain ⟨green, hgreen, h⟩ := Option.bind_eq_some_iff.1 h
      obtain ⟨blue, hblue, h⟩ := Option.bind_eq_some_iff.1 h
      obtain rfl := Option.some.inj h
      exact .three (shortChannel?_eq_some_iff.1 hred) (shortChannel?_eq_some_iff.1 hgreen)
        (shortChannel?_eq_some_iff.1 hblue)
    · cases h
  · intro h
    cases h with
    | six red green blue =>
      rw [ofDigits?, channel?_eq_some_iff.2 red, channel?_eq_some_iff.2 green,
        channel?_eq_some_iff.2 blue]
      rfl
    | three red green blue =>
      rw [ofDigits?, shortChannel?_eq_some_iff.2 red, shortChannel?_eq_some_iff.2 green,
        shortChannel?_eq_some_iff.2 blue]
      rfl

/-- No digits begin with a hash sign. -/
theorem Digits.digitsOf_eq {digits : List Char} {color : Rgb}
    (h : Digits SignedHexPair digits color) : digitsOf digits = digits := by
  have hfirst : ∀ {high low channel}, SignedHexPair high low channel → high ≠ '#' := by
    rintro high low channel (⟨n, m, hn, -⟩ | ⟨rfl, -⟩)
    · exact hn.ne_sign.2
    · decide
  unfold digitsOf
  cases h with
  | six red =>
    split
    · next heq => exact absurd (List.cons.inj heq).1 (hfirst red)
    · rfl
  | three red =>
    split
    · next heq => exact absurd (List.cons.inj heq).1 (hfirst red)
    · rfl

/-- A text is read as its digits are, after the number sign and with three of them doubled. -/
theorem ofHex_eq_ok_iff_digits {text : String} {color : Rgb} :
    ofHex text = .ok color ↔ Digits SignedHexPair (digitsOf text.toList) color := by
  rw [← ofDigits?_eq_some_iff, ofHex]
  cases ofDigits? (digitsOf text.toList) <;> simp

/-- What is read is what is written, with signs. -/
theorem ofHex_eq_ok_iff {text : String} {color : Rgb} :
    ofHex text = .ok color ↔ Written SignedHexPair text color := by
  rw [ofHex_eq_ok_iff_digits]
  constructor
  · intro h
    refine ⟨_, ?_, h⟩
    unfold digitsOf
    split
    · next heq => exact .inr heq
    · exact .inl rfl
  · rintro ⟨digits, heq | heq, h⟩
    · rw [heq, h.digitsOf_eq]
      exact h
    · rw [heq]
      exact h

/-- A text that is not a written colour is the error, which quotes it. -/
theorem ofHex_eq_error_iff {text : String} {error : ColorError} :
    ofHex text = .error error ↔
      error = .invalidHex text ∧ ¬ ∃ color, Written SignedHexPair text color := by
  simp only [← ofHex_eq_ok_iff]
  unfold ofHex
  cases ofDigits? (digitsOf text.toList) with
  | none => simp [eq_comm]
  | some color => simp

/-- Digits that are pairs in one sense are pairs in a wider one. -/
theorem Digits.mono {pair pair' : Char → Char → UInt8 → Prop} {digits : List Char} {color : Rgb}
    (h : Digits pair digits color)
    (hpair : ∀ {high low channel}, high ∈ digits → pair high low channel → pair' high low channel) :
    Digits pair' digits color := by
  cases h with
  | six red green blue =>
    exact .six (hpair (by simp) red) (hpair (by simp) green) (hpair (by simp) blue)
  | three red green blue =>
    exact .three (hpair (by simp) red) (hpair (by simp) green) (hpair (by simp) blue)

/-- Without plus signs there are no signs. -/
theorem written_signed_iff {text : String} (h : '+' ∉ text.toList) {color : Rgb} :
    Written SignedHexPair text color ↔ Written HexPair text color := by
  constructor
  · rintro ⟨digits, heq, hdigits⟩
    refine ⟨digits, heq, hdigits.mono fun hmem hpair => hpair.unsigned ?_⟩
    rintro rfl
    rcases heq with heq | heq
    · exact h (heq ▸ hmem)
    · exact h (heq ▸ List.mem_cons_of_mem _ hmem)
  · rintro ⟨digits, heq, hdigits⟩
    exact ⟨digits, heq, hdigits.mono fun _ => HexPair.signed⟩

/-! ## Writing colours -/

/-- A channel is written as a pair of digits with its value. -/
theorem hexPair_channelDigits (channel : UInt8) :
    HexPair (Nat.digitChar (channel.toNat / 16)) (Nat.digitChar (channel.toNat % 16)) channel := by
  have hlt := channel.toNat_lt
  exact ⟨_, _, .digitChar (by omega), .digitChar (by omega), by omega⟩

/-- The digits written for a colour are the pairs of its channels. -/
theorem digits_toHex (color : Rgb) :
    Digits HexPair
      (channelDigits color.red ++ channelDigits color.green ++ channelDigits color.blue)
      color :=
  .six (hexPair_channelDigits _) (hexPair_channelDigits _) (hexPair_channelDigits _)

/-- What is written for a colour writes it. -/
theorem written_toHex (color : Rgb) : Written HexPair color.toHex color :=
  ⟨_, .inr String.toList_ofList, digits_toHex color⟩

/-- A digit as it is written, in lower case; a plus sign counts as zero. -/
def plainDigit (c : Char) : Char := if c = '+' then '0' else c.toLower

/-- A digit that is read is written back in lower case. -/
theorem plainDigit_eq {c : Char} {n : Nat} (h : HexDigit c n) : plainDigit c = Nat.digitChar n := by
  rw [plainDigit, if_neg h.ne_sign.1, h.toLower_eq]

/-- A pair that is read is written back in lower case, with zero for a sign. -/
theorem channelDigits_eq {high low : Char} {channel : UInt8} (h : SignedHexPair high low channel) :
    channelDigits channel = [plainDigit high, plainDigit low] := by
  rcases h with ⟨n, m, hn, hm, hchannel⟩ | ⟨rfl, hm⟩
  · have hlt := hm.lt
    have hhigh : channel.toNat / 16 = n := by omega
    have hlow : channel.toNat % 16 = m := by omega
    rw [plainDigit_eq hn, plainDigit_eq hm, channelDigits, hhigh, hlow]
  · rw [plainDigit_eq hm, channelDigits, Nat.div_eq_of_lt hm.lt, Nat.mod_eq_of_lt hm.lt]
    rfl

/-- A colour is written with the six digits that it was read from. -/
theorem Digits.toList_toHex {digits : List Char} {color : Rgb}
    (h : Digits SignedHexPair digits color) :
    color.toHex.toList = '#' :: (sixDigits digits).map plainDigit := by
  rw [toHex, String.toList_ofList]
  cases h with
  | six red green blue | three red green blue =>
    rw [channelDigits_eq red, channelDigits_eq green, channelDigits_eq blue]
    rfl

/-! ## Exactness -/

/-- What reading a text as a colour comes to. -/
structure ReadsExactly (text : String) : Prop where
  /-- Without plus signs the text is read as a colour just when it writes the colour. -/
  ok_iff : '+' ∉ text.toList → ∀ color, ofHex text = .ok color ↔ Written HexPair text color
  /-- With plus signs it is so for digits of which the first one of a channel may be a sign. -/
  signed_iff : ∀ color, ofHex text = .ok color ↔ Written SignedHexPair text color
  /-- All other texts are refused, as they stand. -/
  error_iff : ∀ error, ofHex text = .error error ↔
    error = .invalidHex text ∧ ¬ ∃ color, Written SignedHexPair text color
  /-- A colour that is read is written with the same digits, six of them and in lower case, and that
  is read as the same colour. -/
  toHex : ∀ color, ofHex text = .ok color →
    color.toHex.toList = '#' :: (sixDigits (digitsOf text.toList)).map plainDigit ∧
      ofHex color.toHex = .ok color

/-- **Reading colours is exact.** Without plus signs, what is read is an optional hash sign and
three or six hexadecimal digits, and the colour is the one that they write. -/
theorem readsExactly_ofHex (text : String) : ReadsExactly text where
  ok_iff hsign color := ofHex_eq_ok_iff.trans (written_signed_iff hsign)
  signed_iff _ := ofHex_eq_ok_iff
  error_iff _ := ofHex_eq_error_iff
  toHex color hread := by
    refine ⟨(ofHex_eq_ok_iff_digits.1 hread).toList_toHex, ?_⟩
    obtain ⟨digits, heq, hdigits⟩ := written_toHex color
    exact ofHex_eq_ok_iff.2 ⟨digits, heq, hdigits.mono fun _ => HexPair.signed⟩

/-- Not only hexadecimal digits are read: a plus sign is read in the place of the first digit of a
channel. -/
theorem not_forall_ofHex_iff_written :
    ¬ ∀ text color, ofHex text = .ok color ↔ Written HexPair text color := by
  intro h
  obtain ⟨digits, heq | heq, hdigits⟩ := (h "+1+2+3" ⟨1, 2, 3⟩).1 (by decide)
  · obtain rfl : digits = ['+', '1', '+', '2', '+', '3'] := heq.symm
    cases hdigits with
    | six red =>
      obtain ⟨n, m, hn, -⟩ := red
      exact hn.ne_sign.1 rfl
  · cases heq

end Rgb

end TreeLang
