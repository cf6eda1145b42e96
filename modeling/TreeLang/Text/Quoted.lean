import TreeLang.Text.Printable

/-!
# Quoted text

The quoted form of a string stands between double quotes. A double quote and a backslash get a
backslash, four control characters have a letter, and every other character that would not show on
its own is written by its code point in hexadecimal.
-/

namespace TreeLang.Text

/-- A code point as an escape, in lowercase hexadecimal without leading zeros. -/
def codeEscape (c : Char) : List Char :=
  '\\' :: 'u' :: '\x7b' :: (Nat.toDigits 16 c.toNat ++ ['\x7d'])

/-- One character of quoted text. -/
def quotedChar (c : Char) : List Char :=
  if c = '"' then ['\\', '"']
  else if c = '\\' then ['\\', '\\']
  else if c = '\n' then ['\\', 'n']
  else if c = '\t' then ['\\', 't']
  else if c = '\r' then ['\\', 'r']
  else if c.toNat = 0 then ['\\', '0']
  else if isPlain c then [c]
  else codeEscape c

/-- The quoted form of a string. -/
def quoted (s : String) : String :=
  String.ofList ('"' :: (s.toList.flatMap quotedChar ++ ['"']))

end TreeLang.Text
