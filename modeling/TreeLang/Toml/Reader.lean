import TreeLang.Json.Reader
import TreeLang.Toml.Scalar

/-!
# Reading TOML

A document is a list of lines: a header, an assignment or nothing, each with an optional comment.
Only strings of many lines and lists go over the end of a line. Lists and bundles nest at most 79
deep, and a dotted key has at most 79 parts.
-/

namespace TreeLang.Toml

/-- A blank within a line. -/
def isBlank (c : Char) : Bool := c = ' ' || c = '\t'

/-- Drops the blanks at the head. -/
def skipBlanks (cs : List Char) : List Char := cs.dropWhile isBlank

/-- A character that may stand in a comment and in a string that has no escapes. -/
def isPlain (c : Char) : Bool := c = '\t' || (' ' ≤ c && c.toNat ≠ 127)

/-- What follows a line break. -/
def afterBreak? : List Char → Option (List Char)
  | '\n' :: rest => some rest
  | '\r' :: '\n' :: rest => some rest
  | _ => none

/-- What follows the rest of a line that holds at most a comment. -/
def afterLine? (cs : List Char) : Option (List Char) :=
  let rest :=
    match skipBlanks cs with
    | '#' :: rest => rest.dropWhile isPlain
    | rest => rest
  if rest.isEmpty then some [] else afterBreak? rest

/-- Drops blanks, line breaks and comments, as they may stand between the items of a list; the flag
tells whether a comment is open. -/
def skipGaps : Bool → List Char → List Char
  | _, '\n' :: rest => skipGaps false rest
  | _, '\r' :: '\n' :: rest => skipGaps false rest
  | true, c :: rest => if isPlain c then skipGaps true rest else c :: rest
  | false, '#' :: rest => skipGaps true rest
  | false, c :: rest => if isBlank c then skipGaps false rest else c :: rest
  | _, [] => []

/-! ## Strings -/

/-- The number written by hexadecimal digits. -/
def hexValue? (digits : List Char) : Option Nat :=
  digits.foldlM (fun n c => (Json.hexDigit? c).map fun d => n * 16 + d) 0

/-- The character that has a number. -/
def charOf? (n : Nat) : Option Char :=
  if n.isValidChar then some (Char.ofNat n) else none

/-- The character of an escape after its backslash, and the rest. -/
def escaped? : List Char → Option (Char × List Char)
  | 'u' :: rest => hexEscape 4 rest
  | 'U' :: rest => hexEscape 8 rest
  | c :: rest =>
    if c = 'b' then some (Char.ofNat 8, rest)
    else if c = 't' then some ('\t', rest)
    else if c = 'n' then some ('\n', rest)
    else if c = 'f' then some (Char.ofNat 12, rest)
    else if c = 'r' then some ('\r', rest)
    else if c = '"' then some ('"', rest)
    else if c = '\\' then some ('\\', rest)
    else none
  | [] => none
where
  hexEscape (count : Nat) (cs : List Char) : Option (Char × List Char) :=
    let digits := cs.take count
    if digits.length = count then
      ((hexValue? digits).bind charOf?).map fun c => (c, cs.drop count)
    else none

/-- The rest of a string between double quotes; `done` holds the characters read, last first. -/
def readBasic : Nat → List Char → List Char → Option (String × List Char)
  | 0, _, _ => none
  | fuel + 1, done, cs =>
    match cs with
    | '"' :: rest => some (String.ofList done.reverse, rest)
    | '\\' :: rest =>
      match escaped? rest with
      | some (c, rest) => readBasic fuel (c :: done) rest
      | none => none
    | c :: rest => if isPlain c then readBasic fuel (c :: done) rest else none
    | [] => none

/-- The rest of a string between single quotes. -/
def readLiteral (cs : List Char) : Option (String × List Char) :=
  let (held, rest) := cs.span fun c => isPlain c && c != '\''
  (after? '\'' rest).map fun rest => (String.ofList held, rest)

/-- The end of a string of many lines at a run of three quotes or more: up to two quotes of the run
belong to the string. Gives these quotes and what follows. -/
def closing? (quote : Char) (cs : List Char) : Option (List Char × List Char) :=
  let run := (cs.takeWhile fun c => c = quote).length
  if 3 ≤ run ∧ run ≤ 5 then some (List.replicate (run - 3) quote, cs.drop run) else none

/-- Drops blanks and line breaks. -/
def skipBlankLines : List Char → List Char
  | '\n' :: rest => skipBlankLines rest
  | '\r' :: '\n' :: rest => skipBlankLines rest
  | c :: rest => if isBlank c then skipBlankLines rest else c :: rest
  | [] => []

/-- Drops the rest of a line and the blank lines below it, after a backslash at its end. -/
def afterFold? (cs : List Char) : Option (List Char) :=
  (afterBreak? (skipBlanks cs)).map skipBlankLines

/-- The rest of a string of many lines; only between double quotes do backslashes count. A line
break is kept as one character however it is written. -/
def readLong (quote : Char) : Nat → List Char → List Char → Option (String × List Char)
  | 0, _, _ => none
  | fuel + 1, done, cs =>
    match cs with
    | [] => none
    | c :: rest =>
      if c = quote then
        if (rest.take 2).all (· = quote) && rest.length ≥ 2 then
          (closing? quote cs).map fun (quotes, rest) =>
            (String.ofList (done.reverse ++ quotes), rest)
        else readLong quote fuel (c :: done) rest
      else
        match afterBreak? cs with
        | some rest => readLong quote fuel ('\n' :: done) rest
        | none =>
          if c = '\\' && quote = '"' then
            match afterFold? rest with
            | some rest => readLong quote fuel done rest
            | none =>
              match escaped? rest with
              | some (c, rest) => readLong quote fuel (c :: done) rest
              | none => none
          else if isPlain c then readLong quote fuel (c :: done) rest
          else none

/-- A string at the head of the text. A line break right after three quotes is not part of it. -/
def readText (cs : List Char) : Option (String × List Char) :=
  let fuel := cs.length + 1
  match cs with
  | '"' :: '"' :: '"' :: rest => readLong '"' fuel [] ((afterBreak? rest).getD rest)
  | '\'' :: '\'' :: '\'' :: rest => readLong '\'' fuel [] ((afterBreak? rest).getD rest)
  | '"' :: rest => readBasic fuel [] rest
  | '\'' :: rest => readLiteral rest
  | _ => none

/-! ## Keys -/

/-- A character of a key without quotes. -/
def isKeyChar (c : Char) : Bool := c.isAlphanum || c = '-' || c = '_'

/-- One part of a key. -/
def readKeyPart (cs : List Char) : Option (String × List Char) :=
  match cs with
  | '"' :: rest => readBasic (rest.length + 1) [] rest
  | '\'' :: rest => readLiteral rest
  | _ =>
    match cs.span isKeyChar with
    | ([], _) => none
    | (name, rest) => some (String.ofList name, rest)

/-- The parts of a key with points between them; `done` holds those read, last first. -/
def readKeyParts : Nat → List String → List Char → Option (List String × List Char)
  | 0, _, _ => none
  | fuel + 1, done, cs => do
    let (part, rest) ← readKeyPart (skipBlanks cs)
    match skipBlanks rest with
    | '.' :: rest => readKeyParts fuel (part :: done) rest
    | rest => some (done.reverse ++ [part], rest)

/-- A key of at most 79 parts: the path of its tables, its last part, and the rest of the text. -/
def readKey (cs : List Char) : Option (List String × String × List Char) := do
  let (parts, rest) ← readKeyParts 79 [] cs
  return (parts.dropLast, ← parts.getLast?, rest)

/-! ## Values -/

/-- A character of an unquoted value. -/
def isWordChar (c : Char) : Bool :=
  c.isAlphanum || c = '+' || c = '-' || c = '_' || c = '.' || c = ':'

/-- An unquoted value. A blank may stand between a day and a time. -/
def readWord (cs : List Char) : Option (Toml × List Char) :=
  let (word, rest) := cs.span isWordChar
  match rest with
  | ' ' :: c :: more =>
    if isDate word && c.isDigit then
      let (time, rest) := (c :: more).span isWordChar
      if isTimeWithOffset time then some (moment (String.ofList (word ++ ' ' :: time)), rest)
      else none
    else (scalar? word).map (·, rest)
  | _ => (scalar? word).map (·, rest)

mutual

/-- A value at the head of the text; `depth` is how many lists and bundles may still be opened. -/
def readValue : Nat → Nat → List Char → Option (Toml × List Char)
  | 0, _, _ => none
  | fuel + 1, depth, cs =>
    match cs with
    | '"' :: _ => (readText cs).map fun (value, rest) => (text value, rest)
    | '\'' :: _ => (readText cs).map fun (value, rest) => (text value, rest)
    | '[' :: rest =>
      match depth with
      | 0 => none
      | depth + 1 => readItems fuel depth [] rest
    | '\x7b' :: rest =>
      match depth with
      | 0 => none
      | depth + 1 =>
        match skipBlanks rest with
        | '\x7d' :: rest => some (bundle [], rest)
        | rest => readPairs fuel depth [] rest
    | _ => readWord cs

/-- The items of a list up to its bracket, which may follow a comma; `done` holds those read, last
first. -/
def readItems : Nat → Nat → List Toml → List Char → Option (Toml × List Char)
  | 0, _, _, _ => none
  | fuel + 1, depth, done, cs =>
    match skipGaps false cs with
    | ']' :: rest => some (list done.reverse, rest)
    | cs =>
      match readValue fuel depth cs with
      | none => none
      | some (item, rest) =>
        match skipGaps false rest with
        | ',' :: rest => readItems fuel depth (item :: done) rest
        | ']' :: rest => some (list (item :: done).reverse, rest)
        | _ => none

/-- The assignments of a bundle up to its brace; `done` holds those read, last first. -/
def readPairs : Nat → Nat → List Assignment → List Char → Option (Toml × List Char)
  | 0, _, _, _ => none
  | fuel + 1, depth, done, cs =>
    match readKey cs with
    | none => none
    | some (path, key, rest) =>
      match rest with
      | '=' :: rest =>
        match readValue fuel depth (skipBlanks rest) with
        | none => none
        | some (value, rest) =>
          let done := ⟨path, key, value⟩ :: done
          match skipBlanks rest with
          | ',' :: rest => readPairs fuel depth done rest
          | '\x7d' :: rest => (assign done.reverse []).map fun entries => (bundle entries, rest)
          | _ => none
      | _ => none

end

/-! ## Documents -/

/-- An assignment with the rest of its line. -/
def readAssignment (cs : List Char) : Option (Assignment × List Char) := do
  let (path, key, rest) ← readKey cs
  let rest ← after? '=' rest
  let (value, rest) ← readValue (2 * rest.length + 2) 79 (skipBlanks rest)
  return (⟨path, key, value⟩, ← afterLine? rest)

/-- A header with the rest of its line, as a section without assignments. -/
def readHeader (cs : List Char) : Option (Section × List Char) :=
  match cs with
  | '[' :: '[' :: rest => do
    let (path, name, rest) ← readKey rest
    let rest ← after? ']' rest
    let rest ← after? ']' rest
    return (⟨path, name, true, []⟩, ← afterLine? rest)
  | '[' :: rest => do
    let (path, name, rest) ← readKey rest
    let rest ← after? ']' rest
    return (⟨path, name, false, []⟩, ← afterLine? rest)
  | _ => none

/-- The lines that belong to the top of the document or to the section just opened, and the
sections after them. -/
def readLines : Nat → List Char → Option (List Assignment × List Section)
  | 0, _ => none
  | fuel + 1, cs =>
    match skipBlanks cs with
    | [] => some ([], [])
    | '[' :: rest => do
      let (header, rest) ← readHeader ('[' :: rest)
      let (assignments, sections) ← readLines fuel rest
      return ([], { header with assignments } :: sections)
    | c :: rest =>
      if c = '#' || c = '\n' || c = '\r' then do readLines fuel (← afterLine? (c :: rest))
      else do
        let (assignment, rest) ← readAssignment (c :: rest)
        let (assignments, sections) ← readLines fuel rest
        return (assignment :: assignments, sections)

/-- The document that a text holds; a byte order mark may stand before it. -/
def read? (written : String) : Option Entries :=
  let cs := written.toList
  let cs := match cs with
    | '\uFEFF' :: rest => rest
    | _ => cs
  match readLines (cs.length + 1) cs with
  | some (top, sections) => document top sections
  | none => none

end TreeLang.Toml
