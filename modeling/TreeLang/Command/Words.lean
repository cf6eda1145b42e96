import TreeLang.NodeId

/-!
# Commands

A command is given as a list of words: its name, options and other words in any order. An option
starts with two hyphens and its name, or with one hyphen and its letter; its value is attached to it
or is the next word. After a word of two hyphens no word is an option.
-/

namespace TreeLang

/-- What the check of a program is asked for. -/
structure CheckRequest where
  /-- The path of the program. -/
  program : String
  /-- The path of the settings, when they do not stand beside the program. -/
  settings : Option String := none
  /-- Whether the report is a JSON document. -/
  json : Bool := false
  /-- The node whose visible names are listed in place of all results. -/
  target : Option NodeId := none
  deriving DecidableEq

/-- What the command line can be asked to do. -/
inductive Command where
  /-- Checks and evaluates a program. -/
  | check (request : CheckRequest)
  /-- Shows the prelude, or writes it to a file. -/
  | prelude (output : Option String)
  deriving DecidableEq

/-- Why a list of words is not a command. -/
inductive UsageError where
  | noCommand
  | unknownCommand (word : String)
  | unknownOption (word : String)
  | unexpectedWord (word : String)
  | missingWord (meaning : String)
  | missingValue (option : String)
  | unexpectedValue (option : String)
  | invalidValue (option value : String)
  | repeatedOption (option : String)
  deriving DecidableEq

/-- The text of an error. -/
def UsageError.message : UsageError → String
  | .noCommand => "a command is required: check or prelude"
  | .unknownCommand word => "unrecognized command '" ++ word ++ "'"
  | .unknownOption word => "unexpected argument '" ++ word ++ "' found"
  | .unexpectedWord word => "unexpected argument '" ++ word ++ "' found"
  | .missingWord meaning => "the " ++ meaning ++ " is required"
  | .missingValue option => "a value is required for '--" ++ option ++ "' but none was supplied"
  | .unexpectedValue option => "no value is expected for '--" ++ option ++ "'"
  | .invalidValue option value => "invalid value '" ++ value ++ "' for '--" ++ option ++ "'"
  | .repeatedOption option => "the argument '--" ++ option ++ "' cannot be used multiple times"

/-- An option that a command knows. -/
structure OptionForm where
  name : String
  letter : Option Char := none
  takesValue : Bool
  deriving DecidableEq

/-- The words of a command, once its options are told apart. -/
structure Arguments where
  plain : List String := []
  options : List (String × Option String) := []

namespace Arguments

/-- Adds a word that is no option before the others. -/
def withPlain (word : String) (arguments : Arguments) : Arguments :=
  { arguments with plain := word :: arguments.plain }

/-- Adds an option before the others. -/
def withOption (name : String) (value : Option String) (arguments : Arguments) : Arguments :=
  { arguments with options := (name, value) :: arguments.options }

end Arguments

/-- An option as a word gives it: its form and the value attached to it. -/
def OptionForm.ofWord? (forms : List OptionForm) (word : String) :
    Option (OptionForm × Option String) :=
  match word.toList with
  | '-' :: '-' :: rest => do
    let (name, tail) := rest.span (· ≠ '=')
    let form ← forms.find? fun form => form.name = String.ofList name
    some (form, if tail.isEmpty then none else some (String.ofList tail.tail))
  | '-' :: letter :: rest => do
    let form ← forms.find? fun form => form.letter = some letter
    let value := match rest with
      | '=' :: rest => rest
      | _ => rest
    some (form, if rest.isEmpty then none else some (String.ofList value))
  | _ => none

/-- Whether a word looks like an option. -/
def looksLikeOption (word : String) : Bool := word.startsWith "-" && word ≠ "-"

/-- Tells the options of a command from its other words. -/
def readArguments (forms : List OptionForm) : List String → Except UsageError Arguments
  | [] => .ok {}
  | word :: rest =>
    if word = "--" then .ok { plain := rest }
    else if looksLikeOption word then
      match OptionForm.ofWord? forms word with
      | none => .error (.unknownOption word)
      | some (form, some value) =>
        if form.takesValue then
          (readArguments forms rest).map (·.withOption form.name (some value))
        else .error (.unexpectedValue form.name)
      | some (form, none) =>
        if form.takesValue then
          match rest with
          | [] => .error (.missingValue form.name)
          | value :: rest =>
            if looksLikeOption value then .error (.missingValue form.name)
            else (readArguments forms rest).map (·.withOption form.name (some value))
        else (readArguments forms rest).map (·.withOption form.name none)
    else (readArguments forms rest).map (·.withPlain word)

namespace Arguments

/-- How an option is given, which it may be once. -/
def once (name : String) (arguments : Arguments) : Except UsageError (Option (Option String)) :=
  match arguments.options.filter (·.1 = name) with
  | [] => .ok none
  | [(_, value)] => .ok (some value)
  | _ => .error (.repeatedOption name)

/-- The path that an option gives; it is not empty. -/
def path (name : String) (arguments : Arguments) : Except UsageError (Option String) := do
  match ← arguments.once name with
  | some (some "") => .error (.missingValue name)
  | some value => .ok value
  | none => .ok none

/-- The number of 64 bits that an option gives, which may have a plus sign. -/
def nodeId (name : String) (arguments : Arguments) : Except UsageError (Option NodeId) := do
  match ← arguments.once name with
  | some (some value) =>
    let digits := match value.toList with
      | '+' :: digits => digits
      | digits => digits
    if digits.isEmpty || !digits.all Char.isDigit then .error (.invalidValue name value)
    else
      match NodeId.ofNat? (digits.foldl (fun n c => n * 10 + (c.toNat - 48)) 0) with
      | some id => .ok (some id)
      | none => .error (.invalidValue name value)
  | _ => .ok none

end Arguments

namespace Command

/-- The options of a check. -/
def checkOptions : List OptionForm :=
  [{ name := "config", takesValue := true }, { name := "json", takesValue := false },
    { name := "target", takesValue := true }]

/-- The options of the prelude. -/
def preludeOptions : List OptionForm :=
  [{ name := "output", letter := some 'o', takesValue := true }]

/-- A check as words give it. -/
def checkOfWords (words : List String) : Except UsageError Command := do
  let arguments ← readArguments checkOptions words
  let settings ← arguments.path "config"
  let json ← arguments.once "json"
  let target ← arguments.nodeId "target"
  match arguments.plain with
  | [] => .error (.missingWord "program")
  | [""] => .error (.missingWord "program")
  | [program] => .ok (.check { program, settings, json := json.isSome, target })
  | _ :: word :: _ => .error (.unexpectedWord word)

/-- The command for the prelude as words give it. -/
def preludeOfWords (words : List String) : Except UsageError Command := do
  let arguments ← readArguments preludeOptions words
  let output ← arguments.path "output"
  match arguments.plain with
  | [] => .ok (.prelude output)
  | word :: _ => .error (.unexpectedWord word)

/-- The command that words give. -/
def ofWords : List String → Except UsageError Command
  | [] => .error .noCommand
  | word :: words =>
    if word = "check" then checkOfWords words
    else if word = "prelude" then preludeOfWords words
    else .error (.unknownCommand word)

end Command

end TreeLang
