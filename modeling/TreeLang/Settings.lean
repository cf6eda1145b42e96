import TreeLang.Toml.Reader

/-!
# Settings

The settings of the command line have three sections, of which each may be absent, as may be each
entry: `analysis.prelude`, `library.paths` and `log.filter`. Unknown entries are ignored, an entry
of the wrong type is an error.
-/

namespace TreeLang

/-- The settings. -/
structure Settings where
  /-- Whether the prelude is spliced into every program. -/
  prelude : Bool := true
  /-- The directories with libraries, in order of preference. -/
  paths : List String := []
  /-- Which messages are logged. -/
  filter : String := "warn"
  deriving DecidableEq

namespace Settings

open Toml

/-- The entries of a section whose entries have the given names in order. A section may be written
as a list of its entries, and nothing is set in a date. -/
def entries? (names : List String) : Toml → Option Entries
  | .table _ entries => some entries
  | .bundle entries => some entries
  | .list items => some (names.zip items)
  | .tables items => some (names.zip (items.map (.table .opened ·)))
  | .moment _ => some []
  | _ => none

/-- A text. -/
def text? : Toml → Option String
  | .text value => some value
  | _ => none

/-- A truth value. -/
def flag? : Toml → Option Bool
  | .flag value => some value
  | _ => none

/-- A list of texts. -/
def texts? : Toml → Option (List String)
  | .list items => items.mapM text?
  | _ => none

/-- The value of an entry of a section, or a default when the section or the entry is absent. -/
def entry (document : Entries) (part name : String) (read : Toml → Option α) (default : α) :
    Option α :=
  match Table.find part document with
  | none => some default
  | some value =>
    match entries? [name] value with
    | none => none
    | some entries =>
      match Table.find name entries with
      | none => some default
      | some value => read value

/-- The settings of a document. -/
def ofDocument? (document : Entries) : Option Settings := do
  let start : Settings := {}
  let prelude ← entry document "analysis" "prelude" flag? start.prelude
  let paths ← entry document "library" "paths" texts? start.paths
  let filter ← entry document "log" "filter" text? start.filter
  return { prelude, paths, filter }

/-- The settings that a text holds, if it is in order. -/
def read? (text : String) : Option Settings := (Toml.read? text).bind ofDocument?

end Settings

end TreeLang
