import TreeLang.Table

/-!
# TOML values

A document is a tree of tables. What a table may still take depends on how it came to be: a header
opens it for one list of assignments, a longer header only passes through it, and a dotted key makes
a table that only other dotted keys extend. `assign` and `within` keep these rules, so that a key is
never set twice.
-/

namespace TreeLang

namespace Toml

/-- How a table of a document came to be. -/
inductive Origin where
  /-- Opened by a header, or the document itself. -/
  | opened
  /-- On the way to a table that a header opened. -/
  | passed
  /-- On the way of a dotted key. -/
  | dotted
  deriving DecidableEq

end Toml

/-- A TOML value; `bundle` is a table written between braces, and `tables` a list of tables that
headers with double brackets opened. -/
inductive Toml where
  | text (value : String)
  | whole (value : Int)
  | real (value : Float)
  | flag (value : Bool)
  | moment (written : String)
  | list (items : List Toml)
  | bundle (entries : List (String × Toml))
  | table (origin : Toml.Origin) (entries : List (String × Toml))
  | tables (items : List (List (String × Toml)))

instance : Inhabited Toml := ⟨.flag false⟩

namespace Toml

/-- The entries of a table in the order in which their keys were set. -/
abbrev Entries := Table String Toml

/-- Sets a key below a table at a dotted path, making the tables on the way; `allowed` tells whether
the table itself may take the key. Fails where the key is set already or the path leads into a value
or a table with a header of its own. -/
def assignIn (key : String) (value : Toml) : Bool → List String → Entries → Option Entries
  | allowed, [], entries =>
    if allowed && !Table.has key entries then some (entries ++ [(key, value)]) else none
  | _, step :: path, entries =>
    match Table.find step entries with
    | none =>
      (assignIn key value true path []).map fun inner =>
        Table.put step (.table .dotted inner) entries
    | some (.table .dotted inner) =>
      (assignIn key value true path inner).map fun inner =>
        Table.put step (.table .dotted inner) entries
    | some (.table .passed inner) =>
      (assignIn key value false path inner).map fun inner =>
        Table.put step (.table .passed inner) entries
    | some (.tables items) =>
      (assignIn key value false path (items.getLast?.getD [])).map fun last =>
        Table.put step (.tables (items.dropLast ++ [last])) entries
    | some _ => none

/-- An assignment: the tables on the way, the key and its value. -/
structure Assignment where
  path : List String
  key : String
  value : Toml

/-- Carries out assignments in a table, in order. -/
def assign (assignments : List Assignment) (entries : Entries) : Option Entries :=
  assignments.foldlM (fun entries a => assignIn a.key a.value true a.path entries) entries

/-- Changes the table at the path of a header, making the tables on the way and entering the last
table of a list. -/
def within (change : Entries → Option Entries) : List String → Entries → Option Entries
  | [], entries => change entries
  | step :: path, entries =>
    match Table.find step entries with
    | none =>
      (within change path []).map fun inner => Table.put step (.table .passed inner) entries
    | some (.table origin inner) =>
      (within change path inner).map fun inner => Table.put step (.table origin inner) entries
    | some (.tables items) =>
      (within change path (items.getLast?.getD [])).map fun last =>
        Table.put step (.tables (items.dropLast ++ [last])) entries
    | some _ => none

/-- A header with the assignments below it. -/
structure Section where
  path : List String
  name : String
  /-- Whether the header adds a table to a list. -/
  repeated : Bool
  assignments : List Assignment

/-- Adds the table of a section. A header opens a table once, but may open one that longer headers
passed through before. -/
def openSection (part : Section) : Entries → Option Entries :=
  within (fun entries =>
    match part.repeated, Table.find part.name entries with
    | true, none =>
      (assign part.assignments []).map fun inner => Table.put part.name (.tables [inner]) entries
    | true, some (.tables items) =>
      (assign part.assignments []).map fun inner =>
        Table.put part.name (.tables (items ++ [inner])) entries
    | false, none =>
      (assign part.assignments []).map fun inner =>
        Table.put part.name (.table .opened inner) entries
    | false, some (.table .passed inner) =>
      (assign part.assignments inner).map fun inner =>
        Table.put part.name (.table .opened inner) entries
    | _, _ => none) part.path

/-- The document with some assignments at its top and sections after them. -/
def document (top : List Assignment) (sections : List Section) : Option Entries := do
  let entries ← assign top []
  sections.foldlM (fun entries part => openSection part entries) entries

end Toml

end TreeLang
