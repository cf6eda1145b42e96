import TreeLang.Command.Files
import TreeLang.Command.Path
import TreeLang.Command.Report
import TreeLang.Command.Words
import TreeLang.Json.Reader
import TreeLang.Library.Prelude
import TreeLang.Settings
import TreeLang.Tree.Codec

/-!
# What a command does

A command reads the files it needs and comes to an outcome: a text to print, a file to write, or a
failure. A check takes the settings first, then the program, then the libraries; the first thing
that is wrong ends it.
-/

namespace TreeLang

/-- Why settings cannot be used. -/
inductive SettingsTrouble where
  | unreadable (trouble : FileTrouble)
  | malformed

/-- The text of a trouble with settings at a path. -/
def SettingsTrouble.message (path : String) : SettingsTrouble → String
  | .unreadable trouble => "failed to read " ++ path ++ ": " ++ trouble.message
  | .malformed => "failed to parse configuration"

/-- Why a command fails. -/
inductive Failure where
  | settings (path : String) (trouble : SettingsTrouble)
  | unreadable (path : String) (trouble : FileTrouble)
  | noProgram (path : String)
  | imports (error : SpliceError)
  | unwritable (path : String) (trouble : FileTrouble)

/-- The text of a failure: what was tried and why it cannot be done. -/
def Failure.message : Failure → String
  | .settings path trouble =>
    "failed to load config '" ++ path ++ "': " ++ trouble.message path
  | .unreadable path trouble => "failed to read '" ++ path ++ "': " ++ trouble.message
  | .noProgram path => "'" ++ path ++ "' is not a program"
  | .imports error => "failed to splice imports: " ++ error.message
  | .unwritable path trouble => "failed to write '" ++ path ++ "': " ++ trouble.message

/-- What a command comes to. -/
inductive Outcome where
  /-- Lines to print. -/
  | print (lines : List String)
  /-- A file to write. -/
  | save (path text : String)
  | failed (failure : Failure)
  deriving Inhabited

/-- A reading that may fail. -/
abbrev Attempt := ExceptT Failure Reading

/-- The name of the file with settings beside a program. -/
def settingsName : String := "logic.toml"

/-- The end of the name of a file with a library. -/
def librarySuffix : String := ".logic.json"

namespace Settings

/-- The settings with the directories of libraries reached from a directory. -/
def below (directory : String) (settings : Settings) : Settings :=
  { settings with paths := settings.paths.map (Path.join directory) }

/-- The settings at a path. Directories of libraries are relative to the directory they stand in. -/
def ofPath (path : String) : Attempt Settings := do
  match (← look path).content with
  | .error trouble => throw (.settings path (.unreadable trouble))
  | .ok text =>
    match Settings.read? text with
    | none => throw (.settings path .malformed)
    | some settings => return settings.below ((Path.parent? path).getD "")

/-- The settings that a check uses: the ones asked for, else those beside the program, else those
that nothing sets. -/
def forCheck (request : CheckRequest) : Attempt Settings := do
  match request.settings, Path.parent? request.program with
  | some path, _ => ofPath path
  | none, none => return {}
  | none, some directory =>
    let path := Path.join directory settingsName
    if (← look path).isFile then ofPath path else return {}

end Settings

/-- The program that a text holds. -/
def Program.read? (text : String) : Option Program := (Json.read? text).bind Program.ofJson?

/-- The program at a path. -/
def Program.ofPath (path : String) : Attempt Program := do
  match (← look path).content with
  | .error trouble => throw (.unreadable path trouble)
  | .ok text =>
    match Program.read? text with
    | none => throw (.noProgram path)
    | some program => return program

namespace Shelf

/-- The library of a name in the first of some directories that has a file for it. A file that holds
no program provides no library. -/
def libraryIn (name : String) : List String → Reading (Option Program)
  | [] => return none
  | directory :: rest => do
    let entry ← look (Path.join directory (name ++ librarySuffix))
    if entry.isFile then
      match entry.content with
      | .ok text => return Program.read? text
      | .error _ => return none
    else libraryIn name rest

/-- The names that the known programs import. -/
def importedNames (files : Files) : List String :=
  (files.filterMap fun (_, entry) =>
    match entry.content with
    | .ok text => (Program.read? text).map Program.imports
    | .error _ => none).flatten.eraseDups

/-- The libraries in some directories under the implicit names and all that known programs import.
A library becomes known when it is looked at, so when nothing is left to look at none is missing. -/
def inDirectories (directories implicit : List String) : Reading Shelf := do
  let names := (implicit ++ importedNames (← read)).eraseDups
  let found ← names.mapM fun name => do
    return (← libraryIn name directories).map fun library => (name, library)
  return found.filterMap id

end Shelf

namespace CheckRequest

/-- The report on a program as lines. -/
def report (request : CheckRequest) (program : Program) : List String :=
  match request.target, request.json with
  | some target, true => [(ScopeReport.ofProgram target program).toJson.pretty]
  | some target, false => (ScopeReport.ofProgram target program).texts
  | none, true => [(Report.ofProgram program).toJson.pretty]
  | none, false => (Report.ofProgram program).texts

/-- The lines that a check prints. -/
def lines (request : CheckRequest) : Attempt (List String) := do
  let settings ← Settings.forCheck request
  let program ← Program.ofPath request.program
  let implicit := if settings.prelude then [preludeName] else []
  let shelf ← Shelf.inDirectories settings.paths implicit
  match splice shelf.withPrelude implicit program with
  | .error error => throw (.imports error)
  | .ok program => return request.report program

end CheckRequest

/-- What a command comes to. -/
def Command.outcome : Command → Reading Outcome
  | .check request => do
    match ← request.lines.run with
    | .ok lines => return .print lines
    | .error failure => return .failed failure
  | .prelude none => return .print [TreeLang.prelude.toJson.pretty]
  | .prelude (some path) => return .save path TreeLang.prelude.toJson.pretty

end TreeLang
