import TreeLang.Table

/-!
# Files

What a command does depends on files, and which files it needs depends on what they hold. A reading
is a computation over the files known so far: it comes to a result or names the file to look at
next. It is run anew each time one more file is known.
-/

namespace TreeLang

/-- Why a file cannot be read or written. -/
inductive FileTrouble where
  | absent
  | directory
  | notDirectory
  | denied
  | notText
  | other (description : String)
  deriving DecidableEq

/-- The text of a trouble, with the number by which the system knows it. -/
def FileTrouble.message : FileTrouble → String
  | .absent => "No such file or directory (os error 2)"
  | .directory => "Is a directory (os error 21)"
  | .notDirectory => "Not a directory (os error 20)"
  | .denied => "Permission denied (os error 13)"
  | .notText => "stream did not contain valid UTF-8"
  | .other description => description

/-- What stands at a path. -/
structure FileEntry where
  /-- Whether it is a file, be it readable or not. -/
  isFile : Bool
  content : Except FileTrouble String

/-- What is known to stand at some paths. -/
abbrev Files := Table String FileEntry

/-- A computation over the known files that may name another one to look at. -/
abbrev Reading := ReaderT Files (Except String)

/-- What stands at a path. -/
def look (path : String) : Reading FileEntry := fun files =>
  match Table.find path files with
  | some entry => .ok entry
  | none => .error path

end TreeLang
