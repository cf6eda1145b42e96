import TreeLang.Command

/-!
# The command line

Looks at the files that a command names, one after the other, and carries its outcome out. The exit
code is zero for what succeeds, one for a failure and two for words that are no command.
-/

namespace TreeLang

/-- The trouble that an error of the system stands for. The number of an error may come negated. -/
def FileTrouble.ofError : IO.Error → FileTrouble
  | .noFileOrDirectory .. => .absent
  | .inappropriateType _ code _ =>
    if code = 20 || code = -20 then .notDirectory else .directory
  | .permissionDenied .. => .denied
  | .userError _ => .notText
  | error => .other (toString error)

/-- What stands at a path. -/
def inspect (path : String) : IO FileEntry := do
  if path.any (· = '\x00') then return { isFile := false, content := .error .absent }
  match ← (IO.FS.readFile path).toBaseIO with
  | .ok text => return { isFile := true, content := .ok text }
  | .error error =>
    let trouble := FileTrouble.ofError error
    return { isFile := trouble = .denied || trouble = .notText, content := .error trouble }

/-- Looks at files until a command comes to its outcome. -/
partial def settle (command : Command) (files : Files) : IO Outcome := do
  match command.outcome files with
  | .ok outcome => return outcome
  | .error path => settle command (files ++ [(path, ← inspect path)])

/-- Tells a failure and gives its exit code. -/
def tell (failure : Failure) : IO UInt32 := do
  IO.eprintln ("error: " ++ failure.message)
  return 1

/-- Carries an outcome out. -/
def conclude : Outcome → IO UInt32
  | .print lines => do
    for line in lines do IO.println line
    return 0
  | .save path text => do
    match ← (IO.FS.writeFile path text).toBaseIO with
    | .ok () => return 0
    | .error error => tell (.unwritable path (.ofError error))
  | .failed failure => tell failure

end TreeLang

/-- Runs the command that the words give. -/
def main (words : List String) : IO UInt32 := do
  match TreeLang.Command.ofWords words with
  | .error error =>
    IO.eprintln ("error: " ++ error.message)
    return 2
  | .ok command => TreeLang.conclude (← TreeLang.settle command [])
