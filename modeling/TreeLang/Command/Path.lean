/-!
# Paths

A path is a text of segments between slashes. An empty segment and a segment of one point after the
first name no step of their own.
-/

namespace TreeLang.Path

/-- Drops the segments at the end that name no step. -/
def trimmed (segments : List String) : List String :=
  (segments.reverse.dropWhile fun segment => segment = "" || segment = ".").reverse

/-- The path without its last step; the root and the empty path have none. -/
def parent? (path : String) : Option String :=
  match path.splitOn "/" with
  | [] => none
  | "" :: segments =>
    match trimmed segments with
    | [] => none
    | steps => some ("/" ++ "/".intercalate (trimmed steps.dropLast))
  | first :: segments =>
    match trimmed segments with
    | [] => some ""
    | steps => some ("/".intercalate (first :: trimmed steps.dropLast))

/-- The path that is reached from a directory; one that starts at the root stands for itself. -/
def join (directory path : String) : String :=
  if path.startsWith "/" || directory.isEmpty then path
  else if directory.endsWith "/" then directory ++ path
  else directory ++ "/" ++ path

end TreeLang.Path
