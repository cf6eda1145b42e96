import TreeLang.NodeId
import TreeLang.Table

/-!
# Namespaces

A namespace is a tree of names. A name can stand for a declaration, for a namespace of its own, or
for both: a record and the namespace of its functions share a name. A path can be written to only
when all names before its last one are namespaces already.
-/

namespace TreeLang

/-- What a name stands for: a declaration, the members of a namespace, or both. -/
inductive NamespaceEntry where
  | mk (pattern : Option NodeId) (members : Option (List (String × NamespaceEntry)))

/-- Names with what they stand for, in order of first registration. -/
abbrev Namespace := Table String NamespaceEntry

/-- The declaration under a name. -/
def NamespaceEntry.pattern : NamespaceEntry → Option NodeId
  | .mk pattern _ => pattern

/-- The namespace under a name. -/
def NamespaceEntry.members : NamespaceEntry → Option Namespace
  | .mk _ members => members

/-- Why a path cannot be written to. -/
inductive NamespaceError where
  | missingNamespace (path : List String)
  | notANamespace (path : List String)
  | alreadyDefined (path : List String)
  | emptyPath
  deriving DecidableEq

/-- The dotted form of a path. -/
def dotted (path : List String) : String := ".".intercalate path

/-- The text of an error. -/
def NamespaceError.message : NamespaceError → String
  | .missingNamespace path => "namespace `" ++ dotted path ++ "` does not exist"
  | .notANamespace path => "`" ++ dotted path ++ "` is a declaration, not a namespace"
  | .alreadyDefined path => "`" ++ dotted path ++ "` is already defined"
  | .emptyPath => "empty namespace path"

namespace Namespace

/-- What a path stands for; the empty path stands for nothing. -/
def get? : List String → Namespace → Option NamespaceEntry
  | [], _ => none
  | [name], space => space.find name
  | name :: rest, space => (space.find name).bind fun entry => entry.members.bind (get? rest)

/-- The declaration at a path. -/
def pattern? (path : List String) (space : Namespace) : Option NodeId :=
  (get? path space).bind NamespaceEntry.pattern

/-- The namespace at a path; the empty path is the namespace itself. -/
def members? (path : List String) (space : Namespace) : Option Namespace :=
  if path.isEmpty then some space else (get? path space).bind NamespaceEntry.members

/-- Changes the entry at a path, which is empty when it is new. `done` is the path that leads
here. -/
def edit (change : NamespaceEntry → Except NamespaceError NamespaceEntry) :
    List String → List String → Namespace → Except NamespaceError Namespace
  | _, [], _ => .error .emptyPath
  | _, [name], space => do
    let entry ← change ((space.find name).getD (.mk none none))
    return space.put name entry
  | done, name :: rest, space =>
    let here := done ++ [name]
    match space.find name with
    | none => .error (.missingNamespace here)
    | some (.mk _ none) => .error (.notANamespace here)
    | some (.mk pattern (some members)) => do
      let members ← edit change here rest members
      return space.put name (.mk pattern (some members))

/-- Registers a declaration at a path that has none. -/
def set (path : List String) (pattern : NodeId) (space : Namespace) :
    Except NamespaceError Namespace :=
  edit (fun entry =>
    match entry.pattern with
    | some _ => .error (.alreadyDefined path)
    | none => .ok (.mk (some pattern) entry.members)) [] path space

/-- Makes a namespace at a path; one that is there is kept. -/
def create (path : List String) (space : Namespace) : Except NamespaceError Namespace :=
  edit (fun entry => .ok (.mk entry.pattern (some (entry.members.getD [])))) [] path space

/-- The namespace after an edit, or as it was when the edit fails. -/
def orSame (space : Namespace) : Except NamespaceError Namespace → Namespace
  | .ok edited => edited
  | .error _ => space

mutual

/-- The declarations below a path, which is given; a declaration comes before its members. -/
def flattenAt (path : List String) : NamespaceEntry → List (List String × NodeId)
  | .mk pattern members =>
    (match pattern with
      | some id => [(path, id)]
      | none => []) ++
    (match members with
      | some entries => flattenFrom path entries
      | none => [])

/-- The declarations of a list of entries below a path. -/
def flattenFrom (path : List String) :
    List (String × NamespaceEntry) → List (List String × NodeId)
  | [] => []
  | (name, entry) :: rest => flattenAt (path ++ [name]) entry ++ flattenFrom path rest

end

/-- All declarations with their paths. -/
def flatten (space : Namespace) : List (List String × NodeId) := flattenFrom [] space

end Namespace

end TreeLang
