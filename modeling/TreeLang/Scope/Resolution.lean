import TreeLang.Library.Prelude
import TreeLang.Scope.Namespace
import TreeLang.Scope.Stack
import TreeLang.Tree.Walk

/-!
# Name resolution

One walk binds every identifier to the pattern that declares it and registers the qualified names of
what is declared outside of functions. Functions, namespaces and loops open a frame on the first
visit and close it on the second. A variable is bound once its initializer is done, a function
before its parameters and its block.

A walk can be given a target. It stops on reaching that node, and the scope then holds what is
visible there.
-/

namespace TreeLang

/-- What is known about the names of a program. -/
structure Scope where
  /-- Identifiers and member expressions with the patterns that they refer to. -/
  identifiers : Table NodeId NodeId := []
  /-- The names of declared patterns. -/
  names : Table NodeId String := []
  /-- The names of the type parameters of declarations that have some. -/
  typeParameters : Table NodeId (List String) := []
  /-- The paths of declarations outside of functions. -/
  qualified : Table NodeId (List String) := []
  /-- The tree of qualified names. -/
  space : Namespace := []
  /-- Identifiers that match no declaration, in the order of the walk. -/
  unresolved : List NodeId := []
  /-- Whether the walk stopped at its target. -/
  reachedTarget : Bool := false
  /-- Values that are visible where the walk ended. -/
  values : ScopeStack := {}
  /-- Types that are visible where the walk ended. -/
  types : ScopeStack := {}

namespace Scope

/-- The pattern that an expression refers to. -/
def patternFor (scope : Scope) (id : NodeId) : Option NodeId := scope.identifiers.find id

/-- The name of a pattern. -/
def nameOf (scope : Scope) (pattern : NodeId) : Option String := scope.names.find pattern

/-- The path of a declaration. -/
def qualifiedName (scope : Scope) (pattern : NodeId) : Option (List String) :=
  scope.qualified.find pattern

/-- Binds a value in the innermost frame. -/
def bindValue (pattern : Pattern) (scope : Scope) : Scope :=
  { scope with
    values := scope.values.set pattern.name pattern.id
    names := scope.names.put pattern.id pattern.name }

/-- Binds a type in the innermost frame. -/
def bindType (pattern : Pattern) (scope : Scope) : Scope :=
  { scope with
    types := scope.types.set pattern.name pattern.id
    names := scope.names.put pattern.id pattern.name }

/-- Notes the name of a pattern that is not bound in a frame. -/
def nameOnly (pattern : Pattern) (scope : Scope) : Scope :=
  { scope with names := scope.names.put pattern.id pattern.name }

/-- Opens a frame for values. -/
def pushValues (scope : Scope) : Scope := { scope with values := scope.values.push }

/-- Closes a frame of values. -/
def popValues (scope : Scope) : Scope := { scope with values := scope.values.pop }

/-- Opens a frame for types. -/
def pushTypes (scope : Scope) : Scope := { scope with types := scope.types.push }

/-- Closes a frame of types. -/
def popTypes (scope : Scope) : Scope := { scope with types := scope.types.pop }

/-- Notes the names of the type parameters of a declaration that has some. -/
def noteTypeParameters (name : Pattern) (declaration : Declaration) (scope : Scope) : Scope :=
  let names := declaration.genericPatterns.map Pattern.name
  if names.isEmpty then scope
  else { scope with typeParameters := scope.typeParameters.put name.id names }

/-- Refers an expression and its identifier to the value of that name, if one is visible. -/
def resolve (id : NodeId) (used : Identifier) (scope : Scope) : Scope :=
  if used.isPlaceholder then scope
  else
    match scope.values.get? used.name with
    | some pattern =>
      { scope with
        identifiers := (scope.identifiers.put id pattern).put used.id pattern }
    | none => { scope with unresolved := scope.unresolved ++ [id] }

/-- Refers a member expression to the declaration at its path, if there is one. -/
def resolvePath (id : NodeId) (path : List String) (scope : Scope) : Scope :=
  match scope.space.pattern? path with
  | some pattern => { scope with identifiers := scope.identifiers.put id pattern }
  | none => scope

end Scope

/-- The state of a walk: what is known, where in the tree of names it is, and in how many
functions. -/
structure Resolver where
  scope : Scope := {}
  path : List String := []
  functionDepth : Nat := 0

namespace Resolver

/-- Applies a change to what is known. -/
def onScope (change : Scope → Scope) (r : Resolver) : Resolver :=
  { r with scope := change r.scope }

/-- Registers a declaration under the current path; what functions declare is not registered, and
neither is what the path has no place for. -/
def register (pattern : Pattern) (r : Resolver) : Resolver :=
  if 0 < r.functionDepth then r
  else
    let path := r.path ++ [pattern.name]
    match r.scope.space.set path pattern.id with
    | .ok space =>
      r.onScope fun scope =>
        { scope with space, qualified := scope.qualified.put pattern.id path }
    | .error _ => r

/-- Makes the current path a namespace, if it has a place. -/
def createSpace (r : Resolver) : Resolver :=
  r.onScope fun scope => { scope with space := scope.space.orSame (scope.space.create r.path) }

/-- Goes into the namespace of a name. -/
def enterSpace (name : String) (r : Resolver) : Resolver :=
  ({ r with path := r.path ++ [name] }).createSpace

/-- Goes back to the namespace around the current one. -/
def leaveSpace (r : Resolver) : Resolver := { r with path := r.path.dropLast }

/-- Names and registers a case of an enumeration. -/
def registerCase (r : Resolver) : EnumerationCase → Resolver
  | .case _ name _ => (r.onScope (·.nameOnly name)).register name
  | .placeholder _ => r

/-- Binds a parameter inside of its function. -/
def bindParameter (r : Resolver) : Parameter → Resolver
  | .parameter _ _ localName _ _ => r.onScope (·.bindValue localName)
  | .placeholder _ => r

/-- The first visit of a declaration. -/
def enterDeclaration (r : Resolver) (declaration : Declaration) : Resolver :=
  match declaration with
  | .function _ name _ _ parameters _ =>
    let r := (r.onScope (·.bindValue name)).register name
    let r := r.onScope fun scope =>
      ((scope.noteTypeParameters name declaration).pushValues).pushTypes
    let r := parameters.foldl bindParameter r
    let r := declaration.genericPatterns.foldl (fun r generic => r.onScope (·.bindType generic)) r
    { r with functionDepth := r.functionDepth + 1 }
  | .record _ name _ _ =>
    r.onScope fun scope => (scope.bindType name).noteTypeParameters name declaration
  | .enumeration _ name _ _ => r.onScope (·.bindType name)
  | .space _ name _ =>
    ((r.onScope (·.nameOnly name)).enterSpace name.name).onScope fun scope =>
      scope.pushValues.pushTypes
  | .value _ _ _ _ | .library _ _ | .placeholder _ => r

/-- The second visit of a declaration. -/
def leaveDeclaration (r : Resolver) (declaration : Declaration) : Resolver :=
  match declaration with
  | .function _ _ _ _ _ _ =>
    ({ r with functionDepth := r.functionDepth - 1 }).onScope fun scope =>
      scope.popValues.popTypes
  | .value _ name _ _ => (r.onScope (·.bindValue name)).register name
  | .record _ name _ _ =>
    -- The name of a record is its constructor too, but a primitive type has none.
    if name.name ∈ primitiveTypes then r else (r.onScope (·.bindValue name)).register name
  | .enumeration _ name _ cases =>
    let r := (r.onScope (·.noteTypeParameters name declaration)).enterSpace name.name
    (cases.foldl registerCase r).leaveSpace
  | .space _ _ _ => r.leaveSpace.onScope fun scope => scope.popValues.popTypes
  | .library _ _ | .placeholder _ => r

/-- What the walk is asked for at a declaration. The members of a record are not walked. -/
def declarationControl (declaration : Declaration) (control : Control) : Control :=
  match declaration with
  | .library _ _ | .placeholder _ => control
  | .record _ _ _ _ => { control with ignoreChildren := true, needsRevisit := true }
  | _ => { control with needsRevisit := true }

/-- The first visit of a node. A path of identifiers is looked up as a whole; the base of any other
member expression is walked. -/
def enter (node : Node) (control : Control) (r : Resolver) : Control × Resolver :=
  match node with
  | .declaration declaration =>
    (declarationControl declaration control, r.enterDeclaration declaration)
  | .statement (.loop _ pattern _ _) =>
    ({ control with needsRevisit := true },
      r.onScope fun scope => scope.pushValues.bindValue pattern)
  | .expression (.identifier id used) =>
    ({ control with ignoreChildren := true }, r.onScope (·.resolve id used))
  | .expression (.member id base name) =>
    match (Expression.member id base name).memberPath with
    | some path => ({ control with ignoreChildren := true }, r.onScope (·.resolvePath id path))
    | none => (control, r)
  | .typeForm _ => ({ control with ignoreChildren := true }, r)
  | _ => (control, r)

/-- The second visit of a node. -/
def leave (node : Node) (r : Resolver) : Resolver :=
  match node with
  | .declaration declaration => r.leaveDeclaration declaration
  | .statement (.loop _ _ _ _) => r.onScope Scope.popValues
  | _ => r

/-- The visitor of the walk; the target stops it. -/
def visit (target : Option NodeId) : Visitor Resolver := fun node control r =>
  if control.isRevisit then (control, r.leave node)
  else if target = some node.id then
    ({ control with stop := true }, r.onScope fun scope => { scope with reachedTarget := true })
  else enter node control r

end Resolver

/-- Resolves the names of a program, up to a target if there is one. -/
def Program.resolve (program : Program) (target : Option NodeId) : Scope :=
  (program.walk (Resolver.visit target) {}).scope

end TreeLang
