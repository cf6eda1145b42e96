import TreeLang.Tree.Outline

/-!
# Building trees

A builder makes one node at a time and takes its ids from a supply. Each function names the order in
which it allocates: the nodes that it makes below a node come before the node itself, and what is
passed to it has its ids already.
-/

namespace TreeLang

/-- A computation that allocates ids. -/
abbrev Build := StateM IdSupply

namespace Build

/-- The next id. -/
def fresh : Build NodeId := fun ids => ids.fresh

/-! ## Leaves -/

/-- A binding site. -/
def pattern (name : String) : Build Pattern := do
  return { id := ← fresh, name }

/-- A use of a name. -/
def identifier (name : String) : Build Identifier := do
  return { id := ← fresh, name, isPlaceholder := false }

/-- An unfinished identifier. -/
def placeholderIdentifier : Build Identifier := do
  return { id := ← fresh, name := "", isPlaceholder := true }

/-! ## Types -/

/-- A type by its name, with arguments. -/
def typeNamed (name : String) (arguments : List TypeForm) : Build TypeForm := do
  let used ← identifier name
  return .named (← fresh) used arguments

/-- A type by its name alone. -/
def type (name : String) : Build TypeForm := typeNamed name []

/-- The type of a function. -/
def functionType (parameters : List TypeForm) (result : TypeForm) : Build TypeForm := do
  return .function (← fresh) result parameters

/-- A type that is left open. -/
def typePlaceholder : Build TypeForm := do
  return .placeholder (← fresh)

/-! ## Expressions -/

/-- A literal as an expression; the literal comes first. -/
def literal (make : NodeId → Literal) : Build Expression := do
  let inner := make (← fresh)
  return .literal (← fresh) inner

/-- A use of a name as an expression. -/
def ident (name : String) : Build Expression := do
  let used ← identifier name
  return .identifier (← fresh) used

/-- An unfinished identifier as an expression. -/
def placeholderIdent : Build Expression := do
  let used ← placeholderIdentifier
  return .identifier (← fresh) used

/-- An expression that is left open. -/
def expressionPlaceholder : Build Expression := do
  return .placeholder (← fresh)

/-- A member of an expression. -/
def memberOf (base : Expression) (name : String) : Build Expression := do
  let used ← identifier name
  return .member (← fresh) base used

/-- A dotted path such as `A.B.C`; the empty path is left open. -/
def member : List String → Build Expression
  | [] => expressionPlaceholder
  | first :: rest => do
    let base ← ident first
    rest.foldlM memberOf base

/-- Arguments with their labels. -/
def arguments : List (Option String × Expression) → Build (List Argument)
  | [] => return []
  | (label, expression) :: rest => do
    let argument := Argument.argument (← fresh) label expression
    return argument :: (← arguments rest)

/-- A call. -/
def call (callee : Expression) (given : List (Option String × Expression)) : Build Expression := do
  let arguments ← arguments given
  return .call (← fresh) callee arguments

/-- Two expressions with an operator between them. -/
def binary (left : Expression) (operator : Operator) (right : Expression) : Build Expression := do
  return .binary (← fresh) left right operator

/-! ## Declarations -/

/-- A variable. -/
def variableNamed (name : String) (typeForm : Option TypeForm)
    (initializer : Option Expression) : Build Declaration := do
  let name ← pattern name
  return .value (← fresh) name typeForm initializer

/-- Type parameters by their names. -/
def generics : List String → Build (List GenericParameter)
  | [] => return []
  | name :: rest => do
    let name ← pattern name
    let generic := GenericParameter.parameter (← fresh) name
    return generic :: (← generics rest)

/-- A parameter, with an external name or without. -/
def parameter (label : Option String) (name : String) (typeForm : TypeForm) :
    Build Parameter := do
  let localName ← pattern name
  return .parameter (← fresh) label localName typeForm none

/-- A function. -/
def function (name : String) (genericNames : List String) (parameters : List Parameter)
    (result : TypeForm) (block : List Statement) : Build Declaration := do
  let name ← pattern name
  let generics ← generics genericNames
  return .function (← fresh) name result generics parameters block

/-- A record. -/
def record (name : String) (genericNames : List String) (declarations : List Declaration) :
    Build Declaration := do
  let name ← pattern name
  let generics ← generics genericNames
  return .record (← fresh) name generics declarations

/-- A case of an enumeration. -/
def case (name : String) (associatedTypes : List TypeForm) : Build EnumerationCase := do
  let name ← pattern name
  return .case (← fresh) name associatedTypes

/-- An enumeration. -/
def enumeration (name : String) (genericNames : List String) (cases : List EnumerationCase) :
    Build Declaration := do
  let name ← pattern name
  let generics ← generics genericNames
  return .enumeration (← fresh) name generics cases

/-- A namespace. -/
def space (name : String) (declarations : List Declaration) : Build Declaration := do
  let name ← pattern name
  return .space (← fresh) name declarations

/-- An import of a library. -/
def library (name : String) : Build Declaration := do
  let name ← pattern name
  return .library (← fresh) name

/-! ## Statements -/

/-- A declaration as a statement. -/
def declaration (content : Declaration) : Build Statement := do
  return .declaration (← fresh) content

/-- A branch. -/
def branch (condition : Expression) (block : List Statement) : Build Statement := do
  return .branch (← fresh) condition block

/-- A loop. -/
def forEach (name : String) (iterated : Expression) (block : List Statement) :
    Build Statement := do
  let pattern ← pattern name
  return .loop (← fresh) pattern iterated block

/-- An expression as a statement. -/
def expressionStatement (expression : Expression) : Build Statement := do
  return .expression (← fresh) expression

/-- A result of a function. -/
def resultStatement (expression : Expression) : Build Statement := do
  return .result (← fresh) expression

/-- A program. -/
def program (block : List Statement) : Build Program := do
  return { id := ← fresh, block }

end Build

end TreeLang
