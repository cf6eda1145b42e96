import TreeLang.NodeId

/-!
# Program trees

A program is a block of statements. Every node that can be selected in an editor has an id of its
own, and unfinished parts are placeholders rather than gaps.
-/

namespace TreeLang

/-- A binding site: the place that identifiers refer to. -/
structure Pattern where
  id : NodeId
  name : String
  deriving DecidableEq

/-- A use of a name. A placeholder is an unfinished identifier. -/
structure Identifier where
  id : NodeId
  name : String
  isPlaceholder : Bool
  deriving DecidableEq

/-- A written type. -/
inductive TypeForm where
  | named (id : NodeId) (identifier : Identifier) (arguments : List TypeForm)
  | function (id : NodeId) (result : TypeForm) (parameters : List TypeForm)
  | placeholder (id : NodeId)

/-- The operators between two expressions. -/
inductive Operator where
  | isEqualTo
  | isNotEqualTo
  | isLessThan
  | isGreaterThan
  | isLessThanOrEqualTo
  | isGreaterThanOrEqualTo
  | setEqualTo
  deriving DecidableEq

mutual

/-- An expression. -/
inductive Expression where
  | binary (id : NodeId) (left right : Expression) (operator : Operator)
  | identifier (id : NodeId) (identifier : Identifier)
  | call (id : NodeId) (callee : Expression) (arguments : List Argument)
  | literal (id : NodeId) (literal : Literal)
  | member (id : NodeId) (base : Expression) (name : Identifier)
  | placeholder (id : NodeId)

/-- An argument of a call. -/
inductive Argument where
  | argument (id : NodeId) (label : Option String) (expression : Expression)
  | placeholder (id : NodeId)

/-- A literal. -/
inductive Literal where
  | none (id : NodeId)
  | boolean (id : NodeId) (value : Bool)
  | number (id : NodeId) (value : Float)
  | string (id : NodeId) (value : String)
  | color (id : NodeId) (value : String)
  | array (id : NodeId) (items : List Expression)

end

/-- A parameter of a function. -/
inductive Parameter where
  | parameter (id : NodeId) (externalName : Option String) (localName : Pattern)
      (typeForm : TypeForm) (defaultValue : Option Expression)
  | placeholder (id : NodeId)

/-- A type parameter of a declaration. -/
inductive GenericParameter where
  | parameter (id : NodeId) (name : Pattern)
  | placeholder (id : NodeId)

/-- A case of an enumeration, with the types of the values that it carries. -/
inductive EnumerationCase where
  | case (id : NodeId) (name : Pattern) (associatedTypes : List TypeForm)
  | placeholder (id : NodeId)

mutual

/-- A statement. -/
inductive Statement where
  | declaration (id : NodeId) (content : Declaration)
  | branch (id : NodeId) (condition : Expression) (block : List Statement)
  | loop (id : NodeId) (pattern : Pattern) (iterated : Expression) (block : List Statement)
  | expression (id : NodeId) (expression : Expression)
  | result (id : NodeId) (expression : Expression)
  | placeholder (id : NodeId)

/-- A declaration. -/
inductive Declaration where
  | value (id : NodeId) (name : Pattern) (typeForm : Option TypeForm)
      (initializer : Option Expression)
  | function (id : NodeId) (name : Pattern) (result : TypeForm)
      (generics : List GenericParameter) (parameters : List Parameter) (block : List Statement)
  | enumeration (id : NodeId) (name : Pattern) (generics : List GenericParameter)
      (cases : List EnumerationCase)
  | record (id : NodeId) (name : Pattern) (generics : List GenericParameter)
      (declarations : List Declaration)
  | space (id : NodeId) (name : Pattern) (declarations : List Declaration)
  | library (id : NodeId) (name : Pattern)
  | placeholder (id : NodeId)

end

/-- The root of a tree: a block of top-level statements. -/
structure Program where
  id : NodeId
  block : List Statement

/-! ## Ids -/

/-- The id of a written type. -/
def TypeForm.id : TypeForm → NodeId
  | .named id _ _ | .function id _ _ | .placeholder id => id

/-- The id of an expression. -/
def Expression.id : Expression → NodeId
  | .binary id _ _ _ | .identifier id _ | .call id _ _ | .literal id _ | .member id _ _
  | .placeholder id => id

/-- The id of an argument. -/
def Argument.id : Argument → NodeId
  | .argument id _ _ | .placeholder id => id

/-- The id of a literal. -/
def Literal.id : Literal → NodeId
  | .none id | .boolean id _ | .number id _ | .string id _ | .color id _ | .array id _ => id

/-- The id of a parameter. -/
def Parameter.id : Parameter → NodeId
  | .parameter id _ _ _ _ | .placeholder id => id

/-- The id of a type parameter. -/
def GenericParameter.id : GenericParameter → NodeId
  | .parameter id _ | .placeholder id => id

/-- The id of a case. -/
def EnumerationCase.id : EnumerationCase → NodeId
  | .case id _ _ | .placeholder id => id

/-- The id of a statement. -/
def Statement.id : Statement → NodeId
  | .declaration id _ | .branch id _ _ | .loop id _ _ _ | .expression id _ | .result id _
  | .placeholder id => id

/-- The id of a declaration. -/
def Declaration.id : Declaration → NodeId
  | .value id _ _ _ | .function id _ _ _ _ _ | .enumeration id _ _ _ | .record id _ _ _
  | .space id _ _ | .library id _ | .placeholder id => id

/-! ## Names and paths -/

/-- Whether the type is left open. -/
def TypeForm.isPlaceholder : TypeForm → Bool
  | .placeholder _ => true
  | _ => false

/-- The symbol of an operator. -/
def Operator.symbol : Operator → String
  | .isEqualTo => "=="
  | .isNotEqualTo => "!="
  | .isLessThan => "<"
  | .isGreaterThan => ">"
  | .isLessThanOrEqualTo => "<="
  | .isGreaterThanOrEqualTo => ">="
  | .setEqualTo => "="

/-- Whether the operator compares; the other one assigns. -/
def Operator.isComparison : Operator → Bool
  | .setEqualTo => false
  | _ => true

/-- The segments of `A.B.C`, when every part of the expression is an identifier. -/
def Expression.memberPath : Expression → Option (List String)
  | .identifier _ used => some [used.name]
  | .member _ base name => base.memberPath.map (· ++ [name.name])
  | _ => none

/-- The pattern that a declaration introduces. -/
def Declaration.name : Declaration → Option Pattern
  | .value _ name _ _ | .function _ name _ _ _ _ | .enumeration _ name _ _ | .record _ name _ _
  | .space _ name _ | .library _ name => some name
  | .placeholder _ => none

/-- The pattern of a type parameter. -/
def GenericParameter.pattern : GenericParameter → Option Pattern
  | .parameter _ name => some name
  | .placeholder _ => none

/-- The patterns of the type parameters of a declaration. -/
def Declaration.genericPatterns : Declaration → List Pattern
  | .function _ _ _ generics _ _ | .enumeration _ _ generics _ | .record _ _ generics _ =>
    generics.filterMap GenericParameter.pattern
  | _ => []

/-- The name by which a call passes the parameter: its external name, or else its local one. -/
def Parameter.label : Parameter → Option String
  | .parameter _ externalName localName _ _ => some (externalName.getD localName.name)
  | .placeholder _ => none

/-- The names that the top level of a program imports. -/
def Program.imports (program : Program) : List String :=
  program.block.filterMap fun
    | .declaration _ (.library _ name) => some name.name
    | _ => none

end TreeLang
