import TreeLang.Tree.Basic

/-!
# Outlines

The outline of a tree forgets which field a child stands in and keeps the order in which children
are written. It is one rose tree for all sorts of syntax, labelled by the nodes themselves, so a
walk over a program is a recursion over its outline.
-/

namespace TreeLang

/-- A node of any sort. -/
inductive Node where
  | program (program : Program)
  | statement (statement : Statement)
  | declaration (declaration : Declaration)
  | expression (expression : Expression)
  | pattern (pattern : Pattern)
  | identifier (identifier : Identifier)
  | typeForm (typeForm : TypeForm)
  | literal (literal : Literal)
  | parameter (parameter : Parameter)
  | generic (generic : GenericParameter)
  | case (case : EnumerationCase)
  | argument (argument : Argument)

/-- The id of a node. -/
def Node.id : Node → NodeId
  | .program p => p.id
  | .statement s => s.id
  | .declaration d => d.id
  | .expression e => e.id
  | .pattern p => p.id
  | .identifier i => i.id
  | .typeForm a => a.id
  | .literal l => l.id
  | .parameter p => p.id
  | .generic g => g.id
  | .case c => c.id
  | .argument a => a.id

/-- A node with the outlines of its children, in written order. -/
inductive Outline where
  | node (item : Node) (children : List Outline)

/-- The node at the root of an outline. -/
def Outline.item : Outline → Node
  | .node item _ => item

/-- The outlines below the root. -/
def Outline.children : Outline → List Outline
  | .node _ children => children

/-! ## Outlines of syntax -/

/-- A pattern has no children. -/
def Pattern.outline (pattern : Pattern) : Outline := .node (.pattern pattern) []

/-- An identifier has no children. -/
def Identifier.outline (identifier : Identifier) : Outline := .node (.identifier identifier) []

mutual

/-- A named type has its identifier first, a function type its result. -/
def TypeForm.outline : TypeForm → Outline
  | .named id identifier arguments =>
    .node (.typeForm (.named id identifier arguments))
      (identifier.outline :: TypeForm.outlines arguments)
  | .function id result parameters =>
    .node (.typeForm (.function id result parameters))
      (result.outline :: TypeForm.outlines parameters)
  | .placeholder id => .node (.typeForm (.placeholder id)) []

/-- The outlines of a list of types. -/
def TypeForm.outlines : List TypeForm → List Outline
  | [] => []
  | typeForm :: rest => typeForm.outline :: TypeForm.outlines rest

end

mutual

/-- The outline of an expression. -/
def Expression.outline : Expression → Outline
  | .binary id left right operator =>
    .node (.expression (.binary id left right operator)) [left.outline, right.outline]
  | .identifier id used => .node (.expression (.identifier id used)) [used.outline]
  | .call id callee arguments =>
    .node (.expression (.call id callee arguments))
      (callee.outline :: Argument.outlines arguments)
  | .literal id literal => .node (.expression (.literal id literal)) [literal.outline]
  | .member id base name =>
    .node (.expression (.member id base name)) [base.outline, name.outline]
  | .placeholder id => .node (.expression (.placeholder id)) []

/-- The outline of an argument. -/
def Argument.outline : Argument → Outline
  | .argument id label expression =>
    .node (.argument (.argument id label expression)) [expression.outline]
  | .placeholder id => .node (.argument (.placeholder id)) []

/-- The outline of a literal: only an array has children. -/
def Literal.outline : Literal → Outline
  | .array id items => .node (.literal (.array id items)) (Expression.outlines items)
  | .none id => .node (.literal (.none id)) []
  | .boolean id value => .node (.literal (.boolean id value)) []
  | .number id value => .node (.literal (.number id value)) []
  | .string id value => .node (.literal (.string id value)) []
  | .color id value => .node (.literal (.color id value)) []

/-- The outlines of a list of expressions. -/
def Expression.outlines : List Expression → List Outline
  | [] => []
  | expression :: rest => expression.outline :: Expression.outlines rest

/-- The outlines of a list of arguments. -/
def Argument.outlines : List Argument → List Outline
  | [] => []
  | argument :: rest => argument.outline :: Argument.outlines rest

end

/-- The outline of a parameter. -/
def Parameter.outline : Parameter → Outline
  | .parameter id externalName localName typeForm defaultValue =>
    .node (.parameter (.parameter id externalName localName typeForm defaultValue))
      (localName.outline :: typeForm.outline :: (defaultValue.map Expression.outline).toList)
  | .placeholder id => .node (.parameter (.placeholder id)) []

/-- The outline of a type parameter. -/
def GenericParameter.outline : GenericParameter → Outline
  | .parameter id name => .node (.generic (.parameter id name)) [name.outline]
  | .placeholder id => .node (.generic (.placeholder id)) []

/-- The outline of a case. -/
def EnumerationCase.outline : EnumerationCase → Outline
  | .case id name associatedTypes =>
    .node (.case (.case id name associatedTypes))
      (name.outline :: TypeForm.outlines associatedTypes)
  | .placeholder id => .node (.case (.placeholder id)) []

mutual

/-- The outline of a statement. -/
def Statement.outline : Statement → Outline
  | .declaration id content =>
    .node (.statement (.declaration id content)) [content.outline]
  | .branch id condition block =>
    .node (.statement (.branch id condition block))
      (condition.outline :: Statement.outlines block)
  | .loop id pattern iterated block =>
    .node (.statement (.loop id pattern iterated block))
      (pattern.outline :: iterated.outline :: Statement.outlines block)
  | .expression id expression =>
    .node (.statement (.expression id expression)) [expression.outline]
  | .result id expression => .node (.statement (.result id expression)) [expression.outline]
  | .placeholder id => .node (.statement (.placeholder id)) []

/-- The outline of a declaration; its name comes first. -/
def Declaration.outline : Declaration → Outline
  | .value id name typeForm initializer =>
    .node (.declaration (.value id name typeForm initializer))
      (name.outline :: ((typeForm.map TypeForm.outline).toList ++
        (initializer.map Expression.outline).toList))
  | .function id name result generics parameters block =>
    .node (.declaration (.function id name result generics parameters block))
      (name.outline :: result.outline :: (generics.map GenericParameter.outline ++
        (parameters.map Parameter.outline ++ Statement.outlines block)))
  | .enumeration id name generics cases =>
    .node (.declaration (.enumeration id name generics cases))
      (name.outline :: (generics.map GenericParameter.outline ++
        cases.map EnumerationCase.outline))
  | .record id name generics declarations =>
    .node (.declaration (.record id name generics declarations))
      (name.outline :: (generics.map GenericParameter.outline ++
        Declaration.outlines declarations))
  | .space id name declarations =>
    .node (.declaration (.space id name declarations))
      (name.outline :: Declaration.outlines declarations)
  | .library id name => .node (.declaration (.library id name)) [name.outline]
  | .placeholder id => .node (.declaration (.placeholder id)) []

/-- The outlines of a block. -/
def Statement.outlines : List Statement → List Outline
  | [] => []
  | statement :: rest => statement.outline :: Statement.outlines rest

/-- The outlines of a list of declarations. -/
def Declaration.outlines : List Declaration → List Outline
  | [] => []
  | declaration :: rest => declaration.outline :: Declaration.outlines rest

end

/-- The outline of a program: its block. -/
def Program.outline (program : Program) : Outline :=
  .node (.program program) (Statement.outlines program.block)

/-- The outline below a node. -/
def Node.outline : Node → Outline
  | .program p => p.outline
  | .statement s => s.outline
  | .declaration d => d.outline
  | .expression e => e.outline
  | .pattern p => p.outline
  | .identifier i => i.outline
  | .typeForm a => a.outline
  | .literal l => l.outline
  | .parameter p => p.outline
  | .generic g => g.outline
  | .case c => c.outline
  | .argument a => a.outline

/-- The children of a node, in written order. -/
def Node.children (node : Node) : List Node := node.outline.children.map Outline.item

/-! ## Listings -/

mutual

/-- The nodes of an outline, each before the nodes below it. -/
def Outline.preorder : Outline → List Node
  | .node item children => item :: Outline.preorders children

/-- The nodes of several outlines, one outline after the other. -/
def Outline.preorders : List Outline → List Node
  | [] => []
  | outline :: rest => outline.preorder ++ Outline.preorders rest

end

mutual

/-- The nodes of an outline, each after the nodes below it. -/
def Outline.postorder : Outline → List Node
  | .node item children => Outline.postorders children ++ [item]

/-- The nodes of several outlines, one outline after the other. -/
def Outline.postorders : List Outline → List Node
  | [] => []
  | outline :: rest => outline.postorder ++ Outline.postorders rest

end

/-- The nodes of a program, each before the nodes below it. -/
def Program.nodes (program : Program) : List Node := program.outline.preorder

/-- The first node with an id. -/
def Program.find? (program : Program) (id : NodeId) : Option Node :=
  program.nodes.find? fun node => node.id = id

/-- The largest id in a program. -/
def Program.maxId (program : Program) : NodeId :=
  program.nodes.foldl (fun largest node => largest.max node.id) program.id

/-- The number of nodes of a program. -/
def Program.nodeCount (program : Program) : Nat := program.nodes.length

end TreeLang
