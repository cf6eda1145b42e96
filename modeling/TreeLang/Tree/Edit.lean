import TreeLang.Tree.Outline

/-!
# Edits

Replacing a node gives a new tree in which nodes outside the replaced part keep their ids. Giving a
tree fresh ids numbers its nodes in the order of their outline, parents first.
-/

namespace TreeLang

/-- A subtree that can take the place of a node of its own sort. -/
inductive Fragment where
  | statement (statement : Statement)
  | declaration (declaration : Declaration)
  | expression (expression : Expression)

/-- The outline of a fragment. -/
def Fragment.outline : Fragment → Outline
  | .statement s => s.outline
  | .declaration d => d.outline
  | .expression e => e.outline

/-- The id of a fragment. -/
def Fragment.id : Fragment → NodeId
  | .statement s => s.id
  | .declaration d => d.id
  | .expression e => e.id

/-! ## Replacing -/

/-- The statement that stands for one with the id `target`. -/
def Fragment.statementFor? (target id : NodeId) : Fragment → Option Statement
  | .statement s => if id = target then some s else none
  | _ => none

/-- The declaration that stands for one with the id `target`. -/
def Fragment.declarationFor? (target id : NodeId) : Fragment → Option Declaration
  | .declaration d => if id = target then some d else none
  | _ => none

/-- The expression that stands for one with the id `target`. -/
def Fragment.expressionFor? (target id : NodeId) : Fragment → Option Expression
  | .expression e => if id = target then some e else none
  | _ => none

section Replace

variable (target : NodeId) (new : Fragment)

mutual

/-- Replaces within an expression; what takes the place of a node is not searched again. -/
def Expression.replace : Expression → Expression
  | .binary id left right operator =>
    (new.expressionFor? target id).getD
      (.binary id left.replace right.replace operator)
  | .identifier id used => (new.expressionFor? target id).getD (.identifier id used)
  | .call id callee arguments =>
    (new.expressionFor? target id).getD
      (.call id callee.replace (Argument.replaceAll arguments))
  | .literal id literal =>
    (new.expressionFor? target id).getD (.literal id literal.replace)
  | .member id base name =>
    (new.expressionFor? target id).getD (.member id base.replace name)
  | .placeholder id => (new.expressionFor? target id).getD (.placeholder id)

/-- Replaces within an argument. -/
def Argument.replace : Argument → Argument
  | .argument id label expression => .argument id label expression.replace
  | .placeholder id => .placeholder id

/-- Replaces within a literal. -/
def Literal.replace : Literal → Literal
  | .array id items => .array id (Expression.replaceAll items)
  | .none id => .none id
  | .boolean id value => .boolean id value
  | .number id value => .number id value
  | .string id value => .string id value
  | .color id value => .color id value

/-- Replaces within each expression of a list. -/
def Expression.replaceAll : List Expression → List Expression
  | [] => []
  | expression :: rest => expression.replace :: Expression.replaceAll rest

/-- Replaces within each argument of a list. -/
def Argument.replaceAll : List Argument → List Argument
  | [] => []
  | argument :: rest => argument.replace :: Argument.replaceAll rest

end

/-- Replaces within the default value of a parameter. -/
def Parameter.replace : Parameter → Parameter
  | .parameter id externalName localName typeForm defaultValue =>
    .parameter id externalName localName typeForm
      (defaultValue.map (Expression.replace target new))
  | .placeholder id => .placeholder id

mutual

/-- Replaces within a statement. -/
def Statement.replace : Statement → Statement
  | .declaration id content =>
    (new.statementFor? target id).getD (.declaration id content.replace)
  | .branch id condition block =>
    (new.statementFor? target id).getD
      (.branch id (condition.replace target new) (Statement.replaceAll block))
  | .loop id pattern iterated block =>
    (new.statementFor? target id).getD
      (.loop id pattern (iterated.replace target new) (Statement.replaceAll block))
  | .expression id expression =>
    (new.statementFor? target id).getD (.expression id (expression.replace target new))
  | .result id expression =>
    (new.statementFor? target id).getD (.result id (expression.replace target new))
  | .placeholder id => (new.statementFor? target id).getD (.placeholder id)

/-- Replaces within a declaration. Enumerations and imports hold nothing that can be replaced. -/
def Declaration.replace : Declaration → Declaration
  | .value id name typeForm initializer =>
    (new.declarationFor? target id).getD
      (.value id name typeForm (initializer.map (Expression.replace target new)))
  | .function id name result generics parameters block =>
    (new.declarationFor? target id).getD
      (.function id name result generics (parameters.map (Parameter.replace target new))
        (Statement.replaceAll block))
  | .enumeration id name generics cases =>
    (new.declarationFor? target id).getD (.enumeration id name generics cases)
  | .record id name generics declarations =>
    (new.declarationFor? target id).getD
      (.record id name generics (Declaration.replaceAll declarations))
  | .space id name declarations =>
    (new.declarationFor? target id).getD
      (.space id name (Declaration.replaceAll declarations))
  | .library id name => (new.declarationFor? target id).getD (.library id name)
  | .placeholder id => (new.declarationFor? target id).getD (.placeholder id)

/-- Replaces within each statement of a block. -/
def Statement.replaceAll : List Statement → List Statement
  | [] => []
  | statement :: rest => statement.replace :: Statement.replaceAll rest

/-- Replaces within each declaration of a list. -/
def Declaration.replaceAll : List Declaration → List Declaration
  | [] => []
  | declaration :: rest => declaration.replace :: Declaration.replaceAll rest

end

/-- Replaces the nodes with the id `target` and the sort of the fragment; a program without one is
left as it is. -/
def Program.replace (program : Program) : Program :=
  { program with block := Statement.replaceAll target new program.block }

end Replace

/-! ## Renumbering -/

section Renumber

variable {σ : Type} (assign : NodeId → σ → NodeId × σ)

/-- Renumbers a pattern. -/
def Pattern.renumber (pattern : Pattern) (s : σ) : Pattern × σ :=
  let (id, s) := assign pattern.id s
  ({ pattern with id }, s)

/-- Renumbers an identifier. -/
def Identifier.renumber (identifier : Identifier) (s : σ) : Identifier × σ :=
  let (id, s) := assign identifier.id s
  ({ identifier with id }, s)

mutual

/-- Renumbers a type, parents first. -/
def TypeForm.renumber : TypeForm → σ → TypeForm × σ
  | .named id identifier arguments, s =>
    let (id, s) := assign id s
    let (identifier, s) := identifier.renumber assign s
    let (arguments, s) := TypeForm.renumberAll arguments s
    (.named id identifier arguments, s)
  | .function id result parameters, s =>
    let (id, s) := assign id s
    let (result, s) := result.renumber s
    let (parameters, s) := TypeForm.renumberAll parameters s
    (.function id result parameters, s)
  | .placeholder id, s =>
    let (id, s) := assign id s
    (.placeholder id, s)

/-- Renumbers a list of types. -/
def TypeForm.renumberAll : List TypeForm → σ → List TypeForm × σ
  | [], s => ([], s)
  | typeForm :: rest, s =>
    let (typeForm, s) := typeForm.renumber s
    let (rest, s) := TypeForm.renumberAll rest s
    (typeForm :: rest, s)

end

mutual

/-- Renumbers an expression, parents first. -/
def Expression.renumber : Expression → σ → Expression × σ
  | .binary id left right operator, s =>
    let (id, s) := assign id s
    let (left, s) := left.renumber s
    let (right, s) := right.renumber s
    (.binary id left right operator, s)
  | .identifier id used, s =>
    let (id, s) := assign id s
    let (used, s) := used.renumber assign s
    (.identifier id used, s)
  | .call id callee arguments, s =>
    let (id, s) := assign id s
    let (callee, s) := callee.renumber s
    let (arguments, s) := Argument.renumberAll arguments s
    (.call id callee arguments, s)
  | .literal id literal, s =>
    let (id, s) := assign id s
    let (literal, s) := literal.renumber s
    (.literal id literal, s)
  | .member id base name, s =>
    let (id, s) := assign id s
    let (base, s) := base.renumber s
    let (name, s) := name.renumber assign s
    (.member id base name, s)
  | .placeholder id, s =>
    let (id, s) := assign id s
    (.placeholder id, s)

/-- Renumbers an argument. -/
def Argument.renumber : Argument → σ → Argument × σ
  | .argument id label expression, s =>
    let (id, s) := assign id s
    let (expression, s) := expression.renumber s
    (.argument id label expression, s)
  | .placeholder id, s =>
    let (id, s) := assign id s
    (.placeholder id, s)

/-- Renumbers a literal. -/
def Literal.renumber : Literal → σ → Literal × σ
  | .none id, s =>
    let (id, s) := assign id s
    (.none id, s)
  | .boolean id value, s =>
    let (id, s) := assign id s
    (.boolean id value, s)
  | .number id value, s =>
    let (id, s) := assign id s
    (.number id value, s)
  | .string id value, s =>
    let (id, s) := assign id s
    (.string id value, s)
  | .color id value, s =>
    let (id, s) := assign id s
    (.color id value, s)
  | .array id items, s =>
    let (id, s) := assign id s
    let (items, s) := Expression.renumberAll items s
    (.array id items, s)

/-- Renumbers a list of expressions. -/
def Expression.renumberAll : List Expression → σ → List Expression × σ
  | [], s => ([], s)
  | expression :: rest, s =>
    let (expression, s) := expression.renumber s
    let (rest, s) := Expression.renumberAll rest s
    (expression :: rest, s)

/-- Renumbers a list of arguments. -/
def Argument.renumberAll : List Argument → σ → List Argument × σ
  | [], s => ([], s)
  | argument :: rest, s =>
    let (argument, s) := argument.renumber s
    let (rest, s) := Argument.renumberAll rest s
    (argument :: rest, s)

end

/-- Renumbers a list, one element after the other. -/
def renumberList (renumber : α → σ → α × σ) : List α → σ → List α × σ
  | [], s => ([], s)
  | a :: rest, s =>
    let (a, s) := renumber a s
    let (rest, s) := renumberList renumber rest s
    (a :: rest, s)

/-- Renumbers what is present. -/
def renumberOption (renumber : α → σ → α × σ) : Option α → σ → Option α × σ
  | none, s => (none, s)
  | some a, s =>
    let (a, s) := renumber a s
    (some a, s)

/-- Renumbers a parameter. -/
def Parameter.renumber : Parameter → σ → Parameter × σ
  | .parameter id externalName localName typeForm defaultValue, s =>
    let (id, s) := assign id s
    let (localName, s) := localName.renumber assign s
    let (typeForm, s) := typeForm.renumber assign s
    let (defaultValue, s) := renumberOption (Expression.renumber assign) defaultValue s
    (.parameter id externalName localName typeForm defaultValue, s)
  | .placeholder id, s =>
    let (id, s) := assign id s
    (.placeholder id, s)

/-- Renumbers a type parameter. -/
def GenericParameter.renumber : GenericParameter → σ → GenericParameter × σ
  | .parameter id name, s =>
    let (id, s) := assign id s
    let (name, s) := name.renumber assign s
    (.parameter id name, s)
  | .placeholder id, s =>
    let (id, s) := assign id s
    (.placeholder id, s)

/-- Renumbers a case. -/
def EnumerationCase.renumber : EnumerationCase → σ → EnumerationCase × σ
  | .case id name associatedTypes, s =>
    let (id, s) := assign id s
    let (name, s) := name.renumber assign s
    let (associatedTypes, s) := TypeForm.renumberAll assign associatedTypes s
    (.case id name associatedTypes, s)
  | .placeholder id, s =>
    let (id, s) := assign id s
    (.placeholder id, s)

mutual

/-- Renumbers a statement, parents first. -/
def Statement.renumber : Statement → σ → Statement × σ
  | .declaration id content, s =>
    let (id, s) := assign id s
    let (content, s) := content.renumber s
    (.declaration id content, s)
  | .branch id condition block, s =>
    let (id, s) := assign id s
    let (condition, s) := condition.renumber assign s
    let (block, s) := Statement.renumberAll block s
    (.branch id condition block, s)
  | .loop id pattern iterated block, s =>
    let (id, s) := assign id s
    let (pattern, s) := pattern.renumber assign s
    let (iterated, s) := iterated.renumber assign s
    let (block, s) := Statement.renumberAll block s
    (.loop id pattern iterated block, s)
  | .expression id expression, s =>
    let (id, s) := assign id s
    let (expression, s) := expression.renumber assign s
    (.expression id expression, s)
  | .result id expression, s =>
    let (id, s) := assign id s
    let (expression, s) := expression.renumber assign s
    (.result id expression, s)
  | .placeholder id, s =>
    let (id, s) := assign id s
    (.placeholder id, s)

/-- Renumbers a declaration, parents first. -/
def Declaration.renumber : Declaration → σ → Declaration × σ
  | .value id name typeForm initializer, s =>
    let (id, s) := assign id s
    let (name, s) := name.renumber assign s
    let (typeForm, s) := renumberOption (TypeForm.renumber assign) typeForm s
    let (initializer, s) := renumberOption (Expression.renumber assign) initializer s
    (.value id name typeForm initializer, s)
  | .function id name result generics parameters block, s =>
    let (id, s) := assign id s
    let (name, s) := name.renumber assign s
    let (result, s) := result.renumber assign s
    let (generics, s) := renumberList (GenericParameter.renumber assign) generics s
    let (parameters, s) := renumberList (Parameter.renumber assign) parameters s
    let (block, s) := Statement.renumberAll block s
    (.function id name result generics parameters block, s)
  | .enumeration id name generics cases, s =>
    let (id, s) := assign id s
    let (name, s) := name.renumber assign s
    let (generics, s) := renumberList (GenericParameter.renumber assign) generics s
    let (cases, s) := renumberList (EnumerationCase.renumber assign) cases s
    (.enumeration id name generics cases, s)
  | .record id name generics declarations, s =>
    let (id, s) := assign id s
    let (name, s) := name.renumber assign s
    let (generics, s) := renumberList (GenericParameter.renumber assign) generics s
    let (declarations, s) := Declaration.renumberAll declarations s
    (.record id name generics declarations, s)
  | .space id name declarations, s =>
    let (id, s) := assign id s
    let (name, s) := name.renumber assign s
    let (declarations, s) := Declaration.renumberAll declarations s
    (.space id name declarations, s)
  | .library id name, s =>
    let (id, s) := assign id s
    let (name, s) := name.renumber assign s
    (.library id name, s)
  | .placeholder id, s =>
    let (id, s) := assign id s
    (.placeholder id, s)

/-- Renumbers a block. -/
def Statement.renumberAll : List Statement → σ → List Statement × σ
  | [], s => ([], s)
  | statement :: rest, s =>
    let (statement, s) := statement.renumber s
    let (rest, s) := Statement.renumberAll rest s
    (statement :: rest, s)

/-- Renumbers a list of declarations. -/
def Declaration.renumberAll : List Declaration → σ → List Declaration × σ
  | [], s => ([], s)
  | declaration :: rest, s =>
    let (declaration, s) := declaration.renumber s
    let (rest, s) := Declaration.renumberAll rest s
    (declaration :: rest, s)

end

/-- Renumbers a program, its root first. -/
def Program.renumber (program : Program) (s : σ) : Program × σ :=
  let (id, s) := assign program.id s
  let (block, s) := Statement.renumberAll assign program.block s
  ({ id, block }, s)

/-- Renumbers a fragment. -/
def Fragment.renumber : Fragment → σ → Fragment × σ
  | .statement inner, s =>
    let (inner, s) := inner.renumber assign s
    (.statement inner, s)
  | .declaration inner, s =>
    let (inner, s) := inner.renumber assign s
    (.declaration inner, s)
  | .expression inner, s =>
    let (inner, s) := inner.renumber assign s
    (.expression inner, s)

end Renumber

/-- The next id of a supply, whatever the old id was. -/
def IdSupply.assign (_ : NodeId) (ids : IdSupply) : NodeId × IdSupply := ids.fresh

/-- Gives every node of a program a fresh id. -/
def Program.reidentify (program : Program) (ids : IdSupply) : Program × IdSupply :=
  program.renumber IdSupply.assign ids

/-- Gives every node of a fragment a fresh id. -/
def Fragment.reidentify (fragment : Fragment) (ids : IdSupply) : Fragment × IdSupply :=
  fragment.renumber IdSupply.assign ids

/-- Renames every id of a program. -/
def Program.mapIds (rename : NodeId → NodeId) (program : Program) : Program :=
  (program.renumber (fun id (_ : Unit) => (rename id, ())) ()).1

end TreeLang
