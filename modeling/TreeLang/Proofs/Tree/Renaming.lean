import TreeLang.Proofs.Tree.Outline
import TreeLang.Tree.Edit
import TreeLang.Tree.Walk

/-!
# Renaming ids

Renaming the ids of a program renames them at every node of its outline and changes nothing else. A
walk over the renamed outline makes the same turns, when its visitor does at the renamed nodes what
the other visitor does at the nodes themselves.
-/

namespace TreeLang

/-! ## Outlines -/

namespace Outline

mutual

/-- The outline with other nodes in the same places. -/
def mapNodes (f : Node → Node) : Outline → Outline
  | .node item children => .node (f item) (mapNodesAll f children)

/-- Several outlines with other nodes in the same places. -/
def mapNodesAll (f : Node → Node) : List Outline → List Outline
  | [] => []
  | outline :: rest => outline.mapNodes f :: mapNodesAll f rest

end

variable {f : Node → Node}

/-- Mapping the nodes of several outlines maps those of each. -/
theorem mapNodesAll_eq_map (outlines : List Outline) :
    mapNodesAll f outlines = outlines.map (mapNodes f) := by
  induction outlines with
  | nil => rfl
  | cons outline rest ih => rw [mapNodesAll, ih, List.map_cons]

/-- Nodes that are mapped twice are mapped at once. -/
theorem mapNodes_mapNodes {g : Node → Node} (outline : Outline) :
    (outline.mapNodes f).mapNodes g = outline.mapNodes (g ∘ f) := by
  induction outline with
  | node item children ih =>
    rw [mapNodes, mapNodes, mapNodes, mapNodesAll_eq_map, mapNodesAll_eq_map, mapNodesAll_eq_map,
      List.map_map]
    exact congrArg (node (g (f item))) (List.map_congr_left ih)

/-- The nodes of a mapped outline are the mapped nodes, in the same order. -/
theorem preorder_mapNodes (outline : Outline) :
    (outline.mapNodes f).preorder = outline.preorder.map f := by
  induction outline with
  | node item children ih =>
    rw [mapNodes, mapNodesAll_eq_map, preorder, preorder, preorders_eq_flatMap,
      preorders_eq_flatMap, List.map_cons, List.flatMap_map, List.map_flatMap]
    congr 1
    rw [List.flatMap_def, List.flatMap_def, List.map_congr_left ih]

end Outline

/-- The second visitor does at a mapped node, from a mapped state, what the first one does. -/
def Visitor.Maps (visit : Visitor σ) (visit' : Visitor τ) (f : Node → Node) (g : σ → τ) : Prop :=
  ∀ node control state, visit' (f node) control (g state) =
    ((visit node control state).1, g (visit node control state).2)

namespace Outline

variable {visit : Visitor σ} {visit' : Visitor τ} {f : Node → Node} {g : σ → τ}

mutual

/-- A walk over the mapped outline makes the same turns. -/
theorem walkPre_mapNodes (h : visit.Maps visit' f g) : (outline : Outline) → (control : Control) →
    (state : σ) → (outline.mapNodes f).walkPre visit' control (g state) =
      ((outline.walkPre visit control state).1, g (outline.walkPre visit control state).2)
  | .node item children, control, state => by
    have hchildren := walkPreAll_mapNodes h children
    have hitem := h item
    simp only [mapNodes, walkPre, hitem, hchildren]
    grind

/-- A walk over several mapped outlines does what a walk over these does, when the visitors agree on
mapped nodes. -/
theorem walkPreAll_mapNodes (h : visit.Maps visit' f g) : (outlines : List Outline) →
    (control : Control) → (state : σ) →
    walkPreAll visit' (mapNodesAll f outlines) control (g state) =
      ((walkPreAll visit outlines control state).1, g (walkPreAll visit outlines control state).2)
  | [], _, _ => rfl
  | outline :: rest, control, state => by
    simp only [mapNodesAll, walkPreAll, walkPre_mapNodes h outline, walkPreAll_mapNodes h rest]
    split <;> rfl

end

end Outline

/-! ## Syntax -/

/-- The renumbering that renames every id. -/
def renameId (ρ : NodeId → NodeId) (id : NodeId) (_ : Unit) : NodeId × Unit := (ρ id, ())

section Syntax

variable (ρ : NodeId → NodeId)

/-- Renames the id of a pattern. -/
def Pattern.mapIds (pattern : Pattern) : Pattern := { pattern with id := ρ pattern.id }

/-- Renames the id of an identifier. -/
def Identifier.mapIds (identifier : Identifier) : Identifier :=
  { identifier with id := ρ identifier.id }

/-- Renames every id of a type. -/
def TypeForm.mapIds (form : TypeForm) : TypeForm := (form.renumber (renameId ρ) ()).1

/-- Renames every id of an expression. -/
def Expression.mapIds (expression : Expression) : Expression :=
  (expression.renumber (renameId ρ) ()).1

/-- Renames every id of an argument. -/
def Argument.mapIds (argument : Argument) : Argument := (argument.renumber (renameId ρ) ()).1

/-- Renames every id of a literal. -/
def Literal.mapIds (literal : Literal) : Literal := (literal.renumber (renameId ρ) ()).1

/-- Renames every id of a parameter. -/
def Parameter.mapIds (parameter : Parameter) : Parameter :=
  (parameter.renumber (renameId ρ) ()).1

/-- Renames every id of a type parameter. -/
def GenericParameter.mapIds (generic : GenericParameter) : GenericParameter :=
  (generic.renumber (renameId ρ) ()).1

/-- Renames every id of a case. -/
def EnumerationCase.mapIds (case : EnumerationCase) : EnumerationCase :=
  (case.renumber (renameId ρ) ()).1

/-- Renames every id of a statement. -/
def Statement.mapIds (statement : Statement) : Statement :=
  (statement.renumber (renameId ρ) ()).1

/-- Renames every id of a declaration. -/
def Declaration.mapIds (declaration : Declaration) : Declaration :=
  (declaration.renumber (renameId ρ) ()).1

/-- Renames every id of what is at a node. -/
def Node.mapIds : Node → Node
  | .program p => .program (p.mapIds ρ)
  | .statement s => .statement (s.mapIds ρ)
  | .declaration d => .declaration (d.mapIds ρ)
  | .expression e => .expression (e.mapIds ρ)
  | .pattern p => .pattern (p.mapIds ρ)
  | .identifier i => .identifier (i.mapIds ρ)
  | .typeForm f => .typeForm (f.mapIds ρ)
  | .literal l => .literal (l.mapIds ρ)
  | .parameter p => .parameter (p.mapIds ρ)
  | .generic g => .generic (g.mapIds ρ)
  | .case c => .case (c.mapIds ρ)
  | .argument a => .argument (a.mapIds ρ)

/-! ### Lists -/

variable {ρ}

/-- Renumbering a list without a supply renumbers each item. -/
theorem renumberList_eq_map {α : Type} (renumber : α → Unit → α × Unit) (list : List α) :
    (renumberList renumber list ()).1 = list.map fun a => (renumber a ()).1 := by
  induction list with
  | nil => rfl
  | cons a rest ih => exact congrArg _ ih

/-- Types are renamed one by one. -/
theorem TypeForm.renumberAll_eq_map (forms : List TypeForm) :
    (TypeForm.renumberAll (renameId ρ) forms ()).1 = forms.map (mapIds ρ) := by
  induction forms with
  | nil => rfl
  | cons form rest ih => exact congrArg (form.mapIds ρ :: ·) ih

/-- Expressions are renamed one by one. -/
theorem Expression.renumberAll_eq_map (expressions : List Expression) :
    (Expression.renumberAll (renameId ρ) expressions ()).1 = expressions.map (mapIds ρ) := by
  induction expressions with
  | nil => rfl
  | cons expression rest ih => exact congrArg (expression.mapIds ρ :: ·) ih

/-- Arguments are renamed one by one. -/
theorem Argument.renumberAll_eq_map (arguments : List Argument) :
    (Argument.renumberAll (renameId ρ) arguments ()).1 = arguments.map (mapIds ρ) := by
  induction arguments with
  | nil => rfl
  | cons argument rest ih => exact congrArg (argument.mapIds ρ :: ·) ih

/-- Statements are renamed one by one. -/
theorem Statement.renumberAll_eq_map (block : List Statement) :
    (Statement.renumberAll (renameId ρ) block ()).1 = block.map (mapIds ρ) := by
  induction block with
  | nil => rfl
  | cons statement rest ih => exact congrArg (statement.mapIds ρ :: ·) ih

/-- Declarations are renamed one by one. -/
theorem Declaration.renumberAll_eq_map (declarations : List Declaration) :
    (Declaration.renumberAll (renameId ρ) declarations ()).1 = declarations.map (mapIds ρ) := by
  induction declarations with
  | nil => rfl
  | cons declaration rest ih => exact congrArg (declaration.mapIds ρ :: ·) ih

/-- Renumbering an option without a supply renumbers its content. -/
theorem renumberOption_eq_map {α : Type} (renumber : α → Unit → α × Unit) (option : Option α) :
    (renumberOption renumber option ()).1 = option.map fun a => (renumber a ()).1 := by
  cases option <;> rfl

/-! ### Each sort of syntax -/

/-- A type with a name is renamed with its identifier and its arguments. -/
@[simp] theorem TypeForm.mapIds_named (id : NodeId) (identifier : Identifier)
    (arguments : List TypeForm) :
    (TypeForm.named id identifier arguments).mapIds ρ =
      .named (ρ id) (identifier.mapIds ρ) (arguments.map (mapIds ρ)) :=
  congrArg (TypeForm.named (ρ id) (identifier.mapIds ρ)) (renumberAll_eq_map arguments)

/-- A function type is renamed with its result and its parameters. -/
@[simp] theorem TypeForm.mapIds_function (id : NodeId) (result : TypeForm)
    (parameters : List TypeForm) :
    (TypeForm.function id result parameters).mapIds ρ =
      .function (ρ id) (result.mapIds ρ) (parameters.map (mapIds ρ)) :=
  congrArg (TypeForm.function (ρ id) (result.mapIds ρ)) (renumberAll_eq_map parameters)

/-- An operator is renamed with its operands. -/
@[simp] theorem Expression.mapIds_binary (id : NodeId) (left right : Expression)
    (operator : Operator) :
    (Expression.binary id left right operator).mapIds ρ =
      .binary (ρ id) (left.mapIds ρ) (right.mapIds ρ) operator := rfl

/-- A name that is used is renamed with its identifier. -/
@[simp] theorem Expression.mapIds_identifier (id : NodeId) (used : Identifier) :
    (Expression.identifier id used).mapIds ρ = .identifier (ρ id) (used.mapIds ρ) := rfl

/-- A call is renamed with its callee and its arguments. -/
@[simp] theorem Expression.mapIds_call (id : NodeId) (callee : Expression)
    (arguments : List Argument) :
    (Expression.call id callee arguments).mapIds ρ =
      .call (ρ id) (callee.mapIds ρ) (arguments.map (Argument.mapIds ρ)) :=
  congrArg (Expression.call (ρ id) (callee.mapIds ρ)) (Argument.renumberAll_eq_map arguments)

/-- A literal is renamed as an expression and as a literal. -/
@[simp] theorem Expression.mapIds_literal (id : NodeId) (literal : Literal) :
    (Expression.literal id literal).mapIds ρ = .literal (ρ id) (literal.mapIds ρ) := rfl

/-- A member is renamed with its base and its name. -/
@[simp] theorem Expression.mapIds_member (id : NodeId) (base : Expression) (name : Identifier) :
    (Expression.member id base name).mapIds ρ =
      .member (ρ id) (base.mapIds ρ) (name.mapIds ρ) := rfl

/-- A placeholder has nothing but its id to rename. -/
@[simp] theorem Expression.mapIds_placeholder (id : NodeId) :
    (Expression.placeholder id).mapIds ρ = .placeholder (ρ id) := rfl

/-- An argument is renamed with its expression and keeps its label. -/
@[simp] theorem Argument.mapIds_argument (id : NodeId) (label : Option String)
    (expression : Expression) :
    (Argument.argument id label expression).mapIds ρ =
      .argument (ρ id) label (expression.mapIds ρ) := rfl

/-- An array is renamed with its items. -/
@[simp] theorem Literal.mapIds_array (id : NodeId) (items : List Expression) :
    (Literal.array id items).mapIds ρ = .array (ρ id) (items.map (Expression.mapIds ρ)) :=
  congrArg (Literal.array (ρ id)) (Expression.renumberAll_eq_map items)

/-- A parameter is renamed with its pattern, its type and its default, and keeps its label. -/
@[simp] theorem Parameter.mapIds_parameter (id : NodeId) (externalName : Option String)
    (localName : Pattern) (form : TypeForm) (defaultValue : Option Expression) :
    (Parameter.parameter id externalName localName form defaultValue).mapIds ρ =
      .parameter (ρ id) externalName (localName.mapIds ρ) (form.mapIds ρ)
        (defaultValue.map (Expression.mapIds ρ)) :=
  congrArg (Parameter.parameter (ρ id) externalName (localName.mapIds ρ) (form.mapIds ρ))
    (renumberOption_eq_map _ defaultValue)

/-- A case is renamed with its pattern and its types. -/
@[simp] theorem EnumerationCase.mapIds_case (id : NodeId) (name : Pattern)
    (forms : List TypeForm) :
    (EnumerationCase.case id name forms).mapIds ρ =
      .case (ρ id) (name.mapIds ρ) (forms.map (TypeForm.mapIds ρ)) :=
  congrArg (EnumerationCase.case (ρ id) (name.mapIds ρ)) (TypeForm.renumberAll_eq_map forms)

/-- A declaration is renamed as a statement and as a declaration. -/
@[simp] theorem Statement.mapIds_declaration (id : NodeId) (content : Declaration) :
    (Statement.declaration id content).mapIds ρ = .declaration (ρ id) (content.mapIds ρ) := rfl

/-- A branch is renamed with its condition and its block. -/
@[simp] theorem Statement.mapIds_branch (id : NodeId) (condition : Expression)
    (block : List Statement) :
    (Statement.branch id condition block).mapIds ρ =
      .branch (ρ id) (condition.mapIds ρ) (block.map (mapIds ρ)) :=
  congrArg (Statement.branch (ρ id) (condition.mapIds ρ)) (renumberAll_eq_map block)

/-- A loop is renamed with its pattern, what it iterates over and its block. -/
@[simp] theorem Statement.mapIds_loop (id : NodeId) (pattern : Pattern) (iterated : Expression)
    (block : List Statement) :
    (Statement.loop id pattern iterated block).mapIds ρ =
      .loop (ρ id) (pattern.mapIds ρ) (iterated.mapIds ρ) (block.map (mapIds ρ)) :=
  congrArg (Statement.loop (ρ id) (pattern.mapIds ρ) (iterated.mapIds ρ))
    (renumberAll_eq_map block)

/-- An expression is renamed as a statement and as an expression. -/
@[simp] theorem Statement.mapIds_expression (id : NodeId) (expression : Expression) :
    (Statement.expression id expression).mapIds ρ = .expression (ρ id) (expression.mapIds ρ) :=
  rfl

/-- A result is renamed with its expression. -/
@[simp] theorem Statement.mapIds_result (id : NodeId) (expression : Expression) :
    (Statement.result id expression).mapIds ρ = .result (ρ id) (expression.mapIds ρ) := rfl

/-- A variable is renamed with its pattern, its type and its initializer. -/
@[simp] theorem Declaration.mapIds_value (id : NodeId) (name : Pattern) (form : Option TypeForm)
    (initializer : Option Expression) :
    (Declaration.value id name form initializer).mapIds ρ =
      .value (ρ id) (name.mapIds ρ) (form.map (TypeForm.mapIds ρ))
        (initializer.map (Expression.mapIds ρ)) := by
  cases form <;> cases initializer <;> rfl

/-- A function is renamed with all its parts. -/
@[simp] theorem Declaration.mapIds_function (id : NodeId) (name : Pattern) (result : TypeForm)
    (generics : List GenericParameter) (parameters : List Parameter) (block : List Statement) :
    (Declaration.function id name result generics parameters block).mapIds ρ =
      .function (ρ id) (name.mapIds ρ) (result.mapIds ρ)
        (generics.map (GenericParameter.mapIds ρ)) (parameters.map (Parameter.mapIds ρ))
        (block.map (Statement.mapIds ρ)) := by
  rw [← Statement.renumberAll_eq_map block]
  exact congrArg₂ (fun generics parameters => Declaration.function (ρ id) (name.mapIds ρ)
      (result.mapIds ρ) generics parameters (Statement.renumberAll (renameId ρ) block ()).1)
    (renumberList_eq_map _ generics) (renumberList_eq_map _ parameters)

/-- An enumeration is renamed with all its parts. -/
@[simp] theorem Declaration.mapIds_enumeration (id : NodeId) (name : Pattern)
    (generics : List GenericParameter) (cases : List EnumerationCase) :
    (Declaration.enumeration id name generics cases).mapIds ρ =
      .enumeration (ρ id) (name.mapIds ρ) (generics.map (GenericParameter.mapIds ρ))
        (cases.map (EnumerationCase.mapIds ρ)) :=
  congrArg₂ (Declaration.enumeration (ρ id) (name.mapIds ρ)) (renumberList_eq_map _ generics)
    (renumberList_eq_map _ cases)

/-- A record is renamed with all its parts. -/
@[simp] theorem Declaration.mapIds_record (id : NodeId) (name : Pattern)
    (generics : List GenericParameter) (declarations : List Declaration) :
    (Declaration.record id name generics declarations).mapIds ρ =
      .record (ρ id) (name.mapIds ρ) (generics.map (GenericParameter.mapIds ρ))
        (declarations.map (mapIds ρ)) :=
  congrArg₂ (Declaration.record (ρ id) (name.mapIds ρ)) (renumberList_eq_map _ generics)
    (renumberAll_eq_map declarations)

/-- A namespace is renamed with its pattern and its declarations. -/
@[simp] theorem Declaration.mapIds_space (id : NodeId) (name : Pattern)
    (declarations : List Declaration) :
    (Declaration.space id name declarations).mapIds ρ =
      .space (ρ id) (name.mapIds ρ) (declarations.map (mapIds ρ)) :=
  congrArg (Declaration.space (ρ id) (name.mapIds ρ)) (renumberAll_eq_map declarations)

/-- A program is renamed with its block. -/
theorem Program.mapIds_eq (program : Program) :
    program.mapIds ρ = ⟨ρ program.id, program.block.map (Statement.mapIds ρ)⟩ :=
  congrArg (Program.mk (ρ program.id)) (Statement.renumberAll_eq_map program.block)

/-! ### What is read off a node -/

/-- A renamed expression has the renamed id. -/
@[simp] theorem Expression.id_mapIds (expression : Expression) :
    (expression.mapIds ρ).id = ρ expression.id := by
  cases expression <;> rfl

/-- A renamed literal has the renamed id. -/
@[simp] theorem Literal.id_mapIds (literal : Literal) : (literal.mapIds ρ).id = ρ literal.id := by
  cases literal <;> rfl

/-- A renamed node has the renamed id. -/
@[simp] theorem Node.id_mapIds (node : Node) : (node.mapIds ρ).id = ρ node.id := by
  cases node with
  | program | pattern | identifier => rfl
  | statement s => cases s <;> rfl
  | declaration d => cases d <;> rfl
  | expression e => exact e.id_mapIds
  | typeForm f => cases f <;> rfl
  | literal l => exact l.id_mapIds
  | parameter p => cases p <;> rfl
  | generic g => cases g <;> rfl
  | case c => cases c <;> rfl
  | argument a => cases a <;> rfl

/-- A renamed pattern has the renamed id. -/
@[simp] theorem Pattern.id_mapIds (pattern : Pattern) : (pattern.mapIds ρ).id = ρ pattern.id := rfl

/-- A renamed pattern has the same name. -/
@[simp] theorem Pattern.name_mapIds (pattern : Pattern) : (pattern.mapIds ρ).name = pattern.name :=
  rfl

/-- A renamed identifier has the renamed id. -/
@[simp] theorem Identifier.id_mapIds (used : Identifier) : (used.mapIds ρ).id = ρ used.id := rfl

/-- A renamed identifier has the same name. -/
@[simp] theorem Identifier.name_mapIds (used : Identifier) : (used.mapIds ρ).name = used.name :=
  rfl

/-- Whether an identifier is a placeholder does not depend on its id. -/
@[simp] theorem Identifier.isPlaceholder_mapIds (used : Identifier) :
    (used.mapIds ρ).isPlaceholder = used.isPlaceholder := rfl

/-- Whether a type is a placeholder does not depend on its id. -/
@[simp] theorem TypeForm.isPlaceholder_mapIds (form : TypeForm) :
    (form.mapIds ρ).isPlaceholder = form.isPlaceholder := by
  cases form <;> rfl

/-- The path of a member consists of names, so it does not depend on ids. -/
@[simp] theorem Expression.memberPath_mapIds : (expression : Expression) →
    (expression.mapIds ρ).memberPath = expression.memberPath
  | .member id base name => by
    rw [mapIds_member, memberPath, memberPath_mapIds base]
    rfl
  | .identifier _ _ | .binary _ _ _ _ | .call _ _ _ | .literal _ _ | .placeholder _ => rfl

/-- A renamed parameter has the same label. -/
@[simp] theorem Parameter.label_mapIds (parameter : Parameter) :
    (parameter.mapIds ρ).label = parameter.label := by
  cases parameter <;> rfl

/-- Renamed generic parameters have the renamed patterns. -/
theorem GenericParameter.filterMap_pattern_mapIds (generics : List GenericParameter) :
    (generics.map (mapIds ρ)).filterMap pattern =
      (generics.filterMap pattern).map (Pattern.mapIds ρ) := by
  rw [List.filterMap_map, List.map_filterMap]
  congr 1
  funext generic
  cases generic <;> rfl

/-- The generic parameters of a renamed declaration have the renamed patterns. -/
@[simp] theorem Declaration.genericPatterns_mapIds (d : Declaration) :
    (d.mapIds ρ).genericPatterns = d.genericPatterns.map (Pattern.mapIds ρ) := by
  cases d with
  | function | enumeration | record =>
    simp only [mapIds_function, mapIds_enumeration, mapIds_record, genericPatterns,
      GenericParameter.filterMap_pattern_mapIds]
  | value | space | library | placeholder => rfl

/-! ### Outlines -/

section Outlines

open Outline (mapNodes mapNodesAll)

/-- Nodes of two lists of outlines are mapped in each. -/
theorem mapNodesAll_append {f : Node → Node} (first second : List Outline) :
    mapNodesAll f (first ++ second) = mapNodesAll f first ++ mapNodesAll f second := by
  simp only [Outline.mapNodesAll_eq_map, List.map_append]

/-- Several outlines of trees with renamed ids. -/
theorem map_outline_mapIds {α : Type} {outline : α → Outline} {rename : α → α}
    (h : ∀ a, outline (rename a) = (outline a).mapNodes (Node.mapIds ρ)) (list : List α) :
    (list.map rename).map outline = mapNodesAll (Node.mapIds ρ) (list.map outline) := by
  rw [Outline.mapNodesAll_eq_map, List.map_map, List.map_map]
  exact List.map_congr_left fun a _ => h a

/-- The outline of what is there of a tree with renamed ids. -/
theorem toList_outline_mapIds {α : Type} {outline : α → Outline} {rename : α → α}
    (h : ∀ a, outline (rename a) = (outline a).mapNodes (Node.mapIds ρ)) (option : Option α) :
    ((option.map rename).map outline).toList =
      mapNodesAll (Node.mapIds ρ) (option.map outline).toList := by
  cases option with
  | none => rfl
  | some a => exact congrArg (fun outline => [outline]) (h a)

mutual

/-- The outline of a renamed type has the renamed nodes. -/
theorem TypeForm.outline_mapIds : (form : TypeForm) →
    (form.mapIds ρ).outline = form.outline.mapNodes (Node.mapIds ρ)
  | .named id identifier arguments => by
    simp only [mapIds_named, outline, mapNodes, mapNodesAll, Node.mapIds,
      TypeForm.outlines_mapIds arguments]
    rfl
  | .function id result parameters => by
    simp only [mapIds_function, outline, mapNodes, mapNodesAll, Node.mapIds,
      TypeForm.outlines_mapIds parameters, TypeForm.outline_mapIds result]
  | .placeholder _ => rfl

theorem TypeForm.outlines_mapIds : (forms : List TypeForm) →
    TypeForm.outlines (forms.map (TypeForm.mapIds ρ)) =
      mapNodesAll (Node.mapIds ρ) (TypeForm.outlines forms)
  | [] => rfl
  | form :: rest => by
    rw [List.map_cons, outlines, outlines, mapNodesAll, TypeForm.outline_mapIds form,
      TypeForm.outlines_mapIds rest]

end

mutual

/-- The outline of a renamed expression has the renamed nodes. -/
theorem Expression.outline_mapIds : (expression : Expression) →
    (expression.mapIds ρ).outline = expression.outline.mapNodes (Node.mapIds ρ)
  | .binary id left right operator => by
    simp only [Expression.mapIds_binary, Expression.outline, mapNodes, mapNodesAll, Node.mapIds,
      Expression.outline_mapIds left, Expression.outline_mapIds right]
  | .identifier id used => rfl
  | .call id callee arguments => by
    simp only [Expression.mapIds_call, Expression.outline, mapNodes, mapNodesAll, Node.mapIds,
      Expression.outline_mapIds callee, Argument.outlines_mapIds arguments]
  | .literal id literal => by
    simp only [Expression.mapIds_literal, Expression.outline, mapNodes, mapNodesAll, Node.mapIds,
      Literal.outline_mapIds literal]
  | .member id base name => by
    simp only [Expression.mapIds_member, Expression.outline, mapNodes, mapNodesAll, Node.mapIds,
      Expression.outline_mapIds base]
    rfl
  | .placeholder _ => rfl

/-- The outline of a renamed argument has the renamed nodes. -/
theorem Argument.outline_mapIds : (argument : Argument) →
    (argument.mapIds ρ).outline = argument.outline.mapNodes (Node.mapIds ρ)
  | .argument id label expression => by
    simp only [Argument.mapIds_argument, Argument.outline, mapNodes, mapNodesAll, Node.mapIds,
      Expression.outline_mapIds expression]
  | .placeholder _ => rfl

/-- The outline of a renamed literal has the renamed nodes. -/
theorem Literal.outline_mapIds : (literal : Literal) →
    (literal.mapIds ρ).outline = literal.outline.mapNodes (Node.mapIds ρ)
  | .array id items => by
    simp only [Literal.mapIds_array, Literal.outline, mapNodes, Node.mapIds,
      Expression.outlines_mapIds items]
  | .none _ | .boolean _ _ | .number _ _ | .string _ _ | .color _ _ => rfl

/-- The outlines of renamed expressions have the renamed nodes. -/
theorem Expression.outlines_mapIds : (expressions : List Expression) →
    Expression.outlines (expressions.map (Expression.mapIds ρ)) =
      mapNodesAll (Node.mapIds ρ) (Expression.outlines expressions)
  | [] => rfl
  | expression :: rest => by
    rw [List.map_cons, Expression.outlines, Expression.outlines, mapNodesAll,
      Expression.outline_mapIds expression, Expression.outlines_mapIds rest]

theorem Argument.outlines_mapIds : (arguments : List Argument) →
    Argument.outlines (arguments.map (Argument.mapIds ρ)) =
      mapNodesAll (Node.mapIds ρ) (Argument.outlines arguments)
  | [] => rfl
  | argument :: rest => by
    rw [List.map_cons, Argument.outlines, Argument.outlines, mapNodesAll,
      Argument.outline_mapIds argument, Argument.outlines_mapIds rest]

end

/-- The outline of a renamed parameter has the renamed nodes. -/
theorem Parameter.outline_mapIds (parameter : Parameter) :
    (parameter.mapIds ρ).outline = parameter.outline.mapNodes (Node.mapIds ρ) := by
  cases parameter with
  | placeholder id => rfl
  | parameter id externalName localName form defaultValue =>
    simp only [Parameter.mapIds_parameter, Parameter.outline, mapNodes, mapNodesAll, Node.mapIds,
      TypeForm.outline_mapIds form, toList_outline_mapIds Expression.outline_mapIds defaultValue]
    rfl

/-- The outline of a renamed generic parameter has the renamed nodes. -/
theorem GenericParameter.outline_mapIds (generic : GenericParameter) :
    (generic.mapIds ρ).outline = generic.outline.mapNodes (Node.mapIds ρ) := by
  cases generic <;> rfl

/-- The outline of a renamed case has the renamed nodes. -/
theorem EnumerationCase.outline_mapIds (case : EnumerationCase) :
    (case.mapIds ρ).outline = case.outline.mapNodes (Node.mapIds ρ) := by
  cases case with
  | placeholder id => rfl
  | case id name forms =>
    simp only [EnumerationCase.mapIds_case, EnumerationCase.outline, mapNodes, mapNodesAll,
      Node.mapIds, TypeForm.outlines_mapIds forms]
    rfl

mutual

/-- The outline of a renamed statement has the renamed nodes. -/
theorem Statement.outline_mapIds : (statement : Statement) →
    (statement.mapIds ρ).outline = statement.outline.mapNodes (Node.mapIds ρ)
  | .declaration id content => by
    simp only [Statement.mapIds_declaration, Statement.outline, mapNodes, mapNodesAll, Node.mapIds,
      Declaration.outline_mapIds content]
  | .branch id condition block => by
    simp only [Statement.mapIds_branch, Statement.outline, mapNodes, mapNodesAll, Node.mapIds,
      Expression.outline_mapIds condition, Statement.outlines_mapIds block]
  | .loop id pattern iterated block => by
    simp only [Statement.mapIds_loop, Statement.outline, mapNodes, mapNodesAll, Node.mapIds,
      Expression.outline_mapIds iterated, Statement.outlines_mapIds block]
    rfl
  | .expression id expression => by
    simp only [Statement.mapIds_expression, Statement.outline, mapNodes, mapNodesAll, Node.mapIds,
      Expression.outline_mapIds expression]
  | .result id expression => by
    simp only [Statement.mapIds_result, Statement.outline, mapNodes, mapNodesAll, Node.mapIds,
      Expression.outline_mapIds expression]
  | .placeholder _ => rfl

/-- The outline of a renamed declaration has the renamed nodes. -/
theorem Declaration.outline_mapIds : (d : Declaration) →
    (d.mapIds ρ).outline = d.outline.mapNodes (Node.mapIds ρ)
  -- both sides go through the parts in the same order, and meet at their own lemmas
  | .value id name form initializer => by
    simp only [Declaration.mapIds_value, Declaration.outline, mapNodes, mapNodesAll, Node.mapIds,
      mapNodesAll_append, toList_outline_mapIds TypeForm.outline_mapIds form,
      toList_outline_mapIds Expression.outline_mapIds initializer]
    rfl
  | .function id name result generics parameters block => by
    simp only [Declaration.mapIds_function, Declaration.outline, mapNodes, mapNodesAll,
      Node.mapIds, mapNodesAll_append, TypeForm.outline_mapIds result,
      map_outline_mapIds GenericParameter.outline_mapIds generics,
      map_outline_mapIds Parameter.outline_mapIds parameters, Statement.outlines_mapIds block]
    rfl
  | .enumeration id name generics cases => by
    simp only [Declaration.mapIds_enumeration, Declaration.outline, mapNodes, mapNodesAll,
      Node.mapIds, mapNodesAll_append, map_outline_mapIds GenericParameter.outline_mapIds generics,
      map_outline_mapIds EnumerationCase.outline_mapIds cases]
    rfl
  | .record id name generics declarations => by
    simp only [Declaration.mapIds_record, Declaration.outline, mapNodes, mapNodesAll, Node.mapIds,
      mapNodesAll_append, map_outline_mapIds GenericParameter.outline_mapIds generics,
      Declaration.outlines_mapIds declarations]
    rfl
  | .space id name declarations => by
    simp only [Declaration.mapIds_space, Declaration.outline, mapNodes, mapNodesAll, Node.mapIds,
      Declaration.outlines_mapIds declarations]
    rfl
  | .library _ _ | .placeholder _ => rfl

/-- The outlines of a renamed block have the renamed nodes. -/
theorem Statement.outlines_mapIds : (block : List Statement) →
    Statement.outlines (block.map (Statement.mapIds ρ)) =
      mapNodesAll (Node.mapIds ρ) (Statement.outlines block)
  | [] => rfl
  | statement :: rest => by
    rw [List.map_cons, Statement.outlines, Statement.outlines, mapNodesAll,
      Statement.outline_mapIds statement, Statement.outlines_mapIds rest]

theorem Declaration.outlines_mapIds : (declarations : List Declaration) →
    Declaration.outlines (declarations.map (Declaration.mapIds ρ)) =
      mapNodesAll (Node.mapIds ρ) (Declaration.outlines declarations)
  | [] => rfl
  | d :: rest => by
    rw [List.map_cons, Declaration.outlines, Declaration.outlines, mapNodesAll,
      Declaration.outline_mapIds d, Declaration.outlines_mapIds rest]

end

/-- The outline of a program with renamed ids has renamed ids in the same places. -/
theorem Program.outline_mapIds (program : Program) :
    (program.mapIds ρ).outline = program.outline.mapNodes (Node.mapIds ρ) := by
  rw [outline, outline, mapNodes, Node.mapIds, ← Statement.outlines_mapIds, mapIds_eq]

end Outlines

/-- A renamed program has the renamed ids, in the same order. -/
theorem Program.ids_mapIds (program : Program) :
    (program.mapIds ρ).outline.ids = program.outline.ids.map ρ := by
  rw [Outline.ids, Outline.ids, outline_mapIds, Outline.preorder_mapNodes, List.map_map,
    List.map_map]
  exact List.map_congr_left fun node _ => node.id_mapIds

/-- A renamed program has as many nodes. -/
theorem Program.nodeCount_mapIds (program : Program) :
    (program.mapIds ρ).nodeCount = program.nodeCount := by
  rw [nodeCount, nodes, outline_mapIds, Outline.preorder_mapNodes, List.length_map]
  rfl

/-- A walk over a program with renamed ids makes the same turns. -/
theorem Program.walk_mapIds {visit : Visitor σ} {visit' : Visitor τ} {g : σ → τ}
    (h : visit.Maps visit' (Node.mapIds ρ) g) (program : Program) (state : σ) :
    (program.mapIds ρ).walk visit' (g state) = g (program.walk visit state) := by
  rw [walk, outline_mapIds]
  exact congrArg Prod.snd (Outline.walkPre_mapNodes h program.outline {} state)

end Syntax

end TreeLang
