import Mathlib.Data.List.Nodup
import TreeLang.Tree.Outline

/-!
# Outlines of whole trees

An outline is faithful when every part of it is the outline of the node at its root. The outlines of
all syntax are faithful, so a proof about walks is one induction over outlines, with a case for each
sort of node where it matters.
-/

namespace TreeLang

namespace Outline

variable {item : Node} {children : List Outline} {outline : Outline}

/-- Induction on an outline with a hypothesis for each child. -/
@[elab_as_elim, induction_eliminator]
theorem induction {motive : Outline → Prop}
    (node : ∀ item children, (∀ c ∈ children, motive c) → motive (.node item children))
    (outline : Outline) : motive outline :=
  @Outline.rec motive (fun children => ∀ c ∈ children, motive c) node
    nofun (fun _ _ ih ihs => List.forall_mem_cons.2 ⟨ih, ihs⟩) outline

/-! ## Listings -/

/-- The nodes of several outlines are those of each. -/
theorem preorders_eq_flatMap (outlines : List Outline) :
    preorders outlines = outlines.flatMap preorder := by
  induction outlines with
  | nil => rfl
  | cons outline rest ih => rw [preorders, ih, List.flatMap_cons]

/-- The nodes of two lists of outlines are those of the one and of the other. -/
theorem preorders_append (first second : List Outline) :
    preorders (first ++ second) = preorders first ++ preorders second := by
  simp only [preorders_eq_flatMap, List.flatMap_append]

/-- An outline has a node at least. -/
theorem length_preorder_pos (outline : Outline) : 0 < outline.preorder.length := by
  cases outline
  exact Nat.succ_pos _

/-- The nodes of an outline are its root and those of its children. -/
theorem mem_preorder_node {n : Node} :
    n ∈ (node item children).preorder ↔ n = item ∨ ∃ c ∈ children, n ∈ c.preorder := by
  rw [preorder, preorders_eq_flatMap, List.mem_cons, List.mem_flatMap]

/-- The root of an outline is one of its nodes. -/
theorem item_mem_preorder (outline : Outline) : outline.item ∈ outline.preorder := by
  cases outline
  exact List.mem_cons_self

/-- What is at the root of a child is below the node. -/
theorem item_mem_preorder_of_mem {c : Outline} (hc : c ∈ children) :
    c.item ∈ (node item children).preorder :=
  mem_preorder_node.2 (.inr ⟨c, hc, c.item_mem_preorder⟩)

/-- The children of the node at the root of a faithful outline. -/
theorem children_of_root (root : item.outline = node item children) :
    item.outline.children = children := by
  rw [root]
  rfl

/-- The ids of an outline, each before the ids below it. -/
def ids (outline : Outline) : List NodeId := outline.preorder.map Node.id

/-- The ids of an outline are those of its nodes. -/
theorem mem_ids {id : NodeId} : id ∈ outline.ids ↔ ∃ n ∈ outline.preorder, n.id = id :=
  List.mem_map

/-- The ids of an outline are that of its root and those of its children. -/
theorem ids_node : (node item children).ids = item.id :: children.flatMap ids := by
  rw [ids, preorder, preorders_eq_flatMap, List.map_cons, List.map_flatMap]
  rfl

/-- Two nodes with one id are one node where the ids are distinct. -/
theorem eq_of_id_eq (distinct : outline.ids.Nodup) {m n : Node} (hm : m ∈ outline.preorder)
    (hn : n ∈ outline.preorder) (h : m.id = n.id) : m = n :=
  List.inj_on_of_nodup_map distinct hm hn h

/-- Every part of the outline is the outline of the node at its root. -/
inductive Faithful : Outline → Prop
  | node {item : Node} {children : List Outline} (root : item.outline = .node item children)
    (below : ∀ c ∈ children, Faithful c) : Faithful (.node item children)

/-- What is below a node of a faithful outline is in the outline. -/
theorem Faithful.preorder_subset (h : outline.Faithful) {n : Node} (hn : n ∈ outline.preorder) :
    n.outline.preorder ⊆ outline.preorder := by
  induction h with
  | @node item children root below ih =>
    rcases mem_preorder_node.1 hn with rfl | ⟨c, hc, hn⟩
    · rw [root]
      exact List.Subset.refl _
    · exact fun m hm => mem_preorder_node.2 (.inr ⟨c, hc, ih c hc hn hm⟩)

/-- In a faithful outline the ids of a node are among those of the whole. -/
theorem Faithful.ids_subset (h : outline.Faithful) {n : Node} (hn : n ∈ outline.preorder) :
    n.outline.ids ⊆ outline.ids := List.map_subset Node.id (h.preorder_subset hn)

end Outline

/-! ## Outlines of syntax -/

/-- The root of the outline of a pattern is the pattern. -/
@[simp] theorem Pattern.outline_item (pattern : Pattern) :
    pattern.outline.item = .pattern pattern := rfl

@[simp] theorem Identifier.outline_item (identifier : Identifier) :
    identifier.outline.item = .identifier identifier := rfl

/-- The root of the outline of a type is the type. -/
@[simp] theorem TypeForm.outline_item (form : TypeForm) : form.outline.item = .typeForm form := by
  cases form <;> rfl

/-- The root of the outline of an expression is the expression. -/
@[simp] theorem Expression.outline_item (expression : Expression) :
    expression.outline.item = .expression expression := by
  cases expression <;> rfl

/-- The root of the outline of an argument is the argument. -/
@[simp] theorem Argument.outline_item (argument : Argument) :
    argument.outline.item = .argument argument := by
  cases argument <;> rfl

/-- The root of the outline of a literal is the literal. -/
@[simp] theorem Literal.outline_item (literal : Literal) :
    literal.outline.item = .literal literal := by
  cases literal <;> rfl

/-- The root of the outline of a parameter is the parameter. -/
@[simp] theorem Parameter.outline_item (parameter : Parameter) :
    parameter.outline.item = .parameter parameter := by
  cases parameter <;> rfl

/-- The root of the outline of a generic parameter is the generic parameter. -/
@[simp] theorem GenericParameter.outline_item (generic : GenericParameter) :
    generic.outline.item = .generic generic := by
  cases generic <;> rfl

/-- The root of the outline of a case is the case. -/
@[simp] theorem EnumerationCase.outline_item (case : EnumerationCase) :
    case.outline.item = .case case := by
  cases case <;> rfl

/-- The root of the outline of a statement is the statement. -/
@[simp] theorem Statement.outline_item (statement : Statement) :
    statement.outline.item = .statement statement := by
  cases statement <;> rfl

/-- The root of the outline of a declaration is the declaration. -/
@[simp] theorem Declaration.outline_item (declaration : Declaration) :
    declaration.outline.item = .declaration declaration := by
  cases declaration <;> rfl

/-- Types have an outline each. -/
theorem TypeForm.outlines_eq_map (forms : List TypeForm) :
    TypeForm.outlines forms = forms.map TypeForm.outline := by
  induction forms with
  | nil => rfl
  | cons form rest ih => rw [TypeForm.outlines, ih, List.map_cons]

/-- Expressions have an outline each. -/
theorem Expression.outlines_eq_map (expressions : List Expression) :
    Expression.outlines expressions = expressions.map Expression.outline := by
  induction expressions with
  | nil => rfl
  | cons expression rest ih => rw [Expression.outlines, ih, List.map_cons]

/-- Arguments have an outline each. -/
theorem Argument.outlines_eq_map (arguments : List Argument) :
    Argument.outlines arguments = arguments.map Argument.outline := by
  induction arguments with
  | nil => rfl
  | cons argument rest ih => rw [Argument.outlines, ih, List.map_cons]

/-- Statements have an outline each. -/
theorem Statement.outlines_eq_map (block : List Statement) :
    Statement.outlines block = block.map Statement.outline := by
  induction block with
  | nil => rfl
  | cons statement rest ih => rw [Statement.outlines, ih, List.map_cons]

/-- The outlines of a block that is put together are those of its parts. -/
theorem Statement.outlines_append (first second : List Statement) :
    Statement.outlines (first ++ second) =
      Statement.outlines first ++ Statement.outlines second := by
  rw [outlines_eq_map, outlines_eq_map, outlines_eq_map, List.map_append]

/-- Declarations have an outline each. -/
theorem Declaration.outlines_eq_map (declarations : List Declaration) :
    Declaration.outlines declarations = declarations.map Declaration.outline := by
  induction declarations with
  | nil => rfl
  | cons declaration rest ih => rw [Declaration.outlines, ih, List.map_cons]

/-- An expression is one of the nodes of its outline. -/
theorem Expression.mem_preorder (expression : Expression) :
    .expression expression ∈ expression.outline.preorder := by
  have hmem := expression.outline.item_mem_preorder
  rwa [expression.outline_item] at hmem

/-! ## Faithfulness -/

open Outline (Faithful)

/-- There is nothing below a pattern, so its outline is faithful. -/
theorem Pattern.outline_faithful (pattern : Pattern) : pattern.outline.Faithful := .node rfl nofun

/-- There is nothing below an identifier, so its outline is faithful. -/
theorem Identifier.outline_faithful (identifier : Identifier) : identifier.outline.Faithful :=
  .node rfl nofun

mutual

/-- The outline of a type has the outlines of its parts below it. -/
theorem TypeForm.outline_faithful : (form : TypeForm) → form.outline.Faithful
  | .named _ identifier arguments =>
    .node rfl (List.forall_mem_cons.2
      ⟨identifier.outline_faithful, TypeForm.outlines_faithful arguments⟩)
  | .function _ result parameters =>
    .node rfl (List.forall_mem_cons.2
      ⟨result.outline_faithful, TypeForm.outlines_faithful parameters⟩)
  | .placeholder _ => .node rfl nofun

theorem TypeForm.outlines_faithful : (forms : List TypeForm) →
    ∀ c ∈ TypeForm.outlines forms, c.Faithful
  | [] => nofun
  | form :: rest =>
    List.forall_mem_cons.2 ⟨form.outline_faithful, TypeForm.outlines_faithful rest⟩

end

mutual

/-- The outline of an expression has the outlines of its parts below it. -/
theorem Expression.outline_faithful : (expression : Expression) → expression.outline.Faithful
  | .binary _ left right _ =>
    .node rfl (List.forall_mem_cons.2
      ⟨left.outline_faithful, List.forall_mem_singleton.2 right.outline_faithful⟩)
  | .identifier _ used => .node rfl (List.forall_mem_singleton.2 used.outline_faithful)
  | .call _ callee arguments =>
    .node rfl (List.forall_mem_cons.2
      ⟨callee.outline_faithful, Argument.outlines_faithful arguments⟩)
  | .literal _ literal => .node rfl (List.forall_mem_singleton.2 literal.outline_faithful)
  | .member _ base name =>
    .node rfl (List.forall_mem_cons.2
      ⟨base.outline_faithful, List.forall_mem_singleton.2 name.outline_faithful⟩)
  | .placeholder _ => .node rfl nofun

/-- The outline of an argument has that of its expression below it. -/
theorem Argument.outline_faithful : (argument : Argument) → argument.outline.Faithful
  | .argument _ _ expression =>
    .node rfl (List.forall_mem_singleton.2 expression.outline_faithful)
  | .placeholder _ => .node rfl nofun

/-- The outline of a literal has those of its items below it. -/
theorem Literal.outline_faithful : (literal : Literal) → literal.outline.Faithful
  | .array _ items => .node rfl (Expression.outlines_faithful items)
  | .none _ | .boolean _ _ | .number _ _ | .string _ _ | .color _ _ => .node rfl nofun

theorem Expression.outlines_faithful : (expressions : List Expression) →
    ∀ c ∈ Expression.outlines expressions, c.Faithful
  | [] => nofun
  | expression :: rest =>
    List.forall_mem_cons.2 ⟨expression.outline_faithful, Expression.outlines_faithful rest⟩

theorem Argument.outlines_faithful : (arguments : List Argument) →
    ∀ c ∈ Argument.outlines arguments, c.Faithful
  | [] => nofun
  | argument :: rest =>
    List.forall_mem_cons.2 ⟨argument.outline_faithful, Argument.outlines_faithful rest⟩

end

/-- The outline of a parameter has those of its pattern, its type and its default below it. -/
theorem Parameter.outline_faithful (parameter : Parameter) : parameter.outline.Faithful := by
  cases parameter with
  | placeholder id => exact .node rfl nofun
  | parameter id externalName localName form defaultValue =>
    refine .node rfl (List.forall_mem_cons.2 ⟨localName.outline_faithful,
      List.forall_mem_cons.2 ⟨form.outline_faithful, ?_⟩⟩)
    cases defaultValue with
    | none => nofun
    | some value => exact List.forall_mem_singleton.2 value.outline_faithful

/-- The outline of a generic parameter has that of its pattern below it. -/
theorem GenericParameter.outline_faithful (generic : GenericParameter) :
    generic.outline.Faithful := by
  cases generic with
  | placeholder id => exact .node rfl nofun
  | parameter id name => exact .node rfl (List.forall_mem_singleton.2 name.outline_faithful)

/-- The outline of a case has those of its pattern and its types below it. -/
theorem EnumerationCase.outline_faithful (case : EnumerationCase) : case.outline.Faithful := by
  cases case with
  | placeholder id => exact .node rfl nofun
  | case id name forms =>
    exact .node rfl (List.forall_mem_cons.2
      ⟨name.outline_faithful, TypeForm.outlines_faithful forms⟩)

mutual

/-- The outline of a statement has the outlines of its parts below it. -/
theorem Statement.outline_faithful : (statement : Statement) → statement.outline.Faithful
  | .declaration _ content => .node rfl (List.forall_mem_singleton.2 content.outline_faithful)
  | .branch _ condition block =>
    .node rfl (List.forall_mem_cons.2
      ⟨condition.outline_faithful, Statement.outlines_faithful block⟩)
  | .loop _ pattern iterated block =>
    .node rfl (List.forall_mem_cons.2 ⟨pattern.outline_faithful, List.forall_mem_cons.2
      ⟨iterated.outline_faithful, Statement.outlines_faithful block⟩⟩)
  | .expression _ expression =>
    .node rfl (List.forall_mem_singleton.2 expression.outline_faithful)
  | .result _ expression =>
    .node rfl (List.forall_mem_singleton.2 expression.outline_faithful)
  | .placeholder _ => .node rfl nofun

/-- The outline of a declaration has the outlines of its parts below it. -/
theorem Declaration.outline_faithful : (declaration : Declaration) →
    declaration.outline.Faithful
  -- the children are listed part by part, in the order in which the walk comes to them
  | .value _ name form initializer => by
    refine .node rfl (List.forall_mem_cons.2
      ⟨name.outline_faithful, List.forall_mem_append.2 ⟨?_, ?_⟩⟩)
    · cases form with
      | none => nofun
      | some form => exact List.forall_mem_singleton.2 form.outline_faithful
    · cases initializer with
      | none => nofun
      | some initializer => exact List.forall_mem_singleton.2 initializer.outline_faithful
  | .function _ name result generics parameters block =>
    .node rfl (List.forall_mem_cons.2 ⟨name.outline_faithful, List.forall_mem_cons.2
      ⟨result.outline_faithful, List.forall_mem_append.2
        ⟨List.forall_mem_map.2 fun generic _ => generic.outline_faithful,
          List.forall_mem_append.2
            ⟨List.forall_mem_map.2 fun parameter _ => parameter.outline_faithful,
              Statement.outlines_faithful block⟩⟩⟩⟩)
  | .enumeration _ name generics cases =>
    .node rfl (List.forall_mem_cons.2 ⟨name.outline_faithful, List.forall_mem_append.2
      ⟨List.forall_mem_map.2 fun generic _ => generic.outline_faithful,
        List.forall_mem_map.2 fun case _ => case.outline_faithful⟩⟩)
  | .record _ name generics declarations =>
    .node rfl (List.forall_mem_cons.2 ⟨name.outline_faithful, List.forall_mem_append.2
      ⟨List.forall_mem_map.2 fun generic _ => generic.outline_faithful,
        Declaration.outlines_faithful declarations⟩⟩)
  | .space _ name declarations =>
    .node rfl (List.forall_mem_cons.2
      ⟨name.outline_faithful, Declaration.outlines_faithful declarations⟩)
  | .library _ name => .node rfl (List.forall_mem_singleton.2 name.outline_faithful)
  | .placeholder _ => .node rfl nofun

/-- The outlines of a block are faithful. -/
theorem Statement.outlines_faithful : (block : List Statement) →
    ∀ c ∈ Statement.outlines block, c.Faithful
  | [] => nofun
  | statement :: rest =>
    List.forall_mem_cons.2 ⟨statement.outline_faithful, Statement.outlines_faithful rest⟩

theorem Declaration.outlines_faithful : (declarations : List Declaration) →
    ∀ c ∈ Declaration.outlines declarations, c.Faithful
  | [] => nofun
  | declaration :: rest =>
    List.forall_mem_cons.2 ⟨declaration.outline_faithful, Declaration.outlines_faithful rest⟩

end

/-- The outline of a program is faithful. -/
theorem Program.outline_faithful (program : Program) : program.outline.Faithful :=
  .node rfl (Statement.outlines_faithful program.block)

/-- The outline of any node is faithful. -/
theorem Node.outline_faithful (node : Node) : node.outline.Faithful := by
  cases node with
  | program p => exact p.outline_faithful
  | statement s => exact s.outline_faithful
  | declaration d => exact d.outline_faithful
  | expression e => exact e.outline_faithful
  | pattern p => exact p.outline_faithful
  | identifier i => exact i.outline_faithful
  | typeForm f => exact f.outline_faithful
  | literal l => exact l.outline_faithful
  | parameter p => exact p.outline_faithful
  | generic g => exact g.outline_faithful
  | case c => exact c.outline_faithful
  | argument a => exact a.outline_faithful

end TreeLang
