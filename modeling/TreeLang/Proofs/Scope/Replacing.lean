import TreeLang.Proofs.Scope.Simulation
import TreeLang.Proofs.Tree.Replacing
import TreeLang.Tree.Edit

/-!
# Replacing an expression under name resolution

Name resolution reads of a node its own names and, at a member access, the path that it spells. A
program in which an expression is replaced that is no base of a member access therefore looks the
same to it everywhere else.
-/

namespace TreeLang

open Outline (Placed)
open Resolver (visitAll)

/-- Whether a node is an expression. -/
def Node.isExpression : Node → Bool
  | .expression _ => true
  | _ => false

/-- The base of a member access. -/
def Node.base? : Node → Option Expression
  | .expression (.member _ base _) => some base
  | _ => none

/-- The base of a member is one of its nodes. -/
theorem Node.mem_preorder_of_base? {node : Node} {base : Expression} (h : node.base? = some base) :
    .expression base ∈ node.outline.preorder := by
  unfold Node.base? at h
  split at h
  · cases h
    exact Outline.mem_preorder_node.2 (.inr ⟨_, List.mem_cons_self, base.mem_preorder⟩)
  · cases h

/-- A target that is the id of expressions only, and of no base of a member access. -/
structure Outline.Replaceable (target : NodeId) (outline : Outline) : Prop where
  expression : ∀ node ∈ outline.preorder, node.id = target → node.isExpression
  base : ∀ node ∈ outline.preorder, ∀ base, node.base? = some base → base.id ≠ target

namespace Outline.Replaceable

variable {target : NodeId} {item : Node} {children : List Outline}

/-- What can be replaced in an outline can be replaced in its children. -/
theorem below (h : Replaceable target (node item children)) :
    ∀ c ∈ children, Replaceable target c := fun c hc =>
  ⟨fun n hn => h.expression n (mem_preorder_node.2 (.inr ⟨c, hc, hn⟩)),
    fun n hn => h.base n (mem_preorder_node.2 (.inr ⟨c, hc, hn⟩))⟩

/-- Only an expression has the id. -/
theorem id_ne (h : Replaceable target (node item children)) (hitem : item.isExpression = false) :
    item.id ≠ target := fun heq =>
  Bool.eq_false_iff.1 hitem (h.expression item (mem_preorder_node.2 (.inl rfl)) heq)

end Outline.Replaceable

open Outline (Replaceable)

variable {target : NodeId} {new : Expression}

/-! ## Syntax without expressions -/

section Same

variable {outline : Outline}

/-- There is no expression in a pattern, so nothing is replaced in it. -/
theorem Pattern.placed (pattern : Pattern) (h : Replaceable target pattern.outline) :
    Placed visitAll target outline pattern.outline pattern.outline :=
  .node (h.id_ne rfl) rfl .nil

/-- There is no expression in an identifier. -/
theorem Identifier.placed (identifier : Identifier) (h : Replaceable target identifier.outline) :
    Placed visitAll target outline identifier.outline identifier.outline :=
  .node (h.id_ne rfl) rfl .nil

mutual

/-- There is no expression in a type. -/
theorem TypeForm.placed : (form : TypeForm) → Replaceable target form.outline →
    Placed visitAll target outline form.outline form.outline
  | .named _ identifier arguments, h => by
    obtain ⟨hidentifier, harguments⟩ := List.forall_mem_cons.1 h.below
    exact .node (h.id_ne rfl) rfl
      (.cons (identifier.placed hidentifier) (TypeForm.placedAll arguments harguments))
  | .function _ result parameters, h => by
    obtain ⟨hresult, hparameters⟩ := List.forall_mem_cons.1 h.below
    exact .node (h.id_ne rfl) rfl
      (.cons (result.placed hresult) (TypeForm.placedAll parameters hparameters))
  | .placeholder _, h => .node (h.id_ne rfl) rfl .nil

theorem TypeForm.placedAll : (forms : List TypeForm) →
    (∀ c ∈ TypeForm.outlines forms, Replaceable target c) →
      List.Forall₂ (Placed visitAll target outline) (TypeForm.outlines forms)
        (TypeForm.outlines forms)
  | [], _ => .nil
  | form :: rest, h => by
    obtain ⟨hform, hrest⟩ := List.forall_mem_cons.1 h
    exact .cons (form.placed hform) (TypeForm.placedAll rest hrest)

end

/-- There is no expression in a generic parameter. -/
theorem GenericParameter.placed (generic : GenericParameter)
    (h : Replaceable target generic.outline) :
    Placed visitAll target outline generic.outline generic.outline := by
  cases generic with
  | placeholder id => exact .node (h.id_ne rfl) rfl .nil
  | parameter id name =>
    exact .node (h.id_ne rfl) rfl (.cons (name.placed (h.below _ List.mem_cons_self)) .nil)

/-- There is no expression in a case of an enumeration. -/
theorem EnumerationCase.placed (case : EnumerationCase) (h : Replaceable target case.outline) :
    Placed visitAll target outline case.outline case.outline := by
  cases case with
  | placeholder id => exact .node (h.id_ne rfl) rfl .nil
  | case id name forms =>
    obtain ⟨hname, hforms⟩ := List.forall_mem_cons.1 h.below
    exact .node (h.id_ne rfl) rfl (.cons (name.placed hname) (TypeForm.placedAll forms hforms))

end Same

/-! ## Expressions -/

/-- An expression is replaced if it has the id of the target. -/
theorem Expression.placed_getD {e replaced : Expression}
    (h : e.id ≠ target → Placed visitAll target new.outline e.outline replaced.outline) :
    Placed visitAll target new.outline e.outline
      (((Fragment.expression new).expressionFor? target e.id).getD replaced).outline := by
  by_cases heq : e.id = target
  · rw [Fragment.expressionFor?, if_pos heq]
    exact .here (e.outline_item ▸ heq)
  · rw [Fragment.expressionFor?, if_neg heq]
    exact h heq

/-- The path that a member access spells is not changed below its base. -/
theorem Expression.memberPath_replace : (e : Expression) → e.id ≠ target →
    Replaceable target e.outline →
      (e.replace target (.expression new)).memberPath = e.memberPath
  | .identifier id used, hne, _ => by
    rw [Expression.replace, Fragment.expressionFor?, if_neg (by exact hne)]
    rfl
  | .member id base name, hne, h => by
    have hbase := base.memberPath_replace
      (h.base _ (Outline.mem_preorder_node.2 (.inl rfl)) base rfl)
      (h.below _ List.mem_cons_self)
    rw [Expression.replace, Fragment.expressionFor?, if_neg (by exact hne)]
    simp only [Option.getD_none, Expression.memberPath, hbase]
  | .binary _ _ _ _, hne, _ | .call _ _ _, hne, _ | .literal _ _, hne, _
  | .placeholder _, hne, _ => by
    rw [Expression.replace, Fragment.expressionFor?, if_neg (by exact hne)]
    rfl

/-- Of the base of a member access, name resolution reads the path. -/
theorem Resolver.visitAll_member {base base' : Expression} (id : NodeId) (name : Identifier)
    (h : base'.memberPath = base.memberPath) :
    visitAll (.expression (.member id base name)) =
      visitAll (.expression (.member id base' name)) := by
  funext control r
  simp only [visitAll, visit, enter, leave, Expression.memberPath, h]
  rfl

mutual

/-- Replacing an expression in an expression puts the outline of the new one in its place. -/
theorem Expression.placed : (e : Expression) → Replaceable target e.outline →
    Placed visitAll target new.outline e.outline (e.replace target (.expression new)).outline
  | .binary id left right operator, h => by
    obtain ⟨hleft, hright⟩ := List.forall_mem_cons.1 h.below
    exact Expression.placed_getD (e := .binary id left right operator) fun hne =>
      .node hne rfl (.cons (left.placed hleft)
        (.cons (right.placed (hright _ List.mem_cons_self)) .nil))
  | .identifier id used, h =>
    Expression.placed_getD (e := .identifier id used) fun hne =>
      .node hne rfl (.cons (used.placed (h.below _ List.mem_cons_self)) .nil)
  | .call id callee arguments, h => by
    obtain ⟨hcallee, harguments⟩ := List.forall_mem_cons.1 h.below
    exact Expression.placed_getD (e := .call id callee arguments) fun hne =>
      .node hne rfl (.cons (callee.placed hcallee) (Argument.placedAll arguments harguments))
  | .literal id literal, h =>
    Expression.placed_getD (e := .literal id literal) fun hne =>
      .node hne rfl (.cons (literal.placed (h.below _ List.mem_cons_self)) .nil)
  | .member id base name, h => by
    obtain ⟨hbase, hname⟩ := List.forall_mem_cons.1 h.below
    -- a member of a path stays one, as the base is replaced within it only
    have hpath : (base.replace target (.expression new)).memberPath = base.memberPath :=
      Expression.memberPath_replace base
        (h.base _ (Outline.mem_preorder_node.2 (.inl rfl)) base rfl) hbase
    exact Expression.placed_getD (e := .member id base name) fun hne =>
      .node hne (Resolver.visitAll_member id name hpath) (.cons (base.placed hbase)
        (.cons (name.placed (hname _ List.mem_cons_self)) .nil))
  | .placeholder id, _ =>
    Expression.placed_getD (e := .placeholder id) fun hne => .node hne rfl .nil

/-- Replacing an expression in an argument puts the outline of the new one in its place. -/
theorem Argument.placed : (argument : Argument) → Replaceable target argument.outline →
    Placed visitAll target new.outline argument.outline
      (argument.replace target (.expression new)).outline
  | .argument _ _ expression, h =>
    .node (h.id_ne rfl) rfl (.cons (expression.placed (h.below _ List.mem_cons_self)) .nil)
  | .placeholder _, h => .node (h.id_ne rfl) rfl .nil

/-- Replacing an expression in a literal puts the outline of the new one in its place. -/
theorem Literal.placed : (literal : Literal) → Replaceable target literal.outline →
    Placed visitAll target new.outline literal.outline
      (literal.replace target (.expression new)).outline
  | .array _ items, h => .node (h.id_ne rfl) rfl (Expression.placedAll items h.below)
  | .none _, h | .boolean _ _, h | .number _ _, h | .string _ _, h | .color _ _, h =>
    .node (h.id_ne rfl) rfl .nil

/-- Among several expressions the one is replaced that has the target in it. -/
theorem Expression.placedAll : (expressions : List Expression) →
    (∀ c ∈ Expression.outlines expressions, Replaceable target c) →
      List.Forall₂ (Placed visitAll target new.outline) (Expression.outlines expressions)
        (Expression.outlines (Expression.replaceAll target (.expression new) expressions))
  | [], _ => .nil
  | expression :: rest, h => by
    obtain ⟨hfirst, hrest⟩ := List.forall_mem_cons.1 h
    exact .cons (expression.placed hfirst) (Expression.placedAll rest hrest)

theorem Argument.placedAll : (arguments : List Argument) →
    (∀ c ∈ Argument.outlines arguments, Replaceable target c) →
      List.Forall₂ (Placed visitAll target new.outline) (Argument.outlines arguments)
        (Argument.outlines (Argument.replaceAll target (.expression new) arguments))
  | [], _ => .nil
  | argument :: rest, h => by
    obtain ⟨hfirst, hrest⟩ := List.forall_mem_cons.1 h
    exact .cons (argument.placed hfirst) (Argument.placedAll rest hrest)

end

/-- Replacing an expression in a default puts the outline of the new one in its place. -/
theorem Parameter.placed (parameter : Parameter) (h : Replaceable target parameter.outline) :
    Placed visitAll target new.outline parameter.outline
      (parameter.replace target (.expression new)).outline := by
  cases parameter with
  | placeholder id => exact .node (h.id_ne rfl) rfl .nil
  | parameter id externalName localName form defaultValue =>
    obtain ⟨hname, hrest⟩ := List.forall_mem_cons.1 h.below
    obtain ⟨hform, hvalue⟩ := List.forall_mem_cons.1 hrest
    refine .node (h.id_ne rfl) rfl (.cons (localName.placed hname)
      (.cons (form.placed hform) ?_))
    cases defaultValue with
    | none => exact .nil
    | some value => exact .cons (Expression.placed value (hvalue _ List.mem_cons_self)) .nil

/-! ## Statements and declarations -/

/-- What is replaced in each of some outlines is replaced in all of them. -/
theorem Outline.Placed.map {α : Type} {visit : Visitor σ} {outline : Outline} {l : List α}
    {f g : α → Outline} (h : ∀ a ∈ l, Placed visit target outline (f a) (g a)) :
    List.Forall₂ (Placed visit target outline) (l.map f) (l.map g) :=
  List.forall₂_map_left_iff.2 (List.forall₂_map_right_iff.2 (List.forall₂_same.2 h))

/-- Of its parameters, name resolution reads the names at a function. -/
theorem Resolver.visitAll_function (id : NodeId) (name : Pattern) (result : TypeForm)
    (generics : List GenericParameter) (parameters : List Parameter)
    (block block' : List Statement) (fragment : Fragment) :
    visitAll (.declaration (.function id name result generics parameters block)) =
      visitAll (.declaration (.function id name result generics
        (parameters.map (Parameter.replace target fragment)) block')) := by
  have hbind : (fun r parameter => bindParameter r (Parameter.replace target fragment parameter)) =
      bindParameter := by
    funext r parameter
    cases parameter <;> rfl
  funext control r
  simp only [visitAll, visit, enter, leave, enterDeclaration, List.foldl_map, hbind]
  rfl

mutual

/-- Replacing an expression in a statement puts the outline of the new one in its place. -/
theorem Statement.placed : (statement : Statement) → Replaceable target statement.outline →
    Placed visitAll target new.outline statement.outline
      (statement.replace target (.expression new)).outline
  | .declaration _ content, h =>
    .node (h.id_ne rfl) rfl (.cons (content.placed (h.below _ List.mem_cons_self)) .nil)
  | .branch _ condition block, h => by
    obtain ⟨hcondition, hblock⟩ := List.forall_mem_cons.1 h.below
    exact .node (h.id_ne rfl) rfl
      (.cons (Expression.placed condition hcondition) (Statement.placedAll block hblock))
  | .loop _ pattern iterated block, h => by
    obtain ⟨hpattern, hrest⟩ := List.forall_mem_cons.1 h.below
    obtain ⟨hiterated, hblock⟩ := List.forall_mem_cons.1 hrest
    exact .node (h.id_ne rfl) rfl (.cons (pattern.placed hpattern)
      (.cons (Expression.placed iterated hiterated) (Statement.placedAll block hblock)))
  | .expression _ expression, h | .result _ expression, h =>
    .node (h.id_ne rfl) rfl
      (.cons (Expression.placed expression (h.below _ List.mem_cons_self)) .nil)
  | .placeholder _, h => .node (h.id_ne rfl) rfl .nil

/-- Replacing an expression in a declaration puts the outline of the new one in its place. -/
theorem Declaration.placed : (declaration : Declaration) →
    Replaceable target declaration.outline →
      Placed visitAll target new.outline declaration.outline
        (declaration.replace target (.expression new)).outline
  | .value _ name form initializer, h => by
    -- nothing that can be replaced sits at the declaration itself, so that its children are
    -- replaced one by one
    obtain ⟨hname, hrest⟩ := List.forall_mem_cons.1 h.below
    obtain ⟨hform, hinitializer⟩ := List.forall_mem_append.1 hrest
    refine .node (h.id_ne rfl) rfl (.cons (name.placed hname) (List.rel_append ?_ ?_))
    · cases form with
      | none => exact .nil
      | some form => exact .cons (form.placed (hform _ List.mem_cons_self)) .nil
    · cases initializer with
      | none => exact .nil
      | some value => exact .cons (Expression.placed value (hinitializer _ List.mem_cons_self)) .nil
  | .function _ name result generics parameters block, h => by
    obtain ⟨hname, hrest⟩ := List.forall_mem_cons.1 h.below
    obtain ⟨hresult, hrest⟩ := List.forall_mem_cons.1 hrest
    obtain ⟨hgenerics, hrest⟩ := List.forall_mem_append.1 hrest
    obtain ⟨hparameters, hblock⟩ := List.forall_mem_append.1 hrest
    -- the visit of a function looks into its parameters, but at nothing that is replaced there
    refine .node (h.id_ne rfl) (Resolver.visitAll_function ..)
      (.cons (name.placed hname) (.cons (result.placed hresult) (List.rel_append ?_
        (List.rel_append ?_ (Statement.placedAll block hblock)))))
    · exact Placed.map fun generic hmem => generic.placed (hgenerics _ (List.mem_map_of_mem hmem))
    · rw [List.map_map]
      exact Placed.map fun parameter hmem =>
        parameter.placed (hparameters _ (List.mem_map_of_mem hmem))
  | .enumeration _ name generics cases, h => by
    obtain ⟨hname, hrest⟩ := List.forall_mem_cons.1 h.below
    obtain ⟨hgenerics, hcases⟩ := List.forall_mem_append.1 hrest
    refine .node (h.id_ne rfl) rfl (.cons (name.placed hname) (List.rel_append ?_ ?_))
    · exact Placed.map fun generic hmem => generic.placed (hgenerics _ (List.mem_map_of_mem hmem))
    · exact Placed.map fun case hmem => case.placed (hcases _ (List.mem_map_of_mem hmem))
  | .record _ name generics declarations, h => by
    obtain ⟨hname, hrest⟩ := List.forall_mem_cons.1 h.below
    obtain ⟨hgenerics, hdeclarations⟩ := List.forall_mem_append.1 hrest
    refine .node (h.id_ne rfl) rfl (.cons (name.placed hname) (List.rel_append ?_
      (Declaration.placedAll declarations hdeclarations)))
    exact Placed.map fun generic hmem => generic.placed (hgenerics _ (List.mem_map_of_mem hmem))
  | .space _ name declarations, h => by
    obtain ⟨hname, hdeclarations⟩ := List.forall_mem_cons.1 h.below
    exact .node (h.id_ne rfl) rfl
      (.cons (name.placed hname) (Declaration.placedAll declarations hdeclarations))
  | .library _ name, h =>
    .node (h.id_ne rfl) rfl (.cons (name.placed (h.below _ List.mem_cons_self)) .nil)
  | .placeholder _, h => .node (h.id_ne rfl) rfl .nil

/-- In a block the statement is changed that has the target in it. -/
theorem Statement.placedAll : (block : List Statement) →
    (∀ c ∈ Statement.outlines block, Replaceable target c) →
      List.Forall₂ (Placed visitAll target new.outline) (Statement.outlines block)
        (Statement.outlines (Statement.replaceAll target (.expression new) block))
  | [], _ => .nil
  | statement :: rest, h => by
    obtain ⟨hfirst, hrest⟩ := List.forall_mem_cons.1 h
    exact .cons (statement.placed hfirst) (Statement.placedAll rest hrest)

theorem Declaration.placedAll : (declarations : List Declaration) →
    (∀ c ∈ Declaration.outlines declarations, Replaceable target c) →
      List.Forall₂ (Placed visitAll target new.outline) (Declaration.outlines declarations)
        (Declaration.outlines (Declaration.replaceAll target (.expression new) declarations))
  | [], _ => .nil
  | declaration :: rest, h => by
    obtain ⟨hfirst, hrest⟩ := List.forall_mem_cons.1 h
    exact .cons (declaration.placed hfirst) (Declaration.placedAll rest hrest)

end

/-- To name resolution, replacing an expression in a program places it in the outline. -/
theorem Program.placed (program : Program) (new : Expression)
    (h : Replaceable target program.outline) :
    Placed visitAll target new.outline program.outline
      (program.replace target (.expression new)).outline :=
  .node (h.id_ne rfl) rfl (Statement.placedAll program.block h.below)

end TreeLang
