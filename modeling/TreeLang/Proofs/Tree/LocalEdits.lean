import Mathlib.Data.List.Forall2
import TreeLang.Proofs.Tree.Lines
import TreeLang.Tree.Edit

/-!
# Edits are local

The lines of a tree around the nodes that are replaced stay as they are: a gap is left for each of
these nodes, and the lines of the new subtree fill it. Where the ids are distinct, there is at most
one gap, so replacing a node by itself changes nothing and replacing it back undoes an edit.
-/

namespace TreeLang

/-! ## Fragments -/

namespace Fragment

/-- The fragment as a node. -/
def node : Fragment → Node
  | .statement s => .statement s
  | .declaration d => .declaration d
  | .expression e => .expression e

/-- Whether a node is of the sort of the fragment. -/
def fits (new : Fragment) (node : Node) : Bool :=
  match node, new with
  | .statement _, .statement _ | .declaration _, .declaration _ | .expression _, .expression _ =>
    true
  | _, _ => false

/-- Whether the fragment takes the place of a node when the id `target` is replaced. -/
def replaces (target : NodeId) (new : Fragment) (node : Node) : Bool :=
  node.id = target && new.fits node

variable {target : NodeId} {new : Fragment} {m n : Node}

/-- The root of the outline of a fragment is its node. -/
@[simp] theorem outline_item (new : Fragment) : new.outline.item = new.node := by
  cases new with
  | statement s => exact s.outline_item
  | declaration d => exact d.outline_item
  | expression e => exact e.outline_item

/-- A fragment has one outline, as itself and as a node. -/
theorem outline_node (new : Fragment) : new.node.outline = new.outline := by
  cases new <;> rfl

/-- A fragment has one identifier, as itself and as a node. -/
theorem id_node (new : Fragment) : new.node.id = new.id := by
  cases new <;> rfl

/-- Which fragments fit each other does not depend on which of them is new. -/
theorem fits_node_comm (new old : Fragment) : new.fits old.node = old.fits new.node := by
  cases new <;> cases old <;> rfl

/-- Whether a fragment fits a node does not depend on what is below the node. -/
theorem fits_bare (new : Fragment) (n : Node) : new.fits n.bare = new.fits n := by
  cases new <;> cases n <;> rfl

/-- What is replaced has the identifier of the target. -/
theorem id_of_replaces (h : new.replaces target n) : n.id = target :=
  of_decide_eq_true (Bool.and_eq_true_iff.1 h).1

/-- A node of another sort is not replaced. -/
theorem replaces_of_misfit (h : new.fits n = false) : new.replaces target n = false := by
  rw [replaces, h, Bool.and_false]

/-- Whether a node is replaced can be seen from its line. -/
theorem replaces_of_line_eq (h : m.line = n.line) :
    new.replaces target m = new.replaces target n := by
  obtain ⟨hid, hbare⟩ := Prod.mk.inj h
  rw [replaces, replaces, hid, ← new.fits_bare m, hbare, new.fits_bare]

end Fragment

namespace Outline

/-! ## Gaps -/

section Gaps

variable (hit : Node → Bool)

mutual

/-- The lines of an outline around the subtrees at hits, with a gap in the place of each of them. -/
def gapped : Outline → List (Option (NodeId × Node))
  | .node item children => if hit item then [none] else some item.line :: gappedAll children

/-- The lines of several outlines around the subtrees at hits. -/
def gappedAll : List Outline → List (Option (NodeId × Node))
  | [] => []
  | outline :: rest => outline.gapped ++ gappedAll rest

end

/-- The lines that come out when each gap is filled. -/
def fill (filling : List (NodeId × Node)) (gapped : List (Option (NodeId × Node))) :
    List (NodeId × Node) :=
  gapped.flatMap fun line? => (line?.map fun line => [line]).getD filling

variable {hit : Node → Bool} {item : Node} {children : List Outline} {outline : Outline}
  {filling : List (NodeId × Node)}

/-- The lines of several outlines with gaps are those of each. -/
theorem gappedAll_eq_flatMap (outlines : List Outline) :
    gappedAll hit outlines = outlines.flatMap (gapped hit) := by
  induction outlines with
  | nil => rfl
  | cons outline rest ih => rw [gappedAll, ih, List.flatMap_cons]

/-- A hit leaves nothing but a gap. -/
theorem gapped_of_hit (h : hit outline.item) : outline.gapped hit = [none] := by
  cases outline with
  | node item children => exact if_pos h

/-- A miss leaves its line, and the gaps in its children. -/
theorem gapped_node_of_miss (h : hit item = false) :
    (node item children).gapped hit = some item.line :: children.flatMap (gapped hit) := by
  rw [gapped, h, if_neg Bool.false_ne_true, gappedAll_eq_flatMap]

/-- What is there after filling was there before, or came in at a gap. -/
theorem mem_fill {line : NodeId × Node} {gapped : List (Option (NodeId × Node))} :
    line ∈ fill filling gapped ↔ some line ∈ gapped ∨ none ∈ gapped ∧ line ∈ filling := by
  rw [fill, List.mem_flatMap]
  constructor
  · rintro ⟨_ | other, hmem, hline⟩
    · exact .inr ⟨hmem, hline⟩
    · exact .inl (List.mem_singleton.1 hline ▸ hmem)
  · rintro (hmem | ⟨hmem, hline⟩)
    · exact ⟨some line, hmem, List.mem_singleton_self line⟩
    · exact ⟨none, hmem, hline⟩

/-- Without a gap, there is nothing to fill. -/
theorem fill_of_none_notMem {gapped : List (Option (NodeId × Node))} (h : none ∉ gapped)
    (filling' : List (NodeId × Node)) : fill filling gapped = fill filling' gapped := by
  refine List.flatMap_congr fun line? hmem => ?_
  cases line? with
  | none => exact absurd hmem h
  | some line => rfl

/-- Where no line comes twice, there is only one gap, and what fills it is nowhere else. -/
theorem exists_eq_append_none_cons {gapped : List (Option (NodeId × Node))}
    (hgap : none ∈ gapped) (hfilling : filling ≠ []) (distinct : (fill filling gapped).Nodup) :
    ∃ before after, gapped = before ++ none :: after ∧ none ∉ before ∧ none ∉ after ∧
      ∀ line ∈ filling, some line ∉ gapped := by
  obtain ⟨before, after, rfl⟩ := List.append_of_mem hgap
  have hsplit : fill filling (before ++ none :: after) =
      fill filling before ++ (filling ++ fill filling after) := List.flatMap_append
  rw [hsplit] at distinct
  obtain ⟨-, hrest, hbefore⟩ := List.nodup_append'.1 distinct
  obtain ⟨-, -, hafter⟩ := List.nodup_append'.1 hrest
  replace hbefore : ∀ line ∈ filling, line ∉ fill filling before :=
    fun line hline hmem => hbefore hmem (List.mem_append_left _ hline)
  replace hafter : ∀ line ∈ filling, line ∉ fill filling after :=
    fun line hline hmem => hafter hline hmem
  obtain ⟨line, hline⟩ := List.exists_mem_of_ne_nil filling hfilling
  refine ⟨before, after, rfl, fun h => ?_, fun h => ?_, fun line hline hmem => ?_⟩
  · exact hbefore line hline (mem_fill.2 (.inr ⟨h, hline⟩))
  · exact hafter line hline (mem_fill.2 (.inr ⟨h, hline⟩))
  · rcases List.mem_append.1 hmem with hmem | hmem
    · exact hbefore line hline (mem_fill.2 (.inl hmem))
    · exact hafter line hline (mem_fill.2 (.inl ((List.mem_cons.1 hmem).resolve_left nofun)))

/-- Outlines are filled one after the other. -/
theorem fill_flatMap (outlines : List Outline) :
    fill filling (outlines.flatMap (gapped hit)) =
      outlines.flatMap fun c => fill filling (c.gapped hit) := List.flatMap_assoc

/-- Around the hits, an outline has the lines that its gaps leave. -/
theorem Faithful.lines_eq_fill (h : outline.Faithful)
    (hfilling : ∀ n ∈ outline.preorder, hit n → n.outline.lines = filling) :
    outline.lines = fill filling (outline.gapped hit) := by
  induction h with
  | @node item children root below ih =>
    cases hhit : hit item with
    | true =>
      have hlines := hfilling item (mem_preorder_node.2 (.inl rfl)) hhit
      rw [root] at hlines
      rw [gapped_of_hit hhit, hlines]
      exact (List.append_nil filling).symm
    | false =>
      have hchildren : ∀ c ∈ children, c.lines = fill filling (c.gapped hit) := fun c hc =>
        ih c hc fun n hn => hfilling n (mem_preorder_node.2 (.inr ⟨c, hc, hn⟩))
      rw [gapped_node_of_miss hhit, lines_node, fill, List.flatMap_cons, ← fill, fill_flatMap]
      exact congrArg (item.line :: ·) (List.flatMap_congr hchildren)

/-- A hit leaves a gap, its own or one around it. -/
theorem none_mem_gapped {n : Node} (hn : n ∈ outline.preorder) (hhit : hit n) :
    none ∈ outline.gapped hit := by
  induction outline with
  | node item children ih =>
    cases hitem : hit item with
    | true =>
      have hgap : (node item children).gapped hit = [none] := gapped_of_hit hitem
      exact hgap ▸ List.mem_singleton_self none
    | false =>
      rw [gapped_node_of_miss hitem]
      rcases mem_preorder_node.1 hn with rfl | ⟨c, hc, hn⟩
      · exact absurd hhit (Bool.eq_false_iff.1 hitem)
      · exact List.mem_cons_of_mem _ (List.mem_flatMap.2 ⟨c, hc, ih c hc hn⟩)

end Gaps

/-! ## Replaced subtrees -/

/-- The second outline is the first one with `new` in the place of the subtrees at hits. -/
inductive Replaced (hit : Node → Bool) (new : Outline) : Outline → Outline → Prop
  | here {outline : Outline} (h : hit outline.item) : Replaced hit new outline new
  | node {item item' : Node} {children children' : List Outline} (hmiss : hit item = false)
    (hline : item'.line = item.line) (below : List.Forall₂ (Replaced hit new) children children') :
    Replaced hit new (.node item children) (.node item' children')

namespace Replaced

variable {hit hit' : Node → Bool} {new outline replaced : Outline}

/-- The lines around the hits stay, and those of the new subtree fill the gaps. -/
theorem lines_eq_fill (h : Replaced hit new outline replaced) :
    replaced.lines = fill new.lines (outline.gapped hit) := by
  induction outline generalizing replaced with
  | node item children ih =>
    cases h with
    | here hhit =>
      rw [gapped_of_hit hhit]
      exact (List.append_nil new.lines).symm
    | @node _ item' _ children' hmiss hline below =>
      have hchildren : children'.flatMap lines =
          children.flatMap fun c => fill new.lines (c.gapped hit) := by
        induction below with
        | nil => rfl
        | cons hfirst _ ihrest =>
          obtain ⟨hc, hrest⟩ := List.forall_mem_cons.1 ih
          rw [List.flatMap_cons, List.flatMap_cons, hc hfirst, ihrest hrest]
      rw [gapped_node_of_miss hmiss, lines_node, fill, List.flatMap_cons, ← fill, fill_flatMap,
        hline, hchildren]
      rfl

/-- Where the new subtree is a hit of its own and nothing around the gaps is, the gaps stay. -/
theorem gapped_eq (h : Replaced hit new outline replaced) (hnew : hit' new.item)
    (hcongr : ∀ m n, m.line = n.line → hit' m = hit' n)
    (haround : ∀ n, some n.line ∈ outline.gapped hit → hit' n = false) :
    replaced.gapped hit' = outline.gapped hit := by
  induction outline generalizing replaced with
  | node item children ih =>
    cases h with
    | here hhit => rw [gapped_of_hit hnew, gapped_of_hit hhit]
    | @node _ item' _ children' hmiss hline below =>
      rw [gapped_node_of_miss hmiss] at haround ⊢
      have hmiss' : hit' item' = false :=
        (hcongr item' item hline).trans (haround item List.mem_cons_self)
      rw [gapped_node_of_miss hmiss', hline]
      congr 1
      replace haround : ∀ c ∈ children, ∀ n, some n.line ∈ c.gapped hit → hit' n = false :=
        fun c hc n hn => haround n (List.mem_cons_of_mem _ (List.mem_flatMap.2 ⟨c, hc, hn⟩))
      induction below with
      | nil => rfl
      | cons hfirst _ ihrest =>
        obtain ⟨hc, hrest⟩ := List.forall_mem_cons.1 ih
        obtain ⟨hround, hrounds⟩ := List.forall_mem_cons.1 haround
        rw [List.flatMap_cons, List.flatMap_cons, hc hfirst hround, ihrest hrest hrounds]

end Replaced

end Outline

/-! ## Replacing in syntax -/

open Outline (Replaced)

section Syntax

variable (target : NodeId) (new : Fragment)

/-- Expressions are replaced one after the other. -/
theorem Expression.replaceAll_eq_map (expressions : List Expression) :
    Expression.replaceAll target new expressions =
      expressions.map (Expression.replace target new) := by
  induction expressions with
  | nil => rfl
  | cons expression rest ih => rw [Expression.replaceAll, ih, List.map_cons]

theorem Argument.replaceAll_eq_map (arguments : List Argument) :
    Argument.replaceAll target new arguments = arguments.map (Argument.replace target new) := by
  induction arguments with
  | nil => rfl
  | cons argument rest ih => rw [Argument.replaceAll, ih, List.map_cons]

/-- Statements are replaced one after the other. -/
theorem Statement.replaceAll_eq_map (block : List Statement) :
    Statement.replaceAll target new block = block.map (Statement.replace target new) := by
  induction block with
  | nil => rfl
  | cons statement rest ih => rw [Statement.replaceAll, ih, List.map_cons]

/-- Declarations are replaced one after the other. -/
theorem Declaration.replaceAll_eq_map (declarations : List Declaration) :
    Declaration.replaceAll target new declarations =
      declarations.map (Declaration.replace target new) := by
  induction declarations with
  | nil => rfl
  | cons declaration rest ih => rw [Declaration.replaceAll, ih, List.map_cons]

/-- What an edit does to an outline: the new fragment takes the place of what it replaces. -/
abbrev Fragment.Edits : Outline → Outline → Prop := Replaced (new.replaces target) new.outline

/-- What is edited in each item of a list is edited in the list. -/
theorem Fragment.edits_map {α : Type} {outline outline' : α → Outline}
    (h : ∀ a, new.Edits target (outline a) (outline' a)) (list : List α) :
    List.Forall₂ (new.Edits target) (list.map outline) (list.map outline') :=
  List.forall₂_map_left_iff.2 (List.forall₂_map_right_iff.2 (List.forall₂_same.2 fun a _ => h a))

/-- What is edited in the content of an option is edited in the option. -/
theorem Fragment.edits_option {α : Type} {outline outline' : α → Outline}
    (h : ∀ a, new.Edits target (outline a) (outline' a)) (option : Option α) :
    List.Forall₂ (new.Edits target) (option.map outline).toList (option.map outline').toList := by
  cases option with
  | none => exact .nil
  | some a => exact .cons (h a) .nil

/-- No fragment is a pattern, so patterns stay as they are. -/
theorem Pattern.edits (pattern : Pattern) : new.Edits target pattern.outline pattern.outline :=
  .node (Fragment.replaces_of_misfit rfl) rfl .nil

/-- No fragment is an identifier, so identifiers stay as they are. -/
theorem Identifier.edits (identifier : Identifier) :
    new.Edits target identifier.outline identifier.outline :=
  .node (Fragment.replaces_of_misfit rfl) rfl .nil

mutual

/-- No fragment is a type, so types stay as they are. -/
theorem TypeForm.edits : (form : TypeForm) → new.Edits target form.outline form.outline
  | .named _ identifier arguments =>
    .node (Fragment.replaces_of_misfit rfl) rfl
      (.cons (identifier.edits target new) (TypeForm.all_edits arguments))
  | .function _ result parameters =>
    .node (Fragment.replaces_of_misfit rfl) rfl
      (.cons result.edits (TypeForm.all_edits parameters))
  | .placeholder _ => .node (Fragment.replaces_of_misfit rfl) rfl .nil

theorem TypeForm.all_edits : (forms : List TypeForm) →
    List.Forall₂ (new.Edits target) (TypeForm.outlines forms) (TypeForm.outlines forms)
  | [] => .nil
  | form :: rest => .cons form.edits (TypeForm.all_edits rest)

end

/-- Nothing is edited in a generic parameter. -/
theorem GenericParameter.edits (generic : GenericParameter) :
    new.Edits target generic.outline generic.outline := by
  cases generic with
  | placeholder id => exact .node (Fragment.replaces_of_misfit rfl) rfl .nil
  | parameter id name =>
    exact .node (Fragment.replaces_of_misfit rfl) rfl (.cons (name.edits target new) .nil)

/-- Nothing is edited in a case of an enumeration. -/
theorem EnumerationCase.edits (case : EnumerationCase) :
    new.Edits target case.outline case.outline := by
  cases case with
  | placeholder id => exact .node (Fragment.replaces_of_misfit rfl) rfl .nil
  | case id name forms =>
    exact .node (Fragment.replaces_of_misfit rfl) rfl
      (.cons (name.edits target new) (TypeForm.all_edits target new forms))

variable {target new}

/-- What is not replaced itself is built again from its parts. -/
theorem Fragment.edits_ite {item : Node} {before rebuilt : Outline} (hitem : before.item = item)
    (h : new.replaces target item = false → new.Edits target before rebuilt) :
    new.Edits target before (if new.replaces target item then new.outline else rebuilt) := by
  split
  · next hhit => exact .here (hitem ▸ hhit)
  · next hmiss => exact h (Bool.eq_false_iff.2 hmiss)

/-- The new expression comes in when it replaces this one. -/
theorem Expression.outline_getD (e rebuilt : Expression) :
    ((new.expressionFor? target e.id).getD rebuilt).outline =
      if new.replaces target (.expression e) then new.outline else rebuilt.outline := by
  cases new with
  | expression r =>
    by_cases hid : e.id = target <;>
      simp [Fragment.expressionFor?, Fragment.replaces, Fragment.fits, Fragment.outline, Node.id,
        hid]
  | statement _ | declaration _ => simp [Fragment.expressionFor?, Fragment.replaces, Fragment.fits]

/-- An expression is edited when the one that is rebuilt from its parts is, unless it is replaced
itself. -/
theorem Expression.edits_getD {e rebuilt : Expression}
    (h : new.replaces target (.expression e) = false →
      new.Edits target e.outline rebuilt.outline) :
    new.Edits target e.outline ((new.expressionFor? target e.id).getD rebuilt).outline := by
  rw [Expression.outline_getD]
  exact Fragment.edits_ite e.outline_item h

variable (target new)

mutual

/-- Replacing in an expression edits its outline. -/
theorem Expression.edits : (expression : Expression) →
    new.Edits target expression.outline (expression.replace target new).outline
  | .binary id left right operator =>
    Expression.edits_getD (e := .binary id left right operator) fun hmiss =>
      .node hmiss rfl (.cons left.edits (.cons right.edits .nil))
  | .identifier id used =>
    Expression.edits_getD (e := .identifier id used) fun hmiss =>
      .node hmiss rfl (.cons (used.edits target new) .nil)
  | .call id callee arguments =>
    Expression.edits_getD (e := .call id callee arguments) fun hmiss =>
      .node hmiss (by simp [Node.line, Node.id, Expression.id, Node.bare, Expression.bare,
        Argument.replaceAll_eq_map, Function.comp_def])
        (.cons callee.edits (Argument.all_edits arguments))
  | .literal id literal =>
    Expression.edits_getD (e := .literal id literal) fun hmiss =>
      .node hmiss rfl (.cons literal.edits .nil)
  | .member id base name =>
    Expression.edits_getD (e := .member id base name) fun hmiss =>
      .node hmiss rfl (.cons base.edits (.cons (name.edits target new) .nil))
  | .placeholder id =>
    Expression.edits_getD (e := .placeholder id) fun hmiss => .node hmiss rfl .nil

/-- Replacing in an argument edits its outline. -/
theorem Argument.edits : (argument : Argument) →
    new.Edits target argument.outline (argument.replace target new).outline
  | .argument _ _ expression =>
    .node (Fragment.replaces_of_misfit rfl) rfl (.cons expression.edits .nil)
  | .placeholder _ => .node (Fragment.replaces_of_misfit rfl) rfl .nil

/-- Replacing in a literal edits its outline. -/
theorem Literal.edits : (literal : Literal) →
    new.Edits target literal.outline (literal.replace target new).outline
  | .array _ items =>
    .node (Fragment.replaces_of_misfit rfl) (by simp [Node.line, Node.id, Literal.id, Node.bare,
      Literal.bare, Expression.replaceAll_eq_map, Function.comp_def]) (Expression.all_edits items)
  | .none _ | .boolean _ _ | .number _ _ | .string _ _ | .color _ _ =>
    .node (Fragment.replaces_of_misfit rfl) rfl .nil

/-- Replacing in several expressions edits each of their outlines. -/
theorem Expression.all_edits : (expressions : List Expression) →
    List.Forall₂ (new.Edits target) (Expression.outlines expressions)
      (Expression.outlines (Expression.replaceAll target new expressions))
  | [] => .nil
  | expression :: rest => .cons expression.edits (Expression.all_edits rest)

theorem Argument.all_edits : (arguments : List Argument) →
    List.Forall₂ (new.Edits target) (Argument.outlines arguments)
      (Argument.outlines (Argument.replaceAll target new arguments))
  | [] => .nil
  | argument :: rest => .cons argument.edits (Argument.all_edits rest)

end

/-- Replacing in a parameter edits its outline. -/
theorem Parameter.edits (parameter : Parameter) :
    new.Edits target parameter.outline (parameter.replace target new).outline := by
  cases parameter with
  | placeholder id => exact .node (Fragment.replaces_of_misfit rfl) rfl .nil
  | parameter id externalName localName form defaultValue =>
    refine .node (Fragment.replaces_of_misfit rfl) ?_ (.cons (localName.edits target new)
      (.cons (form.edits target new) ?_))
    · cases defaultValue <;> rfl
    · rw [Option.map_map]
      exact Fragment.edits_option target new (Expression.edits target new) defaultValue

variable {target new}

/-- The new statement comes in when it replaces this one. -/
theorem Statement.outline_getD (s rebuilt : Statement) :
    ((new.statementFor? target s.id).getD rebuilt).outline =
      if new.replaces target (.statement s) then new.outline else rebuilt.outline := by
  cases new with
  | statement r =>
    by_cases hid : s.id = target <;>
      simp [Fragment.statementFor?, Fragment.replaces, Fragment.fits, Fragment.outline, Node.id,
        hid]
  | declaration _ | expression _ => simp [Fragment.statementFor?, Fragment.replaces, Fragment.fits]

/-- A statement is edited when the one that is rebuilt from its parts is, unless it is replaced
itself. -/
theorem Statement.edits_getD {s rebuilt : Statement}
    (h : new.replaces target (.statement s) = false →
      new.Edits target s.outline rebuilt.outline) :
    new.Edits target s.outline ((new.statementFor? target s.id).getD rebuilt).outline := by
  rw [Statement.outline_getD]
  exact Fragment.edits_ite s.outline_item h

/-- The new declaration comes in when it replaces this one. -/
theorem Declaration.outline_getD (d rebuilt : Declaration) :
    ((new.declarationFor? target d.id).getD rebuilt).outline =
      if new.replaces target (.declaration d) then new.outline else rebuilt.outline := by
  cases new with
  | declaration r =>
    by_cases hid : d.id = target <;>
      simp [Fragment.declarationFor?, Fragment.replaces, Fragment.fits, Fragment.outline, Node.id,
        hid]
  | statement _ | expression _ => simp [Fragment.declarationFor?, Fragment.replaces, Fragment.fits]

/-- A declaration is edited when the one that is rebuilt from its parts is, unless it is replaced
itself. -/
theorem Declaration.edits_getD {d rebuilt : Declaration}
    (h : new.replaces target (.declaration d) = false →
      new.Edits target d.outline rebuilt.outline) :
    new.Edits target d.outline ((new.declarationFor? target d.id).getD rebuilt).outline := by
  rw [Declaration.outline_getD]
  exact Fragment.edits_ite d.outline_item h

variable (target new)

mutual

/-- Replacing in a statement edits its outline. -/
theorem Statement.edits : (statement : Statement) →
    new.Edits target statement.outline (statement.replace target new).outline
  | .declaration id content =>
    Statement.edits_getD (s := .declaration id content) fun hmiss =>
      .node hmiss rfl (.cons content.edits .nil)
  | .branch id condition block =>
    Statement.edits_getD (s := .branch id condition block) fun hmiss =>
      .node hmiss (by simp [Node.line, Node.id, Statement.id, Node.bare, Statement.bare,
        Statement.replaceAll_eq_map, Function.comp_def])
        (.cons (condition.edits target new) (Statement.all_edits block))
  | .loop id pattern iterated block =>
    Statement.edits_getD (s := .loop id pattern iterated block) fun hmiss =>
      .node hmiss (by simp [Node.line, Node.id, Statement.id, Node.bare, Statement.bare,
        Statement.replaceAll_eq_map, Function.comp_def])
        (.cons (pattern.edits target new)
          (.cons (iterated.edits target new) (Statement.all_edits block)))
  | .expression id expression =>
    Statement.edits_getD (s := .expression id expression) fun hmiss =>
      .node hmiss rfl (.cons (expression.edits target new) .nil)
  | .result id expression =>
    Statement.edits_getD (s := .result id expression) fun hmiss =>
      .node hmiss rfl (.cons (expression.edits target new) .nil)
  | .placeholder id =>
    Statement.edits_getD (s := .placeholder id) fun hmiss => .node hmiss rfl .nil

/-- Replacing in a declaration edits its outline. -/
theorem Declaration.edits : (declaration : Declaration) →
    new.Edits target declaration.outline (declaration.replace target new).outline
  -- by cases on what is rebuilt: where the declaration is not replaced itself, its own line stays
  -- and the edits are those of its children, in their order
  | .value id name form initializer =>
    Declaration.edits_getD (d := .value id name form initializer) fun hmiss => by
      refine .node hmiss ?_ (.cons (name.edits target new) (List.rel_append ?_ ?_))
      · cases initializer <;> rfl
      · exact Fragment.edits_option target new (TypeForm.edits target new) form
      · rw [Option.map_map]
        exact Fragment.edits_option target new (Expression.edits target new) initializer
  | .function id name result generics parameters block =>
    Declaration.edits_getD (d := .function id name result generics parameters block)
      fun hmiss => by
        refine .node hmiss ?_ (.cons (name.edits target new) (.cons (result.edits target new)
          (List.rel_append ?_ (List.rel_append ?_ (Statement.all_edits block)))))
        · simp [Node.line, Node.id, Declaration.id, Node.bare, Declaration.bare,
            Statement.replaceAll_eq_map, Function.comp_def]
        · exact Fragment.edits_map target new (GenericParameter.edits target new) generics
        · rw [List.map_map]
          exact Fragment.edits_map target new (Parameter.edits target new) parameters
  | .enumeration id name generics cases =>
    Declaration.edits_getD (d := .enumeration id name generics cases) fun hmiss =>
      .node hmiss rfl (.cons (name.edits target new) (List.rel_append
        (Fragment.edits_map target new (GenericParameter.edits target new) generics)
        (Fragment.edits_map target new (EnumerationCase.edits target new) cases)))
  | .record id name generics declarations =>
    Declaration.edits_getD (d := .record id name generics declarations) fun hmiss =>
      .node hmiss (by simp [Node.line, Node.id, Declaration.id, Node.bare, Declaration.bare,
        Declaration.replaceAll_eq_map, Function.comp_def])
        (.cons (name.edits target new) (List.rel_append
          (Fragment.edits_map target new (GenericParameter.edits target new) generics)
          (Declaration.all_edits declarations)))
  | .space id name declarations =>
    Declaration.edits_getD (d := .space id name declarations) fun hmiss =>
      .node hmiss (by simp [Node.line, Node.id, Declaration.id, Node.bare, Declaration.bare,
        Declaration.replaceAll_eq_map, Function.comp_def])
        (.cons (name.edits target new) (Declaration.all_edits declarations))
  | .library id name =>
    Declaration.edits_getD (d := .library id name) fun hmiss =>
      .node hmiss rfl (.cons (name.edits target new) .nil)
  | .placeholder id =>
    Declaration.edits_getD (d := .placeholder id) fun hmiss => .node hmiss rfl .nil

/-- Replacing in a block edits the outlines of its statements. -/
theorem Statement.all_edits : (block : List Statement) →
    List.Forall₂ (new.Edits target) (Statement.outlines block)
      (Statement.outlines (Statement.replaceAll target new block))
  | [] => .nil
  | statement :: rest => .cons statement.edits (Statement.all_edits rest)

theorem Declaration.all_edits : (declarations : List Declaration) →
    List.Forall₂ (new.Edits target) (Declaration.outlines declarations)
      (Declaration.outlines (Declaration.replaceAll target new declarations))
  | [] => .nil
  | declaration :: rest => .cons declaration.edits (Declaration.all_edits rest)

end

/-- Replacing in a program edits its outline. -/
theorem Program.edits (program : Program) :
    new.Edits target program.outline (program.replace target new).outline := by
  refine .node (Fragment.replaces_of_misfit rfl) ?_ (Statement.all_edits target new program.block)
  simp [Node.line, Node.id, Node.bare, Program.bare, Program.replace, Statement.replaceAll_eq_map,
    Function.comp_def]

end Syntax

/-! ## Programs with distinct ids -/

namespace Program

variable {program : Program} {target : NodeId} {new : Fragment}

/-- The lines of an edited program are those around the target, with the lines of the new fragment
in each gap. -/
theorem lines_replace (program : Program) (target : NodeId) (new : Fragment) :
    (program.replace target new).outline.lines =
      Outline.fill new.outline.lines (program.outline.gapped (new.replaces target)) :=
  (program.edits target new).lines_eq_fill

/-- What is replaced is one node where the ids are distinct. -/
theorem lines_eq_fill (distinct : (program.nodes.map Node.id).Nodup) {old : Node}
    (hold : old ∈ program.nodes) (hhit : new.replaces target old) :
    program.outline.lines =
      Outline.fill old.outline.lines (program.outline.gapped (new.replaces target)) := by
  refine program.outline_faithful.lines_eq_fill fun n hn hn' => ?_
  have hid : n.id = old.id :=
    (Fragment.id_of_replaces hn').trans (Fragment.id_of_replaces hhit).symm
  rw [Outline.eq_of_id_eq distinct hn hold hid]

/-- Replacing puts the lines of the new fragment in the place of those of the old one, and nowhere
else are those lines. -/
theorem exists_around (distinct : (program.nodes.map Node.id).Nodup) {old : Node}
    (hold : old ∈ program.nodes) (hhit : new.replaces target old) :
    (∃ before after, program.outline.lines = before ++ old.outline.lines ++ after ∧
      (program.replace target new).outline.lines = before ++ new.outline.lines ++ after) ∧
      ∀ line ∈ old.outline.lines, some line ∉ program.outline.gapped (new.replaces target) := by
  have hfill := lines_eq_fill distinct hold hhit
  have hne : old.outline.lines ≠ [] := by
    cases old.outline with
    | node item children => exact Outline.lines_node ▸ List.cons_ne_nil _ _
  have hlines : program.outline.lines.Nodup := by
    refine List.Nodup.of_map Prod.fst ?_
    rw [← Outline.ids_eq_map_lines]
    exact distinct
  obtain ⟨before, after, hgapped, hbefore, hafter, hold'⟩ :=
    Outline.exists_eq_append_none_cons (Outline.none_mem_gapped hold hhit) hne (hfill ▸ hlines)
  have hsplit (filling : List (NodeId × Node)) :
      Outline.fill filling (program.outline.gapped (new.replaces target)) =
        Outline.fill [] before ++ filling ++ Outline.fill [] after := by
    rw [hgapped, Outline.fill_of_none_notMem hbefore filling,
      Outline.fill_of_none_notMem hafter filling, List.append_assoc]
    exact List.flatMap_append
  refine ⟨⟨Outline.fill [] before, Outline.fill [] after, ?_, ?_⟩, hold'⟩
  · rw [hfill, hsplit]
  · rw [lines_replace, hsplit]

/-- Replacing what has the lines of the new fragment changes nothing. -/
theorem replace_eq_self
    (h : ∀ n ∈ program.nodes, new.replaces target n → n.outline.lines = new.outline.lines) :
    program.replace target new = program := by
  refine eq_of_lines_eq ?_
  rw [lines_replace, ← program.outline_faithful.lines_eq_fill h]

/-- Replacing puts the old fragment back, when the new one can be told from the nodes around. -/
theorem replace_replace (distinct : (program.nodes.map Node.id).Nodup) {old : Fragment}
    (hold : old.node ∈ program.nodes) (hhit : new.replaces target old.node)
    (happart : ∀ n ∈ program.nodes, old.replaces new.id n → n ∈ old.outline.preorder) :
    (program.replace target new).replace new.id old = program := by
  have hfill := lines_eq_fill distinct hold hhit
  obtain ⟨-, hapart⟩ := exists_around distinct hold hhit
  rw [old.outline_node] at hfill hapart
  have hnew : old.replaces new.id new.outline.item := by
    rw [new.outline_item, Fragment.replaces, new.id_node, decide_eq_true rfl, Bool.true_and,
      old.fits_node_comm]
    exact (Bool.and_eq_true_iff.1 hhit).2
  have haround : ∀ n, some n.line ∈ program.outline.gapped (new.replaces target) →
      old.replaces new.id n = false := by
    intro n hn
    have hmem : n.line ∈ program.outline.lines := hfill ▸ Outline.mem_fill.2 (.inl hn)
    obtain ⟨m, hm, hline⟩ := List.mem_map.1 hmem
    rw [← Fragment.replaces_of_line_eq hline, Bool.eq_false_iff]
    intro hreplaces
    exact hapart n.line (hline ▸ List.mem_map_of_mem (happart m hm hreplaces)) hn
  have hgapped := (program.edits target new).gapped_eq hnew
    (fun _ _ => Fragment.replaces_of_line_eq) haround
  refine eq_of_lines_eq ?_
  rw [lines_replace, hgapped, ← hfill]

/-- Replacing a node changes the lines of its subtree into those of the new fragment, and nothing
else; without a node of the id and of the sort, nothing changes at all. So replacing a node by
itself does nothing, and an edit is undone by replacing the new fragment with the old one, unless
the id of the new one is taken elsewhere. -/
theorem replace_local (distinct : (program.nodes.map Node.id).Nodup) (target : NodeId)
    (new : Fragment) :
    (∀ old ∈ program.nodes, new.replaces target old →
      ∃ before after, program.outline.lines = before ++ old.outline.lines ++ after ∧
        (program.replace target new).outline.lines = before ++ new.outline.lines ++ after) ∧
      ((∀ node ∈ program.nodes, new.replaces target node = false) →
        program.replace target new = program) ∧
      (new.node ∈ program.nodes → program.replace new.id new = program) ∧
      ∀ old : Fragment, old.node ∈ program.nodes → new.replaces target old.node →
        (∀ node ∈ program.nodes, old.replaces new.id node → node ∈ old.outline.preorder) →
          (program.replace target new).replace new.id old = program := by
  refine ⟨fun old hold hhit => (exists_around distinct hold hhit).1, fun hmiss => ?_,
    fun hnew => ?_, fun old hold hhit happart => replace_replace distinct hold hhit happart⟩
  · exact replace_eq_self fun n hn hhit => absurd hhit (Bool.eq_false_iff.1 (hmiss n hn))
  · refine replace_eq_self fun n hn hhit => ?_
    have hid : n.id = new.node.id := (Fragment.id_of_replaces hhit).trans new.id_node.symm
    rw [Outline.eq_of_id_eq distinct hn hnew hid, new.outline_node]

/-- `return f([_])`. -/
def applying : Program :=
  let list : Literal := .array (.ofNat 7) [.placeholder (.ofNat 8)]
  let callee : Expression := .identifier (.ofNat 3) ⟨.ofNat 4, "f", false⟩
  { id := .ofNat 0
    block := [.result (.ofNat 1) (.call (.ofNat 2) callee
      [.argument (.ofNat 5) none (.literal (.ofNat 6) list)])] }

/-- In `return f([_])` the placeholder becomes `x`, and then it is back. -/
theorem replace_local_nested :
    let hole : Fragment := .expression (.placeholder (.ofNat 8))
    let name : Fragment := .expression (.identifier (.ofNat 9) ⟨.ofNat 10, "x", false⟩)
    (∃ before after, applying.outline.lines = before ++ hole.outline.lines ++ after ∧
      (applying.replace (.ofNat 8) name).outline.lines = before ++ name.outline.lines ++ after) ∧
      (applying.replace (.ofNat 8) name).replace (.ofNat 9) hole = applying := by
  intro hole name
  have distinct : (applying.nodes.map Node.id).Nodup := by decide
  have hhole : hole.node ∈ applying.nodes := List.mem_of_getElem? (i := 8) rfl
  have hapart : ∀ node ∈ applying.nodes, hole.replaces name.id node = false := by decide
  obtain ⟨hlocal, -, -, hback⟩ := replace_local distinct (.ofNat 8) name
  exact ⟨hlocal hole.node hhole rfl, hback hole hhole rfl fun node hnode hhit =>
    absurd hhit (Bool.eq_false_iff.1 (hapart node hnode))⟩

end Program

end TreeLang
