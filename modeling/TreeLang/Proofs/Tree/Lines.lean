import TreeLang.Proofs.Tree.Outline

/-!
# Trees line by line

A node alone says of what sort it is, how many nodes of each sort are right below it, and what is
written in it besides: names, labels, values and operators. Together with its id this is its line.
The lines of a tree, each before those of the nodes below it, determine the tree: a line tells how
many subtrees follow, and what they are tells the rest.
-/

namespace TreeLang

/-! ## Nodes alone -/

/-- The id of a node that stands alone. -/
def NodeId.blank : NodeId := IdSupply.start.peek

open NodeId (blank)

/-- The pattern that stands for the patterns below a node. -/
def Pattern.blank : Pattern := ⟨.blank, ""⟩

/-- The identifier that stands for the identifiers below a node. -/
def Identifier.blank : Identifier := ⟨.blank, "", false⟩

/-- A written type alone. -/
def TypeForm.bare : TypeForm → TypeForm
  | .named _ _ arguments => .named blank .blank (arguments.map fun _ => .placeholder blank)
  | .function _ _ parameters =>
    .function blank (.placeholder blank) (parameters.map fun _ => .placeholder blank)
  | .placeholder _ => .placeholder blank

/-- An expression alone. -/
def Expression.bare : Expression → Expression
  | .binary _ _ _ operator => .binary blank (.placeholder blank) (.placeholder blank) operator
  | .identifier _ _ => .identifier blank .blank
  | .call _ _ arguments =>
    .call blank (.placeholder blank) (arguments.map fun _ => .placeholder blank)
  | .literal _ _ => .literal blank (.none blank)
  | .member _ _ _ => .member blank (.placeholder blank) .blank
  | .placeholder _ => .placeholder blank

/-- An argument alone. -/
def Argument.bare : Argument → Argument
  | .argument _ label _ => .argument blank label (.placeholder blank)
  | .placeholder _ => .placeholder blank

/-- A literal alone. -/
def Literal.bare : Literal → Literal
  | .none _ => .none blank
  | .boolean _ value => .boolean blank value
  | .number _ value => .number blank value
  | .string _ value => .string blank value
  | .color _ value => .color blank value
  | .array _ items => .array blank (items.map fun _ => .placeholder blank)

/-- A parameter alone. -/
def Parameter.bare : Parameter → Parameter
  | .parameter _ externalName _ _ defaultValue =>
    .parameter blank externalName .blank (.placeholder blank)
      (defaultValue.map fun _ => .placeholder blank)
  | .placeholder _ => .placeholder blank

/-- A type parameter alone. -/
def GenericParameter.bare : GenericParameter → GenericParameter
  | .parameter _ _ => .parameter blank .blank
  | .placeholder _ => .placeholder blank

/-- A case alone. -/
def EnumerationCase.bare : EnumerationCase → EnumerationCase
  | .case _ _ forms => .case blank .blank (forms.map fun _ => .placeholder blank)
  | .placeholder _ => .placeholder blank

/-- A statement alone. -/
def Statement.bare : Statement → Statement
  | .declaration _ _ => .declaration blank (.placeholder blank)
  | .branch _ _ block =>
    .branch blank (.placeholder blank) (block.map fun _ => .placeholder blank)
  | .loop _ _ _ block =>
    .loop blank .blank (.placeholder blank) (block.map fun _ => .placeholder blank)
  | .expression _ _ => .expression blank (.placeholder blank)
  | .result _ _ => .result blank (.placeholder blank)
  | .placeholder _ => .placeholder blank

/-- A declaration alone. -/
def Declaration.bare : Declaration → Declaration
  | .value _ _ form initializer =>
    .value blank .blank (form.map fun _ => .placeholder blank)
      (initializer.map fun _ => .placeholder blank)
  | .function _ _ _ generics parameters block =>
    .function blank .blank (.placeholder blank) (generics.map fun _ => .placeholder blank)
      (parameters.map fun _ => .placeholder blank) (block.map fun _ => .placeholder blank)
  | .enumeration _ _ generics cases =>
    .enumeration blank .blank (generics.map fun _ => .placeholder blank)
      (cases.map fun _ => .placeholder blank)
  | .record _ _ generics declarations =>
    .record blank .blank (generics.map fun _ => .placeholder blank)
      (declarations.map fun _ => .placeholder blank)
  | .space _ _ declarations =>
    .space blank .blank (declarations.map fun _ => .placeholder blank)
  | .library _ _ => .library blank .blank
  | .placeholder _ => .placeholder blank

/-- A program alone. -/
def Program.bare (program : Program) : Program :=
  ⟨blank, program.block.map fun _ => .placeholder blank⟩

/-- A node alone: what it says besides its id and what is said below it. -/
def Node.bare : Node → Node
  | .program p => .program p.bare
  | .statement s => .statement s.bare
  | .declaration d => .declaration d.bare
  | .expression e => .expression e.bare
  | .pattern p => .pattern { p with id := blank }
  | .identifier i => .identifier { i with id := blank }
  | .typeForm a => .typeForm a.bare
  | .literal l => .literal l.bare
  | .parameter p => .parameter p.bare
  | .generic g => .generic g.bare
  | .case c => .case c.bare
  | .argument a => .argument a.bare

/-- The line of a node: its id, and the node alone. -/
def Node.line (node : Node) : NodeId × Node := (node.id, node.bare)

/-! ## Lines -/

namespace Outline

/-- The lines of an outline, each before those below it. -/
def lines (outline : Outline) : List (NodeId × Node) := outline.preorder.map Node.line

/-- The lines of an outline are that of its root and those of its children. -/
theorem lines_node {item : Node} {children : List Outline} :
    (node item children).lines = item.line :: children.flatMap lines := by
  rw [lines, preorder, preorders_eq_flatMap, List.map_cons, List.map_flatMap]
  rfl

/-- The ids of an outline stand in its lines. -/
theorem ids_eq_map_lines (outline : Outline) : outline.ids = outline.lines.map Prod.fst := by
  rw [lines, List.map_map]
  rfl

end Outline

/-! ## What a line tells -/

/-- A pattern is known by its outline, because it is the node at the root. -/
theorem Pattern.outline_injective : Function.Injective Pattern.outline := fun a b h =>
  Node.pattern.inj (by rw [← a.outline_item, h, b.outline_item])

theorem Identifier.outline_injective : Function.Injective Identifier.outline := fun a b h =>
  Node.identifier.inj (by rw [← a.outline_item, h, b.outline_item])

theorem TypeForm.outline_injective : Function.Injective TypeForm.outline := fun a b h =>
  Node.typeForm.inj (by rw [← a.outline_item, h, b.outline_item])

/-- An expression is known by its outline. -/
theorem Expression.outline_injective : Function.Injective Expression.outline := fun a b h =>
  Node.expression.inj (by rw [← a.outline_item, h, b.outline_item])

theorem Argument.outline_injective : Function.Injective Argument.outline := fun a b h =>
  Node.argument.inj (by rw [← a.outline_item, h, b.outline_item])

theorem Literal.outline_injective : Function.Injective Literal.outline := fun a b h =>
  Node.literal.inj (by rw [← a.outline_item, h, b.outline_item])

theorem Parameter.outline_injective : Function.Injective Parameter.outline := fun a b h =>
  Node.parameter.inj (by rw [← a.outline_item, h, b.outline_item])

theorem GenericParameter.outline_injective : Function.Injective GenericParameter.outline :=
  fun a b h => Node.generic.inj (by rw [← a.outline_item, h, b.outline_item])

theorem EnumerationCase.outline_injective : Function.Injective EnumerationCase.outline :=
  fun a b h => Node.case.inj (by rw [← a.outline_item, h, b.outline_item])

/-- A statement is known by its outline. -/
theorem Statement.outline_injective : Function.Injective Statement.outline := fun a b h =>
  Node.statement.inj (by rw [← a.outline_item, h, b.outline_item])

/-- A declaration is known by its outline. -/
theorem Declaration.outline_injective : Function.Injective Declaration.outline := fun a b h =>
  Node.declaration.inj (by rw [← a.outline_item, h, b.outline_item])

/-- A node alone keeps a place for each node right below. -/
theorem Node.length_children_bare (node : Node) :
    node.bare.outline.children.length = node.outline.children.length := by
  -- alone, a node has placeholders where it had children, as many as there were
  cases node with
  | program p => simp [bare, outline, Program.bare, Program.outline, Outline.children,
      Statement.outlines_eq_map]
  | statement s => cases s <;> simp [bare, outline, Statement.bare, Statement.outline,
      Outline.children, Statement.outlines_eq_map]
  | declaration d =>
    cases d with
    | value id name form initializer => cases form <;> cases initializer <;> rfl
    | _ => simp [bare, outline, Declaration.bare, Declaration.outline, Outline.children,
        Statement.outlines_eq_map, Declaration.outlines_eq_map]
  | expression e => cases e <;> simp [bare, outline, Expression.bare, Expression.outline,
      Outline.children, Argument.outlines_eq_map]
  | pattern p => rfl
  | identifier i => rfl
  | typeForm a => cases a <;> simp [bare, outline, TypeForm.bare, TypeForm.outline,
      Outline.children, TypeForm.outlines_eq_map]
  | literal l => cases l <;> simp [bare, outline, Literal.bare, Literal.outline,
      Outline.children, Expression.outlines_eq_map]
  | parameter p =>
    cases p with
    | parameter id externalName localName form defaultValue => cases defaultValue <;> rfl
    | placeholder id => rfl
  | generic g => cases g <;> rfl
  | case c => cases c <;> simp [bare, outline, EnumerationCase.bare, EnumerationCase.outline,
      Outline.children, TypeForm.outlines_eq_map]
  | argument a => cases a <;> rfl

/-! ### Nodes with one line and the same subtrees right below -/

section

variable {α β : Type} {c : β} {outline : α → Outline}

/-- Lists whose items leave the same are of one length, and so are their outlines. -/
theorem length_map_outline_eq {as bs : List α}
    (h : as.map (fun _ => c) = bs.map fun _ => c) :
    (as.map outline).length = (bs.map outline).length := by
  simpa using congrArg List.length h

/-- Options whose contents leave the same are both there or both missing. -/
theorem length_toList_outline_eq {oa ob : Option α}
    (h : oa.map (fun _ => c) = ob.map fun _ => c) :
    (oa.map outline).toList.length = (ob.map outline).toList.length := by
  cases oa <;> cases ob <;> first | rfl | cases h

/-- An option is known by the outline of its content. -/
theorem eq_of_toList_outline_eq (hinj : Function.Injective outline) {oa ob : Option α}
    (h : (oa.map outline).toList = (ob.map outline).toList) : oa = ob := by
  cases oa <;> cases ob
  · rfl
  · cases h
  · cases h
  · exact congrArg some (hinj (List.cons.inj h).1)

end

/-- A type is known by its line and its subtrees. -/
theorem TypeForm.eq_of_line_eq {a b : TypeForm}
    (hline : (Node.typeForm a).line = (Node.typeForm b).line)
    (hchildren : a.outline.children = b.outline.children) : a = b := by
  cases a <;> cases b <;>
    simp_all [Node.line, Node.bare, TypeForm.bare, Node.id, TypeForm.id, TypeForm.outline,
      Outline.children, outlines_eq_map, List.map_inj_right, outline_injective.eq_iff,
      Identifier.outline_injective.eq_iff]

/-- An expression is known by its line and its subtrees. -/
theorem Expression.eq_of_line_eq {a b : Expression}
    (hline : (Node.expression a).line = (Node.expression b).line)
    (hchildren : a.outline.children = b.outline.children) : a = b := by
  cases a <;> cases b <;>
    simp_all [Node.line, Node.bare, Expression.bare, Node.id, Expression.id, Expression.outline,
      Outline.children, Argument.outlines_eq_map, List.map_inj_right, outline_injective.eq_iff,
      Argument.outline_injective.eq_iff, Literal.outline_injective.eq_iff,
      Identifier.outline_injective.eq_iff]

/-- An argument is known by its line and its subtrees. -/
theorem Argument.eq_of_line_eq {a b : Argument}
    (hline : (Node.argument a).line = (Node.argument b).line)
    (hchildren : a.outline.children = b.outline.children) : a = b := by
  cases a <;> cases b <;>
    simp_all [Node.line, Node.bare, Argument.bare, Node.id, Argument.id, Argument.outline,
      Outline.children, Expression.outline_injective.eq_iff]

/-- A literal is known by its line and its subtrees. -/
theorem Literal.eq_of_line_eq {a b : Literal}
    (hline : (Node.literal a).line = (Node.literal b).line)
    (hchildren : a.outline.children = b.outline.children) : a = b := by
  cases a <;> cases b <;>
    simp_all [Node.line, Node.bare, Literal.bare, Node.id, Literal.id, Literal.outline,
      Outline.children, Expression.outlines_eq_map, List.map_inj_right,
      Expression.outline_injective.eq_iff]

/-- A parameter is known by its line and its subtrees. -/
theorem Parameter.eq_of_line_eq {a b : Parameter}
    (hline : (Node.parameter a).line = (Node.parameter b).line)
    (hchildren : a.outline.children = b.outline.children) : a = b := by
  obtain ⟨hid, hbare⟩ := Prod.mk.inj hline
  replace hbare := Node.parameter.inj hbare
  cases a with
  | parameter id externalName localName form defaultValue =>
    cases b with
    | parameter id' externalName' localName' form' defaultValue' =>
      obtain ⟨-, hexternal, -⟩ := Parameter.parameter.inj hbare
      obtain ⟨hname, hbelow⟩ := List.cons.inj hchildren
      obtain ⟨hform, hvalue⟩ := List.cons.inj hbelow
      exact (Parameter.parameter.injEq ..).mpr ⟨hid, hexternal, Pattern.outline_injective hname,
        TypeForm.outline_injective hform,
        eq_of_toList_outline_eq Expression.outline_injective hvalue⟩
    | placeholder id' => cases hbare
  | placeholder id =>
    cases b with
    | parameter id' externalName' localName' form' defaultValue' => cases hbare
    | placeholder id' => exact congrArg Parameter.placeholder hid

/-- A generic parameter is known by its line and its subtrees. -/
theorem GenericParameter.eq_of_line_eq {a b : GenericParameter}
    (hline : (Node.generic a).line = (Node.generic b).line)
    (hchildren : a.outline.children = b.outline.children) : a = b := by
  cases a <;> cases b <;>
    simp_all [Node.line, Node.bare, GenericParameter.bare, Node.id, GenericParameter.id,
      GenericParameter.outline, Outline.children, Pattern.outline_injective.eq_iff]

/-- A case is known by its line and its subtrees. -/
theorem EnumerationCase.eq_of_line_eq {a b : EnumerationCase}
    (hline : (Node.case a).line = (Node.case b).line)
    (hchildren : a.outline.children = b.outline.children) : a = b := by
  cases a <;> cases b <;>
    simp_all [Node.line, Node.bare, EnumerationCase.bare, Node.id, EnumerationCase.id,
      EnumerationCase.outline, Outline.children, TypeForm.outlines_eq_map, List.map_inj_right,
      TypeForm.outline_injective.eq_iff, Pattern.outline_injective.eq_iff]

/-- A statement is known by its line and its subtrees. -/
theorem Statement.eq_of_line_eq {a b : Statement}
    (hline : (Node.statement a).line = (Node.statement b).line)
    (hchildren : a.outline.children = b.outline.children) : a = b := by
  cases a <;> cases b <;>
    simp_all [Node.line, Node.bare, Statement.bare, Node.id, Statement.id, Statement.outline,
      Outline.children, outlines_eq_map, List.map_inj_right, outline_injective.eq_iff,
      Declaration.outline_injective.eq_iff, Expression.outline_injective.eq_iff,
      Pattern.outline_injective.eq_iff]

/-- A declaration is known by its line and its subtrees. -/
theorem Declaration.eq_of_line_eq {a b : Declaration}
    (hline : (Node.declaration a).line = (Node.declaration b).line)
    (hchildren : a.outline.children = b.outline.children) : a = b := by
  obtain ⟨hid, hbare⟩ := Prod.mk.inj hline
  replace hbare := Node.declaration.inj hbare
  -- where several lists follow each other below, the places in the node tell them apart
  cases a with
  | value id name form initializer =>
    cases b with
    | value id' name' form' initializer' =>
      obtain ⟨-, -, hform, -⟩ := Declaration.value.inj hbare
      obtain ⟨hname, hbelow⟩ := List.cons.inj hchildren
      obtain ⟨hforms, hinitializer⟩ := List.append_inj hbelow (length_toList_outline_eq hform)
      exact (Declaration.value.injEq ..).mpr ⟨hid, Pattern.outline_injective hname,
        eq_of_toList_outline_eq TypeForm.outline_injective hforms,
        eq_of_toList_outline_eq Expression.outline_injective hinitializer⟩
    | _ => cases hbare
  | function id name result generics parameters block =>
    cases b with
    | function id' name' result' generics' parameters' block' =>
      obtain ⟨-, -, -, hgenerics, hparameters, -⟩ := Declaration.function.inj hbare
      obtain ⟨hname, hbelow⟩ := List.cons.inj hchildren
      obtain ⟨hresult, hlists⟩ := List.cons.inj hbelow
      obtain ⟨hgenerics', hrest⟩ := List.append_inj hlists (length_map_outline_eq hgenerics)
      obtain ⟨hparameters', hblock⟩ := List.append_inj hrest (length_map_outline_eq hparameters)
      rw [Statement.outlines_eq_map, Statement.outlines_eq_map] at hblock
      exact (Declaration.function.injEq ..).mpr ⟨hid, Pattern.outline_injective hname,
        TypeForm.outline_injective hresult,
        GenericParameter.outline_injective.list_map hgenerics',
        Parameter.outline_injective.list_map hparameters',
        Statement.outline_injective.list_map hblock⟩
    | _ => cases hbare
  | enumeration id name generics cases =>
    cases b with
    | enumeration id' name' generics' cases' =>
      obtain ⟨-, -, hgenerics, -⟩ := Declaration.enumeration.inj hbare
      obtain ⟨hname, hbelow⟩ := List.cons.inj hchildren
      obtain ⟨hgenerics', hcases⟩ := List.append_inj hbelow (length_map_outline_eq hgenerics)
      exact (Declaration.enumeration.injEq ..).mpr ⟨hid, Pattern.outline_injective hname,
        GenericParameter.outline_injective.list_map hgenerics',
        EnumerationCase.outline_injective.list_map hcases⟩
    | _ => cases hbare
  | record id name generics declarations =>
    cases b with
    | record id' name' generics' declarations' =>
      obtain ⟨-, -, hgenerics, -⟩ := Declaration.record.inj hbare
      obtain ⟨hname, hbelow⟩ := List.cons.inj hchildren
      obtain ⟨hgenerics', hmembers⟩ := List.append_inj hbelow (length_map_outline_eq hgenerics)
      rw [outlines_eq_map, outlines_eq_map] at hmembers
      exact (Declaration.record.injEq ..).mpr ⟨hid, Pattern.outline_injective hname,
        GenericParameter.outline_injective.list_map hgenerics',
        outline_injective.list_map hmembers⟩
    | _ => cases hbare
  | space id name declarations =>
    cases b with
    | space id' name' declarations' =>
      obtain ⟨hname, hmembers⟩ := List.cons.inj hchildren
      rw [outlines_eq_map, outlines_eq_map] at hmembers
      exact (Declaration.space.injEq ..).mpr
        ⟨hid, Pattern.outline_injective hname, outline_injective.list_map hmembers⟩
    | _ => cases hbare
  | library id name =>
    cases b with
    | library id' name' =>
      obtain ⟨hname, -⟩ := List.cons.inj hchildren
      exact (Declaration.library.injEq ..).mpr ⟨hid, Pattern.outline_injective hname⟩
    | _ => cases hbare
  | placeholder id =>
    cases b with
    | placeholder id' => exact congrArg Declaration.placeholder hid
    | _ => cases hbare

/-- What is right below a node tells all that its line does not. -/
theorem Node.eq_of_line_eq {m n : Node} (hline : m.line = n.line)
    (hchildren : m.outline.children = n.outline.children) : m = n := by
  -- a line tells the kind of its node, and by kind the parts that are below it are in the children
  cases m with
  | program p =>
    -- the outlines of a block determine its statements
    cases n with
    | program q =>
      obtain ⟨hid, -⟩ := Prod.mk.inj hline
      have hblock : Statement.outlines p.block = Statement.outlines q.block := hchildren
      rw [Statement.outlines_eq_map, Statement.outlines_eq_map] at hblock
      exact congrArg Node.program
        ((Program.mk.injEq ..).mpr ⟨hid, Statement.outline_injective.list_map hblock⟩)
    | _ => cases (Prod.mk.inj hline).2
  | statement s =>
    cases n with
    | statement s' => rw [Statement.eq_of_line_eq hline hchildren]
    | _ => cases (Prod.mk.inj hline).2
  | declaration d =>
    cases n with
    | declaration d' => rw [Declaration.eq_of_line_eq hline hchildren]
    | _ => cases (Prod.mk.inj hline).2
  | expression e =>
    cases n with
    | expression e' => rw [Expression.eq_of_line_eq hline hchildren]
    | _ => cases (Prod.mk.inj hline).2
  | pattern p =>
    cases n with
    | pattern p' =>
      obtain ⟨hid, hbare⟩ := Prod.mk.inj hline
      obtain ⟨-, hname⟩ := Pattern.mk.inj (Node.pattern.inj hbare)
      exact congrArg Node.pattern ((Pattern.mk.injEq ..).mpr ⟨hid, hname⟩)
    | _ => cases (Prod.mk.inj hline).2
  | identifier i =>
    cases n with
    | identifier i' =>
      obtain ⟨hid, hbare⟩ := Prod.mk.inj hline
      obtain ⟨-, hname, hplaceholder⟩ := Identifier.mk.inj (Node.identifier.inj hbare)
      exact congrArg Node.identifier ((Identifier.mk.injEq ..).mpr ⟨hid, hname, hplaceholder⟩)
    | _ => cases (Prod.mk.inj hline).2
  | typeForm a =>
    cases n with
    | typeForm a' => rw [TypeForm.eq_of_line_eq hline hchildren]
    | _ => cases (Prod.mk.inj hline).2
  | literal l =>
    cases n with
    | literal l' => rw [Literal.eq_of_line_eq hline hchildren]
    | _ => cases (Prod.mk.inj hline).2
  | parameter p =>
    cases n with
    | parameter p' => rw [Parameter.eq_of_line_eq hline hchildren]
    | _ => cases (Prod.mk.inj hline).2
  | generic g =>
    cases n with
    | generic g' => rw [GenericParameter.eq_of_line_eq hline hchildren]
    | _ => cases (Prod.mk.inj hline).2
  | case c =>
    cases n with
    | case c' => rw [EnumerationCase.eq_of_line_eq hline hchildren]
    | _ => cases (Prod.mk.inj hline).2
  | argument a =>
    cases n with
    | argument a' => rw [Argument.eq_of_line_eq hline hchildren]
    | _ => cases (Prod.mk.inj hline).2

/-! ## Trees can be read back -/

namespace Outline

variable {outline outline' : Outline} {outlines outlines' : List Outline}
  {rest rest' : List (NodeId × Node)}

/-- Of several trees, one has to know how many they are. -/
theorem eq_of_flatMap_lines_eq
    (hread : ∀ c ∈ outlines, ∀ {c' : Outline} {rest rest' : List (NodeId × Node)}, c'.Faithful →
      c.lines ++ rest = c'.lines ++ rest' → c = c' ∧ rest = rest')
    (hfaithful : ∀ c ∈ outlines', c.Faithful) (hlength : outlines.length = outlines'.length)
    (h : outlines.flatMap lines ++ rest = outlines'.flatMap lines ++ rest') :
    outlines = outlines' ∧ rest = rest' := by
  induction outlines generalizing outlines' with
  | nil =>
    obtain rfl := List.length_eq_zero_iff.1 hlength.symm
    exact ⟨rfl, h⟩
  | cons c outlines ih =>
    obtain ⟨c', outlines', rfl⟩ := List.exists_cons_of_length_eq_add_one hlength.symm
    obtain ⟨hfirst, hreads⟩ := List.forall_mem_cons.1 hread
    obtain ⟨hfaithful', hfaithfuls⟩ := List.forall_mem_cons.1 hfaithful
    have hlengths : outlines.length = outlines'.length := Nat.succ.inj hlength
    rw [List.flatMap_cons, List.flatMap_cons, List.append_assoc, List.append_assoc] at h
    obtain ⟨hc, hothers⟩ := hfirst hfaithful' h
    obtain ⟨hall, hend⟩ := ih hreads hfaithfuls hlengths hothers
    exact ⟨by rw [hc, hall], hend⟩

/-- Whatever lines follow those of a tree, one can tell where they start, and the tree. -/
theorem Faithful.eq_of_lines_eq (h : outline.Faithful) (h' : outline'.Faithful)
    (hlines : outline.lines ++ rest = outline'.lines ++ rest') :
    outline = outline' ∧ rest = rest' := by
  induction h generalizing outline' rest rest' with
  | @node item children root below ih =>
    cases h' with
    | @node item' children' root' below' =>
      rw [lines_node, lines_node, List.cons_append, List.cons_append, List.cons_eq_cons] at hlines
      obtain ⟨hline, hbelow⟩ := hlines
      have hlength : children.length = children'.length := by
        rw [← children_of_root root, ← children_of_root root', ← item.length_children_bare,
          ← item'.length_children_bare, (Prod.mk.inj hline).2]
      obtain ⟨rfl, hrest⟩ := eq_of_flatMap_lines_eq (fun c hc => ih c hc) below' hlength hbelow
      have hitem : item = item' := Node.eq_of_line_eq hline
        ((children_of_root root).trans (children_of_root root').symm)
      rw [hitem]
      exact ⟨rfl, hrest⟩

end Outline

/-- A program is determined by its lines. -/
theorem Program.eq_of_lines_eq {p q : Program} (h : p.outline.lines = q.outline.lines) :
    p = q := by
  obtain ⟨houtline, -⟩ := p.outline_faithful.eq_of_lines_eq q.outline_faithful
    (congrArg (· ++ []) h)
  exact Node.program.inj (congrArg Outline.item houtline)

end TreeLang
