import TreeLang.Proofs.Typing.Growth

/-!
# What distinct ids keep apart

Where the ids of an outline are distinct, a visit of a node writes to no expression and to no
pattern of its children, and the walks of two children write to different ones.
-/

namespace TreeLang

/-- The name that a declaration introduces is a child of it. -/
theorem Declaration.mem_ids_of_name {declaration : Declaration} {name : Pattern}
    (h : declaration.name = some name) : name.id ∈ declaration.outline.ids := by
  cases declaration <;> cases h <;> exact List.mem_cons_of_mem _ List.mem_cons_self

/-- What a case declares is its pattern, so it has one of its ids. -/
theorem EnumerationCase.declares_subset (case : EnumerationCase) :
    case.declares ⊆ case.outline.ids := by
  cases case with
  | placeholder id => exact List.nil_subset _
  | case id name forms =>
    intro other hother
    rw [List.mem_singleton.1 hother]
    exact List.mem_cons_of_mem _ List.mem_cons_self

namespace Outline

variable {item : Node} {children : List Outline} {c : Outline}

/-- The ids of a child are ids of the outline. -/
theorem mem_ids_of_mem {id : NodeId} (hc : c ∈ children) (hid : id ∈ c.ids) :
    id ∈ (node item children).ids := by
  rw [ids_node]
  exact List.mem_cons_of_mem _ (List.mem_flatMap.2 ⟨c, hc, hid⟩)

/-- What is declared in a child is declared in the outline. -/
theorem declared_subset_of_mem (hc : c ∈ children) :
    c.declared ⊆ (node item children).declared := by
  intro id hid
  obtain ⟨n, hn, hid⟩ := List.mem_flatMap.1 hid
  exact List.mem_flatMap.2 ⟨n, mem_preorder_node.2 (.inr ⟨c, hc, hn⟩), hid⟩

/-- What is declared at the root is declared in the outline. -/
theorem declares_subset_declared : item.declares ⊆ (node item children).declared := fun _ hid =>
  List.mem_flatMap.2 ⟨item, mem_preorder_node.2 (.inl rfl), hid⟩

/-- Only a function has parameters among its children. -/
theorem item_ne_parameter (hitem : item.functionName = none) (hc : c ∈ item.outline.children)
    (p : Parameter) : c.item ≠ .parameter p := by
  -- all children of a node are listed, and only functions list parameters
  cases item with
  | declaration declaration =>
    cases declaration with
    | function => cases hitem
    | value id name form initializer =>
      cases form <;> cases initializer <;>
        simp [Node.outline, Declaration.outline, Outline.children] at hc <;>
        grind [Pattern.outline_item, TypeForm.outline_item, Expression.outline_item]
    | enumeration | record | space | library | placeholder =>
      simp [Node.outline, Declaration.outline, Outline.children,
        Declaration.outlines_eq_map] at hc <;>
        grind [Pattern.outline_item, GenericParameter.outline_item, EnumerationCase.outline_item,
          Declaration.outline_item]
  | statement statement =>
    cases statement <;>
      simp [Node.outline, Statement.outline, Outline.children,
        Statement.outlines_eq_map] at hc <;>
      grind [Pattern.outline_item, Expression.outline_item, Statement.outline_item,
        Declaration.outline_item]
  | expression expression =>
    cases expression <;>
      simp [Node.outline, Expression.outline, Outline.children, Argument.outlines_eq_map] at hc <;>
      grind [Expression.outline_item, Argument.outline_item, Literal.outline_item,
        Identifier.outline_item]
  | typeForm form =>
    cases form <;>
      simp [Node.outline, TypeForm.outline, Outline.children, TypeForm.outlines_eq_map] at hc <;>
      grind [Identifier.outline_item, TypeForm.outline_item]
  | literal literal =>
    cases literal <;>
      simp [Node.outline, Literal.outline, Outline.children, Expression.outlines_eq_map] at hc
    grind [Expression.outline_item]
  | parameter parameter =>
    cases parameter with
    | placeholder id => cases hc
    | parameter id externalName localName form defaultValue =>
      cases defaultValue <;> simp [Node.outline, Parameter.outline, Outline.children] at hc <;>
        grind [Pattern.outline_item, TypeForm.outline_item, Expression.outline_item]
  | generic generic =>
    cases generic <;> simp [Node.outline, GenericParameter.outline, Outline.children] at hc
    grind [Pattern.outline_item]
  | case case =>
    cases case <;>
      simp [Node.outline, EnumerationCase.outline, Outline.children,
        TypeForm.outlines_eq_map] at hc
    grind [Pattern.outline_item, TypeForm.outline_item]
  | argument argument =>
    cases argument <;> simp [Node.outline, Argument.outline, Outline.children] at hc
    grind [Expression.outline_item]
  | program program =>
    simp [Node.outline, Program.outline, Outline.children, Statement.outlines_eq_map] at hc
    grind [Statement.outline_item]
  | pattern | identifier => cases hc

/-- The parameters among the children of a function are its parameters. -/
theorem mem_parameters_of_item_eq {id : NodeId} {name : Pattern} {result : TypeForm}
    {generics : List GenericParameter} {parameters : List Parameter} {block : List Statement}
    (hc : c ∈ (Node.declaration
      (.function id name result generics parameters block)).outline.children)
    {p : Parameter} (hp : c.item = .parameter p) : p ∈ parameters := by
  simp only [Node.outline, Declaration.outline, Outline.children, Statement.outlines_eq_map,
    List.mem_cons, List.mem_append, List.mem_map] at hc
  rcases hc with rfl | rfl | ⟨x, -, rfl⟩ | ⟨x, hx, rfl⟩ | ⟨x, -, rfl⟩ <;> simp at hp
  exact hp ▸ hx

/-! ## Expressions -/

/-- A visit of a node writes to its own id, and to the id of a literal that is its child. -/
theorem eq_or_eq_of_mem_typed {id : NodeId} (hid : id ∈ item.typed) :
    id = item.id ∨
      ∃ literal : Literal, literal.outline ∈ item.outline.children ∧ id = literal.id := by
  cases item with
  | expression expression =>
    cases expression with
    | literal own literal =>
      rcases List.mem_cons.1 hid with hid | hid
      · exact .inl hid
      · exact .inr ⟨literal, List.mem_cons_self, List.mem_singleton.1 hid⟩
    | binary | identifier | call | member | placeholder => exact .inl (List.mem_singleton.1 hid)
  | _ => cases hid

/-- The nodes that get a type at the root have ids of the outline. -/
theorem typed_subset_ids (root : item.outline = .node item children) :
    item.typed ⊆ (node item children).ids := by
  intro id hid
  rcases eq_or_eq_of_mem_typed hid with rfl | ⟨literal, hliteral, rfl⟩
  · exact List.mem_cons_self
  · rw [root] at hliteral
    exact mem_ids.2 ⟨_, item_mem_preorder_of_mem hliteral, by rw [Literal.outline_item]; rfl⟩

/-- A visit of a node writes to none of the expressions below it. -/
theorem not_mem_typed (root : item.outline = .node item children)
    (distinct : (node item children).ids.Nodup) (hc : c ∈ children) {expression : Expression}
    (hexpression : .expression expression ∈ c.preorder) : expression.id ∉ item.typed := by
  intro hid
  have hbelow : expression.id ∈ children.flatMap ids :=
    List.mem_flatMap.2 ⟨c, hc, mem_ids.2 ⟨_, hexpression, rfl⟩⟩
  rcases eq_or_eq_of_mem_typed hid with heq | ⟨literal, hliteral, heq⟩
  · rw [ids_node, List.nodup_cons] at distinct
    exact distinct.1 (heq ▸ hbelow)
  · -- a literal with the id of the expression would be one node with it
    rw [root] at hliteral
    have hmem : literal.outline.item ∈ (node item children).preorder :=
      item_mem_preorder_of_mem hliteral
    rw [Literal.outline_item] at hmem
    cases eq_of_id_eq distinct (mem_preorder_node.2 (.inr ⟨c, hc, hexpression⟩)) hmem heq

/-! ## Patterns -/

/-- The pattern that belongs to an open node is its first child. -/
theorem declares_eq_nil_or (hopen : item.isClosed = false) : item.declares = [] ∨
    ∃ (name : Pattern) (rest : List Outline),
      item.outline.children = name.outline :: rest ∧ item.declares = [name.id] := by
  cases item with
  | declaration declaration =>
    cases declaration with
    | value | function => exact .inr ⟨_, _, rfl, rfl⟩
    | record | enumeration => cases hopen
    | space | library | placeholder => exact .inl rfl
  | statement statement =>
    cases statement with
    | loop => exact .inr ⟨_, _, rfl, rfl⟩
    | declaration | branch | expression | result | placeholder => exact .inl rfl
  | parameter parameter =>
    cases parameter with
    | parameter => exact .inr ⟨_, _, rfl, rfl⟩
    | placeholder => exact .inl rfl
  | _ => exact .inl rfl

/-- The patterns that belong to a node are below it. -/
theorem declares_subset_ids : item.declares ⊆ item.outline.ids := by
  intro id hid
  -- a node's patterns are its name, or the names of the members and cases that are right below it
  cases item with
  | declaration declaration =>
    cases declaration with
    | value | function =>
      rw [List.mem_singleton.1 hid]
      exact List.mem_cons_of_mem _ List.mem_cons_self
    | record own name generics declarations =>
      rcases List.mem_cons.1 hid with rfl | hid
      · exact List.mem_cons_of_mem _ List.mem_cons_self
      · obtain ⟨pattern, hpattern, rfl⟩ := List.mem_map.1 hid
        obtain ⟨member, hmember, hname⟩ := List.mem_filterMap.1 hpattern
        refine mem_ids_of_mem (List.mem_cons_of_mem _ (List.mem_append_right _ ?_))
          (Declaration.mem_ids_of_name hname)
        rw [Declaration.outlines_eq_map]
        exact List.mem_map_of_mem hmember
    | enumeration own name generics cases =>
      obtain ⟨case, hcase, hid⟩ := List.mem_flatMap.1 hid
      exact mem_ids_of_mem (List.mem_cons_of_mem _ (List.mem_append_right _
        (List.mem_map_of_mem hcase))) (case.declares_subset hid)
    | space | library | placeholder => cases hid
  | statement statement =>
    cases statement with
    | loop =>
      rw [List.mem_singleton.1 hid]
      exact List.mem_cons_of_mem _ List.mem_cons_self
    | declaration | branch | expression | result | placeholder => cases hid
  | parameter parameter =>
    cases parameter with
    | parameter =>
      rw [List.mem_singleton.1 hid]
      exact List.mem_cons_of_mem _ List.mem_cons_self
    | placeholder => cases hid
  | _ => cases hid

/-- The patterns that belong to the nodes of an outline are nodes of it. -/
theorem Faithful.declared_subset_ids {outline : Outline} (h : outline.Faithful) :
    outline.declared ⊆ outline.ids := by
  induction h with
  | @node item children root below ih =>
    intro id hid
    obtain ⟨n, hn, hdeclares⟩ := List.mem_flatMap.1 hid
    rcases mem_preorder_node.1 hn with rfl | ⟨c, hc, hn⟩
    · exact root ▸ declares_subset_ids hdeclares
    · exact mem_ids_of_mem hc (ih c hc (List.mem_flatMap.2 ⟨n, hn, hdeclares⟩))

/-- What is declared in faithful outlines has ids of theirs. -/
theorem flatMap_declared_subset_ids {outlines : List Outline} (h : ∀ c ∈ outlines, c.Faithful) :
    outlines.flatMap declared ⊆ outlines.flatMap ids := by
  intro id hid
  obtain ⟨c, hc, hid⟩ := List.mem_flatMap.1 hid
  exact List.mem_flatMap.2 ⟨c, hc, (h c hc).declared_subset_ids hid⟩

/-- The patterns of the parameters of a function are below it. -/
theorem parameters_declares_subset {id : NodeId} {name : Pattern} {result : TypeForm}
    {generics : List GenericParameter} {parameters : List Parameter} {block : List Statement} :
    parameters.flatMap Parameter.declares ⊆
      (Declaration.function id name result generics parameters block).outline.declared := by
  intro other hother
  obtain ⟨parameter, hparameter, hother⟩ := List.mem_flatMap.1 hother
  have hmem : parameter.outline ∈ name.outline :: result.outline ::
      (generics.map GenericParameter.outline ++
        (parameters.map Parameter.outline ++ Statement.outlines block)) :=
    List.mem_cons_of_mem _ (List.mem_cons_of_mem _ (List.mem_append_right _
      (List.mem_append_left _ (List.mem_map_of_mem hparameter))))
  refine declared_subset_of_mem hmem (List.mem_flatMap.2 ⟨_, item_mem_preorder _, ?_⟩)
  rwa [Parameter.outline_item]

/-- A visit of an open node writes to none of the patterns that belong to nodes below it. -/
theorem not_mem_declared (root : item.outline = .node item children)
    (below : ∀ c ∈ children, c.Faithful) (distinct : (node item children).ids.Nodup)
    (hopen : item.isClosed = false) (hc : c ∈ children) {id : NodeId} (hid : id ∈ item.declares) :
    id ∉ c.declared := by
  rcases declares_eq_nil_or hopen with hnil | ⟨name, rest, hchildren, hname⟩
  · rw [hnil] at hid
    cases hid
  · -- the pattern is the first child, so its id is in no other one
    rw [root] at hchildren
    obtain rfl : children = name.outline :: rest := hchildren
    rw [hname, List.mem_singleton] at hid
    subst hid
    rcases List.mem_cons.1 hc with rfl | hrest
    · exact List.not_mem_nil
    · intro hdeclared
      rw [ids_node, List.nodup_cons, List.flatMap_cons] at distinct
      have hdisjoint := List.disjoint_of_nodup_append distinct.2
      exact hdisjoint List.mem_cons_self
        (List.mem_flatMap.2 ⟨c, hrest, (below c hc).declared_subset_ids hdeclared⟩)

end Outline

end TreeLang
