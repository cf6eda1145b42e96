import TreeLang.Proofs.Tree.Renumbering
import TreeLang.Tree.Builder

/-!
# What builders draw

A builder draws the ids of its own nodes from the supply, each id once and in order, and the rest of
what it makes are the pieces that it is given. So the ids of a tree are those that its builder
draws, and those of the pieces.
-/

namespace TreeLang

/-! ## Supplies -/

namespace IdSupply

/-- The next ids of a supply. -/
def upcoming (ids : IdSupply) : Nat → List NodeId
  | 0 => []
  | n + 1 => ids.peek :: ids.fresh.2.upcoming n

/-- The supply after it has handed out some ids. -/
def skip (ids : IdSupply) : Nat → IdSupply
  | 0 => ids
  | n + 1 => ids.fresh.2.skip n

/-- Skipping ids can be done in two steps. -/
theorem skip_add (ids : IdSupply) (m n : Nat) : ids.skip (m + n) = (ids.skip m).skip n := by
  induction m generalizing ids with
  | zero => rw [Nat.zero_add, skip]
  | succ m ih => rw [Nat.succ_add, skip, ih, skip]

/-- The ids that come next are the first ones of them and those that come after these. -/
theorem upcoming_add (ids : IdSupply) (m n : Nat) :
    ids.upcoming (m + n) = ids.upcoming m ++ (ids.skip m).upcoming n := by
  induction m generalizing ids with
  | zero => rw [Nat.zero_add, upcoming, skip, List.nil_append]
  | succ m ih => rw [Nat.succ_add, upcoming, ih, upcoming, skip, List.cons_append]

/-- The ids that come next are those that a renumbering would give out. -/
theorem upcoming_eq_renumberList (olds : List NodeId) (ids : IdSupply) :
    ids.upcoming olds.length = (renumberList assign olds ids).1 := by
  induction olds generalizing ids with
  | nil => rfl
  | cons old rest ih =>
    rw [List.length_cons, upcoming, ih, renumberList_cons]
    rfl

/-- Until the largest id has been handed out, no id is handed out twice. -/
theorem nodup_upcoming {ids : IdSupply} {n : Nat} (h : n ≤ ids.remaining + 1) :
    (ids.upcoming n).Nodup := by
  have hlength : (List.replicate n ids.peek).length = n := List.length_replicate
  obtain ⟨hvalues, -⟩ := renumberList_assign (List.replicate n ids.peek) (hlength.symm ▸ h)
  rw [← upcoming_eq_renumberList, hlength] at hvalues
  exact .of_map NodeId.value (hvalues ▸ List.nodup_range')

/-- The ids that are handed out do not fall below the next one. -/
theorem le_of_mem_upcoming {ids : IdSupply} {n : Nat} {id : NodeId} (h : id ∈ ids.upcoming n) :
    ids.peek.value ≤ id.value := by
  induction n generalizing ids with
  | zero => cases h
  | succ n ih =>
    rcases List.mem_cons.1 h with rfl | hrest
    · exact Nat.le_refl _
    · have hnext := ids.fresh_peek
      have hlast := ids.peek.value_le_last
      have hle := ih hrest
      omega

end IdSupply

/-! ## Computations that draw ids -/

namespace Build

open scoped List

variable {α β : Type} {m n : Nat}

/-- A computation that draws ids: what it makes has these and the given ones. -/
structure Draws (build : Build α) (count : Nat) (idsOf : α → List NodeId) (given : List NodeId) :
    Prop where
  supply_eq : ∀ ids, (build ids).2 = ids.skip count
  ids_perm : ∀ ids, (idsOf (build ids).1).Perm (ids.upcoming count ++ given)

/-- A computation that makes trees: their ids are drawn, or they are those of the given trees. -/
def Makes (build : Build α) (count : Nat) (outlines : α → List Outline) (given : List Outline) :
    Prop :=
  Draws build count (fun a => (outlines a).flatMap Outline.ids) (given.flatMap Outline.ids)

variable {outlines : α → List Outline} {given : List Outline}

/-- A computation after another one is given what that one makes, beside what is given to it. -/
theorem Makes.bind {build : Build α} {next : α → Build β} {outlines' : β → List Outline}
    {given' : List Outline} (h : Makes build m outlines given)
    (h' : ∀ a, Makes (next a) n outlines' (outlines a ++ given')) :
    Makes (build >>= next) (m + n) outlines' (given ++ given') where
  supply_eq ids := by
    change (next (build ids).1 (build ids).2).2 = _
    rw [(h' _).supply_eq, h.supply_eq, ids.skip_add]
  ids_perm ids := by
    have hnext := (h' (build ids).1).ids_perm (build ids).2
    have hfirst := (h.ids_perm ids).append_right (given'.flatMap Outline.ids)
    change ((outlines' (next (build ids).1 (build ids).2).1).flatMap Outline.ids).Perm _
    rw [h.supply_eq, List.flatMap_append] at hnext
    rw [h.supply_eq, ids.upcoming_add, List.flatMap_append]
    calc (outlines' (next (build ids).1 (ids.skip m)).1).flatMap Outline.ids
      _ ~ (ids.skip m).upcoming n ++ ((outlines (build ids).1).flatMap Outline.ids ++
          given'.flatMap Outline.ids) := hnext
      _ ~ (ids.skip m).upcoming n ++ (ids.upcoming m ++ given.flatMap Outline.ids ++
          given'.flatMap Outline.ids) := hfirst.append_left _
      _ ~ ids.upcoming m ++ (ids.skip m).upcoming n ++ (given.flatMap Outline.ids ++
          given'.flatMap Outline.ids) := by
        rw [List.append_assoc, List.append_assoc]
        exact List.perm_append_comm_assoc _ _ _

/-- What is given to a computation may be taken in any order. -/
theorem Makes.perm {build : Build α} {given' : List Outline} (h : Makes build m outlines given)
    (hgiven : given.Perm given') : Makes build m outlines given' where
  supply_eq := h.supply_eq
  ids_perm ids := (h.ids_perm ids).trans ((hgiven.flatMap_right Outline.ids).append_left _)

/-- A node draws an id of its own, and the trees below it are given. -/
theorem makes_node {make : NodeId → α} {item : NodeId → Node} {children : List Outline}
    (h : ∀ id, outlines (make id) = [.node (item id) children]) (hid : ∀ id, (item id).id = id)
    (hgiven : children.Perm given) : Makes (do return make (← fresh)) 1 outlines given where
  supply_eq _ := rfl
  ids_perm ids := by
    change ((outlines (make ids.peek)).flatMap Outline.ids).Perm _
    rw [h, List.flatMap_singleton, Outline.ids_node, hid]
    exact (hgiven.flatMap_right Outline.ids).cons _

/-- A computation that only puts together what is given draws nothing. -/
theorem makes_pure {a : α} (h : (outlines a).Perm given) : Makes (pure a) 0 outlines given where
  supply_eq _ := rfl
  ids_perm _ := h.flatMap_right Outline.ids

/-- A node is made after a tree that is below it. -/
theorem Makes.node {build : Build β} {below : β → Outline} {make : NodeId → β → α}
    {item : NodeId → β → Node} {children : β → List Outline}
    (hbelow : Makes build m (fun b => [below b]) [])
    (h : ∀ id b, outlines (make id b) = [.node (item id b) (children b)])
    (hid : ∀ id b, (item id b).id = id) (hgiven : ∀ b, (children b).Perm (below b :: given)) :
    Makes (do let b ← build; return make (← fresh) b) (m + 1) outlines given :=
  hbelow.bind fun b => makes_node (fun id => h id b) (fun id => hid id b) (hgiven b)

/-- A list of trees is made one tree after the other. -/
theorem Makes.cons {make : Build α} {makeRest : Build (List α)} {outline : α → Outline}
    {given' : List Outline} (h : Makes make m (fun a => [outline a]) given)
    (h' : Makes makeRest n (·.map outline) given') :
    Makes (do let a ← make; let rest ← makeRest; return a :: rest) (m + n) (·.map outline)
      (given ++ given') := by
  refine h.bind fun a => ?_
  have hrest : Makes (makeRest >>= fun rest => return a :: rest) (n + 0) (·.map outline)
      (given' ++ [outline a]) :=
    h'.bind fun rest => makes_pure (List.perm_append_singleton _ _).symm
  exact hrest.perm List.perm_append_comm

/-! ## Leaves -/

/-- A pattern draws its own id. -/
theorem makes_pattern (name : String) : Makes (pattern name) 1 (fun p => [p.outline]) [] :=
  makes_node (fun _ => rfl) (fun _ => rfl) (.refl _)

/-- An identifier draws its own id. -/
theorem makes_identifier (name : String) : Makes (identifier name) 1 (fun i => [i.outline]) [] :=
  makes_node (fun _ => rfl) (fun _ => rfl) (.refl _)

theorem makes_placeholderIdentifier : Makes placeholderIdentifier 1 (fun i => [i.outline]) [] :=
  makes_node (fun _ => rfl) (fun _ => rfl) (.refl _)

/-! ## Types -/

/-- A type with a name draws two ids, its own and that of the name. -/
theorem makes_typeNamed (name : String) (arguments : List TypeForm) :
    Makes (typeNamed name arguments) 2 (fun a => [a.outline]) (TypeForm.outlines arguments) :=
  (makes_identifier name).node (fun _ _ => rfl) (fun _ _ => rfl) (fun _ => .refl _)

/-- A function type draws its own id. -/
theorem makes_functionType (parameters : List TypeForm) (result : TypeForm) :
    Makes (functionType parameters result) 1 (fun a => [a.outline])
      (result.outline :: TypeForm.outlines parameters) :=
  makes_node (fun _ => rfl) (fun _ => rfl) (.refl _)

theorem makes_typePlaceholder : Makes typePlaceholder 1 (fun a => [a.outline]) [] :=
  makes_node (fun _ => rfl) (fun _ => rfl) (.refl _)

/-! ## Expressions -/

/-- A placeholder draws its own id. -/
theorem makes_expressionPlaceholder :
    Makes expressionPlaceholder 1 (fun e => [e.outline]) [] :=
  makes_node (fun _ => rfl) (fun _ => rfl) (.refl _)

/-- A name that is used draws two ids, its own and that of the identifier. -/
theorem makes_ident (name : String) : Makes (ident name) 2 (fun e => [e.outline]) [] :=
  (makes_identifier name).node (fun _ _ => rfl) (fun _ _ => rfl) (fun _ => .refl _)

theorem makes_placeholderIdent : Makes placeholderIdent 2 (fun e => [e.outline]) [] :=
  makes_placeholderIdentifier.node (fun _ _ => rfl) (fun _ _ => rfl) (fun _ => .refl _)

/-- A member of an expression draws two ids, its own and that of the name. -/
theorem makes_memberOf (base : Expression) (name : String) :
    Makes (memberOf base name) 2 (fun e => [e.outline]) [base.outline] :=
  (makes_identifier name).node (fun _ _ => rfl) (fun _ _ => rfl) (fun _ => .swap _ _ _)

/-- A path draws two ids for each of its names. -/
theorem makes_members (rest : List String) (base : Expression) :
    Makes (rest.foldlM memberOf base) (2 * rest.length) (fun e => [e.outline]) [base.outline] := by
  induction rest generalizing base with
  | nil => exact ⟨fun _ => rfl, fun _ => .refl _⟩
  | cons name rest ih =>
    rw [List.foldlM_cons, List.length_cons, Nat.mul_succ, Nat.add_comm]
    exact (makes_memberOf base name).bind ih

/-- A path draws two ids for each of its names; without names a placeholder is drawn. -/
theorem makes_member (path : List String) :
    Makes (member path) (max 1 (2 * path.length)) (fun e => [e.outline]) [] := by
  cases path with
  | nil => exact makes_expressionPlaceholder
  | cons first rest =>
    have hcount : max 1 (2 * (first :: rest).length) = 2 + 2 * rest.length := by
      rw [List.length_cons]
      omega
    rw [hcount]
    exact (makes_ident first).bind (makes_members rest)

/-- Each argument draws its own id. -/
theorem makes_arguments (given : List (Option String × Expression)) :
    Makes (arguments given) given.length (·.map Argument.outline) (given.map (·.2.outline)) := by
  induction given with
  | nil => exact makes_pure (.refl _)
  | cons first rest ih =>
    obtain ⟨label, expression⟩ := first
    have hargument : Makes (do return Argument.argument (← fresh) label expression) 1
        (fun a => [a.outline]) [expression.outline] :=
      makes_node (fun _ => rfl) (fun _ => rfl) (.refl _)
    rw [List.length_cons, Nat.add_comm]
    exact hargument.cons ih

/-- A call draws an id for each argument and its own. -/
theorem makes_call (callee : Expression) (given : List (Option String × Expression)) :
    Makes (call callee given) (given.length + 1) (fun e => [e.outline])
      (callee.outline :: given.map (·.2.outline)) := by
  have hcall : Makes (call callee given) (given.length + 1) (fun e => [e.outline])
      (given.map (·.2.outline) ++ [callee.outline]) := by
    refine (makes_arguments given).bind (n := 1) fun arguments => ?_
    refine makes_node (fun _ => rfl) (fun _ => rfl) ?_
    rw [Argument.outlines_eq_map]
    exact (List.perm_append_singleton _ _).symm
  exact hcall.perm (List.perm_append_singleton _ _)

/-- An operator draws the id of its expression. -/
theorem makes_binary (left : Expression) (operator : Operator) (right : Expression) :
    Makes (binary left operator right) 1 (fun e => [e.outline]) [left.outline, right.outline] :=
  makes_node (fun _ => rfl) (fun _ => rfl) (.refl _)

/-- A literal is made below an expression of its own; it draws two ids, for itself and for that. -/
theorem makes_literal {make : NodeId → Literal} {item : NodeId → Node} {children : List Outline}
    (h : ∀ id, (make id).outline = .node (item id) children) (hid : ∀ id, (item id).id = id) :
    Makes (literal make) 2 (fun e => [e.outline]) children := by
  have hinner : Makes (do return make (← fresh)) 1 (fun l => [l.outline]) children :=
    makes_node (fun id => congrArg (fun o => [o]) (h id)) hid (.refl _)
  have hliteral : Makes ((do return make (← fresh)) >>= fun inner =>
      do return Expression.literal (← fresh) inner) (1 + 1) (fun e => [e.outline])
        (children ++ []) :=
    hinner.bind fun inner => makes_node (fun _ => rfl) (fun _ => rfl) (.refl _)
  rw [List.append_nil] at hliteral
  exact hliteral

/-! ## Declarations -/

/-- A variable draws two ids, its own and that of its pattern. -/
theorem makes_variableNamed (name : String) (form : Option TypeForm)
    (initializer : Option Expression) :
    Makes (variableNamed name form initializer) 2 (fun d => [d.outline])
      ((form.map TypeForm.outline).toList ++ (initializer.map Expression.outline).toList) :=
  (makes_pattern name).node (fun _ _ => rfl) (fun _ _ => rfl) (fun _ => .refl _)

/-- Each generic parameter draws two ids, its own and that of its pattern. -/
theorem makes_generics (names : List String) :
    Makes (generics names) (2 * names.length) (·.map GenericParameter.outline) [] := by
  induction names with
  | nil => exact makes_pure (.refl _)
  | cons name rest ih =>
    have hgeneric : Makes (do
          let name ← pattern name
          return GenericParameter.parameter (← fresh) name)
        (1 + 1) (fun g => [g.outline]) [] :=
      (makes_pattern name).node (fun _ _ => rfl) (fun _ _ => rfl) (fun _ => .refl _)
    rw [List.length_cons, Nat.mul_succ, Nat.add_comm]
    exact hgeneric.cons ih

/-- A parameter draws two ids, its own and that of its pattern. -/
theorem makes_parameter (label : Option String) (name : String) (form : TypeForm) :
    Makes (parameter label name form) 2 (fun p => [p.outline]) [form.outline] :=
  (makes_pattern name).node (fun _ _ => rfl) (fun _ _ => rfl) (fun _ => .refl _)

/-- A declaration with a name and type parameters is made after these. -/
theorem makes_generic (make : NodeId → Pattern → List GenericParameter → Declaration)
    {children : Pattern → List GenericParameter → List Outline}
    (h : ∀ id name generics, (make id name generics).outline =
      .node (.declaration (make id name generics)) (children name generics))
    (hid : ∀ id name generics, (make id name generics).id = id)
    (hgiven : ∀ name generics, (children name generics).Perm
      (name.outline :: (generics.map GenericParameter.outline ++ given)))
    (name : String) (names : List String) :
    Makes (do
        let name ← pattern name
        let generics ← generics names
        return make (← fresh) name generics)
      (2 * names.length + 2) (fun d => [d.outline]) given := by
  have hcount : 2 * names.length + 2 = 1 + (2 * names.length + 1) := by omega
  rw [hcount]
  refine (makes_pattern name).bind fun name => ?_
  refine (makes_generics names).bind (n := 1) fun generics => ?_
  refine makes_node (fun id => congrArg (fun o => [o]) (h id name generics))
    (fun id => hid id name generics) ((hgiven name generics).trans ?_)
  exact List.perm_middle.symm

/-- A function draws two ids for each generic parameter and two for itself and its pattern. -/
theorem makes_function (name : String) (genericNames : List String) (parameters : List Parameter)
    (result : TypeForm) (block : List Statement) :
    Makes (function name genericNames parameters result block) (2 * genericNames.length + 2)
      (fun d => [d.outline])
      (result.outline :: (parameters.map Parameter.outline ++ Statement.outlines block)) :=
  makes_generic (fun id name generics => .function id name result generics parameters block)
    (fun _ _ _ => rfl) (fun _ _ _ => rfl) (fun _ _ => List.perm_middle.symm.cons _) name
    genericNames

/-- A record draws two ids for each generic parameter and two for itself and its pattern. -/
theorem makes_record (name : String) (genericNames : List String)
    (declarations : List Declaration) :
    Makes (record name genericNames declarations) (2 * genericNames.length + 2)
      (fun d => [d.outline]) (Declaration.outlines declarations) :=
  makes_generic (fun id name generics => .record id name generics declarations)
    (fun _ _ _ => rfl) (fun _ _ _ => rfl) (fun _ _ => .refl _) name genericNames

/-- An enumeration draws two ids for each generic parameter and two for itself and its pattern. -/
theorem makes_enumeration (name : String) (genericNames : List String)
    (cases : List EnumerationCase) :
    Makes (enumeration name genericNames cases) (2 * genericNames.length + 2)
      (fun d => [d.outline]) (cases.map EnumerationCase.outline) :=
  makes_generic (fun id name generics => .enumeration id name generics cases)
    (fun _ _ _ => rfl) (fun _ _ _ => rfl) (fun _ _ => .refl _) name genericNames

/-- A case draws two ids, its own and that of its pattern. -/
theorem makes_case (name : String) (forms : List TypeForm) :
    Makes (case name forms) 2 (fun c => [c.outline]) (TypeForm.outlines forms) :=
  (makes_pattern name).node (fun _ _ => rfl) (fun _ _ => rfl) (fun _ => .refl _)

/-- A namespace draws two ids, its own and that of its pattern. -/
theorem makes_space (name : String) (declarations : List Declaration) :
    Makes (space name declarations) 2 (fun d => [d.outline])
      (Declaration.outlines declarations) :=
  (makes_pattern name).node (fun _ _ => rfl) (fun _ _ => rfl) (fun _ => .refl _)

/-- A library that is imported draws two ids, its own and that of its name. -/
theorem makes_library (name : String) : Makes (library name) 2 (fun d => [d.outline]) [] :=
  (makes_pattern name).node (fun _ _ => rfl) (fun _ _ => rfl) (fun _ => .refl _)

/-! ## Statements -/

/-- A declaration as a statement draws the id of the statement. -/
theorem makes_declaration (content : Declaration) :
    Makes (declaration content) 1 (fun s => [s.outline]) [content.outline] :=
  makes_node (fun _ => rfl) (fun _ => rfl) (.refl _)

/-- A branch draws its own id. -/
theorem makes_branch (condition : Expression) (block : List Statement) :
    Makes (branch condition block) 1 (fun s => [s.outline])
      (condition.outline :: Statement.outlines block) :=
  makes_node (fun _ => rfl) (fun _ => rfl) (.refl _)

/-- A loop draws two ids, its own and that of its pattern. -/
theorem makes_forEach (name : String) (iterated : Expression) (block : List Statement) :
    Makes (forEach name iterated block) 2 (fun s => [s.outline])
      (iterated.outline :: Statement.outlines block) :=
  (makes_pattern name).node (fun _ _ => rfl) (fun _ _ => rfl) (fun _ => .refl _)

/-- An expression as a statement draws the id of the statement. -/
theorem makes_expressionStatement (expression : Expression) :
    Makes (expressionStatement expression) 1 (fun s => [s.outline]) [expression.outline] :=
  makes_node (fun _ => rfl) (fun _ => rfl) (.refl _)

/-- A result draws the id of its statement. -/
theorem makes_resultStatement (expression : Expression) :
    Makes (resultStatement expression) 1 (fun s => [s.outline]) [expression.outline] :=
  makes_node (fun _ => rfl) (fun _ => rfl) (.refl _)

/-- A program draws its own id. -/
theorem makes_program (block : List Statement) :
    Makes (program block) 1 (fun p => [p.outline]) (Statement.outlines block) :=
  makes_node (fun _ => rfl) (fun _ => rfl) (.refl _)

end Build

end TreeLang
