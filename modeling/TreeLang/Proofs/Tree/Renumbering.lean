import TreeLang.Proofs.Tree.Outline
import TreeLang.Tree.Edit

/-!
# What a renumbering changes

A renumbering changes the ids of a tree one after the other, in the order of its outline, and
changes nothing else.
-/

namespace TreeLang

variable {σ : Type} {assign : NodeId → σ → NodeId × σ}

section Lists

variable {α : Type} (renumber : α → σ → α × σ)

/-- A list is renumbered from its first item on. -/
theorem renumberList_cons (a : α) (rest : List α) (s : σ) :
    renumberList renumber (a :: rest) s =
      ((renumber a s).1 :: (renumberList renumber rest (renumber a s).2).1,
        (renumberList renumber rest (renumber a s).2).2) := rfl

/-- A list that is put together is renumbered part after part, with what the first part leaves of
the supply. -/
theorem renumberList_append (first second : List α) (s : σ) :
    renumberList renumber (first ++ second) s =
      ((renumberList renumber first s).1 ++
          (renumberList renumber second (renumberList renumber first s).2).1,
        (renumberList renumber second (renumberList renumber first s).2).2) := by
  induction first generalizing s with
  | nil => rfl
  | cons a rest ih =>
    rw [List.cons_append, renumberList_cons, renumberList_cons, ih, List.cons_append]

end Lists

/-! ## Ids -/

namespace Outline

/-- The ids of the second outline are those of the first one, renumbered in their order. -/
def Renumbered (assign : NodeId → σ → NodeId × σ) (before after : Outline) (s s' : σ) : Prop :=
  renumberList assign before.ids s = (after.ids, s')

/-- The ids of the outlines are renumbered, one outline after the other. -/
def RenumberedAll (assign : NodeId → σ → NodeId × σ) (before after : List Outline) (s s' : σ) :
    Prop :=
  renumberList assign (before.flatMap ids) s = (after.flatMap ids, s')

variable {before after : Outline} {befores afters befores' afters' : List Outline} {s s' s'' : σ}

/-- Without outlines no id is given out. -/
theorem RenumberedAll.nil (s : σ) : RenumberedAll assign [] [] s s := rfl

/-- Lists of outlines that are renumbered one after the other are renumbered together. -/
theorem RenumberedAll.append (h : RenumberedAll assign befores afters s s')
    (h' : RenumberedAll assign befores' afters' s' s'') :
    RenumberedAll assign (befores ++ befores') (afters ++ afters') s s'' := by
  rw [RenumberedAll] at h h' ⊢
  rw [List.flatMap_append, renumberList_append, h, h', List.flatMap_append]

/-- An outline that is renumbered is renumbered as a list of one. -/
theorem Renumbered.all (h : Renumbered assign before after s s') :
    RenumberedAll assign [before] [after] s s' := by
  rw [RenumberedAll, List.flatMap_singleton, List.flatMap_singleton]
  exact h

/-- An outline and those after it are renumbered together. -/
theorem RenumberedAll.cons (h : Renumbered assign before after s s')
    (h' : RenumberedAll assign befores afters s' s'') :
    RenumberedAll assign (before :: befores) (after :: afters) s s'' := h.all.append h'

/-- A node gets its id before the nodes below it. -/
theorem Renumbered.node {item item' : Node} (h : assign item.id s = (item'.id, s'))
    (h' : RenumberedAll assign befores afters s' s'') :
    Renumbered assign (.node item befores) (.node item' afters) s s'' := by
  rw [RenumberedAll] at h'
  rw [Renumbered, ids_node, ids_node, renumberList_cons, h, h']

end Outline

open Outline (Renumbered RenumberedAll)

section Ids

variable (assign)

/-- Renumbering a pattern renumbers its outline. -/
theorem Pattern.renumbered (pattern : Pattern) (s : σ) :
    Renumbered assign pattern.outline (pattern.renumber assign s).1.outline s
      (pattern.renumber assign s).2 := .node rfl (.nil _)

/-- Renumbering an identifier renumbers its outline. -/
theorem Identifier.renumbered (identifier : Identifier) (s : σ) :
    Renumbered assign identifier.outline (identifier.renumber assign s).1.outline s
      (identifier.renumber assign s).2 := .node rfl (.nil _)

mutual

/-- Renumbering a type renumbers its outline, in the order of its nodes. -/
theorem TypeForm.renumbered : (form : TypeForm) → (s : σ) →
    Renumbered assign form.outline (form.renumber assign s).1.outline s (form.renumber assign s).2
  | .named _ identifier arguments, _ =>
    .node rfl (.cons (identifier.renumbered assign _) (TypeForm.renumberedAll arguments _))
  | .function _ result parameters, _ =>
    .node rfl (.cons (result.renumbered _) (TypeForm.renumberedAll parameters _))
  | .placeholder _, _ => .node rfl (.nil _)

theorem TypeForm.renumberedAll : (forms : List TypeForm) → (s : σ) →
    RenumberedAll assign (TypeForm.outlines forms)
      (TypeForm.outlines (TypeForm.renumberAll assign forms s).1) s
      (TypeForm.renumberAll assign forms s).2
  | [], _ => .nil _
  | form :: rest, _ => .cons (form.renumbered _) (TypeForm.renumberedAll rest _)

end

mutual

/-- Renumbering an expression renumbers its outline, in the order of its nodes. -/
theorem Expression.renumbered : (expression : Expression) → (s : σ) →
    Renumbered assign expression.outline (expression.renumber assign s).1.outline s
      (expression.renumber assign s).2
  | .binary _ left right _, _ =>
    .node rfl (.cons (left.renumbered _) (right.renumbered _).all)
  | .identifier _ used, _ => .node rfl (used.renumbered assign _).all
  | .call _ callee arguments, _ =>
    .node rfl (.cons (callee.renumbered _) (Argument.renumberedAll arguments _))
  | .literal _ literal, _ => .node rfl (literal.renumbered _).all
  | .member _ base name, _ =>
    .node rfl (.cons (base.renumbered _) (name.renumbered assign _).all)
  | .placeholder _, _ => .node rfl (.nil _)

/-- Renumbering an argument renumbers its outline. -/
theorem Argument.renumbered : (argument : Argument) → (s : σ) →
    Renumbered assign argument.outline (argument.renumber assign s).1.outline s
      (argument.renumber assign s).2
  | .argument _ _ expression, _ => .node rfl (expression.renumbered _).all
  | .placeholder _, _ => .node rfl (.nil _)

/-- Renumbering a literal renumbers its outline. -/
theorem Literal.renumbered : (literal : Literal) → (s : σ) →
    Renumbered assign literal.outline (literal.renumber assign s).1.outline s
      (literal.renumber assign s).2
  | .array _ items, _ => .node rfl (Expression.renumberedAll items _)
  | .none _, _ | .boolean _ _, _ | .number _ _, _ | .string _ _, _ | .color _ _, _ =>
    .node rfl (.nil _)

/-- Renumbering several expressions renumbers their outlines one after the other. -/
theorem Expression.renumberedAll : (expressions : List Expression) → (s : σ) →
    RenumberedAll assign (Expression.outlines expressions)
      (Expression.outlines (Expression.renumberAll assign expressions s).1) s
      (Expression.renumberAll assign expressions s).2
  | [], _ => .nil _
  | expression :: rest, _ => .cons (expression.renumbered _) (Expression.renumberedAll rest _)

theorem Argument.renumberedAll : (arguments : List Argument) → (s : σ) →
    RenumberedAll assign (Argument.outlines arguments)
      (Argument.outlines (Argument.renumberAll assign arguments s).1) s
      (Argument.renumberAll assign arguments s).2
  | [], _ => .nil _
  | argument :: rest, _ => .cons (argument.renumbered _) (Argument.renumberedAll rest _)

end

variable {α : Type} {outline : α → Outline} {renumber : α → σ → α × σ}

/-- Renumbering a list renumbers the outlines of its items one after the other. -/
theorem renumberedAll_map
    (h : ∀ a s, Renumbered assign (outline a) (outline (renumber a s).1) s (renumber a s).2)
    (list : List α) (s : σ) :
    RenumberedAll assign (list.map outline) ((renumberList renumber list s).1.map outline) s
      (renumberList renumber list s).2 := by
  induction list generalizing s with
  | nil => exact .nil _
  | cons a rest ih => exact .cons (h a s) (ih _)

/-- Renumbering an option renumbers the outline of its content. -/
theorem renumberedAll_option
    (h : ∀ a s, Renumbered assign (outline a) (outline (renumber a s).1) s (renumber a s).2)
    (option : Option α) (s : σ) :
    RenumberedAll assign (option.map outline).toList
      ((renumberOption renumber option s).1.map outline).toList s
      (renumberOption renumber option s).2 := by
  cases option with
  | none => exact .nil _
  | some a => exact (h a s).all

/-- Renumbering a parameter renumbers its outline. -/
theorem Parameter.renumbered (parameter : Parameter) (s : σ) :
    Renumbered assign parameter.outline (parameter.renumber assign s).1.outline s
      (parameter.renumber assign s).2 := by
  cases parameter with
  | placeholder id => exact .node rfl (.nil _)
  | parameter id externalName localName form defaultValue =>
    exact .node rfl (.cons (localName.renumbered assign _) (.cons (form.renumbered assign _)
      (renumberedAll_option assign (Expression.renumbered assign) defaultValue _)))

/-- Renumbering a generic parameter renumbers its outline. -/
theorem GenericParameter.renumbered (generic : GenericParameter) (s : σ) :
    Renumbered assign generic.outline (generic.renumber assign s).1.outline s
      (generic.renumber assign s).2 := by
  cases generic with
  | placeholder id => exact .node rfl (.nil _)
  | parameter id name => exact .node rfl (name.renumbered assign _).all

/-- Renumbering a case renumbers its outline. -/
theorem EnumerationCase.renumbered (case : EnumerationCase) (s : σ) :
    Renumbered assign case.outline (case.renumber assign s).1.outline s
      (case.renumber assign s).2 := by
  cases case with
  | placeholder id => exact .node rfl (.nil _)
  | case id name forms =>
    exact .node rfl (.cons (name.renumbered assign _) (TypeForm.renumberedAll assign forms _))

mutual

/-- Renumbering a statement renumbers its outline, in the order of its nodes. -/
theorem Statement.renumbered : (statement : Statement) → (s : σ) →
    Renumbered assign statement.outline (statement.renumber assign s).1.outline s
      (statement.renumber assign s).2
  | .declaration _ content, _ => .node rfl (content.renumbered _).all
  | .branch _ condition block, _ =>
    .node rfl (.cons (condition.renumbered assign _) (Statement.renumberedAll block _))
  | .loop _ pattern iterated block, _ =>
    .node rfl (.cons (pattern.renumbered assign _)
      (.cons (iterated.renumbered assign _) (Statement.renumberedAll block _)))
  | .expression _ expression, _ | .result _ expression, _ =>
    .node rfl (expression.renumbered assign _).all
  | .placeholder _, _ => .node rfl (.nil _)

/-- Renumbering a declaration renumbers its outline, in the order of its nodes. -/
theorem Declaration.renumbered : (declaration : Declaration) → (s : σ) →
    Renumbered assign declaration.outline (declaration.renumber assign s).1.outline s
      (declaration.renumber assign s).2
  | .value _ name form initializer, _ =>
    .node rfl (.cons (name.renumbered assign _)
      ((renumberedAll_option assign (TypeForm.renumbered assign) form _).append
        (renumberedAll_option assign (Expression.renumbered assign) initializer _)))
  | .function _ name result generics parameters block, _ =>
    .node rfl (.cons (name.renumbered assign _) (.cons (result.renumbered assign _)
      ((renumberedAll_map assign (GenericParameter.renumbered assign) generics _).append
        ((renumberedAll_map assign (Parameter.renumbered assign) parameters _).append
          (Statement.renumberedAll block _)))))
  | .enumeration _ name generics cases, _ =>
    .node rfl (.cons (name.renumbered assign _)
      ((renumberedAll_map assign (GenericParameter.renumbered assign) generics _).append
        (renumberedAll_map assign (EnumerationCase.renumbered assign) cases _)))
  | .record _ name generics declarations, _ =>
    .node rfl (.cons (name.renumbered assign _)
      ((renumberedAll_map assign (GenericParameter.renumbered assign) generics _).append
        (Declaration.renumberedAll declarations _)))
  | .space _ name declarations, _ =>
    .node rfl (.cons (name.renumbered assign _) (Declaration.renumberedAll declarations _))
  | .library _ name, _ => .node rfl (name.renumbered assign _).all
  | .placeholder _, _ => .node rfl (.nil _)

/-- Renumbering a block renumbers the outlines of its statements one after the other. -/
theorem Statement.renumberedAll : (block : List Statement) → (s : σ) →
    RenumberedAll assign (Statement.outlines block)
      (Statement.outlines (Statement.renumberAll assign block s).1) s
      (Statement.renumberAll assign block s).2
  | [], _ => .nil _
  | statement :: rest, _ => .cons (statement.renumbered _) (Statement.renumberedAll rest _)

theorem Declaration.renumberedAll : (declarations : List Declaration) → (s : σ) →
    RenumberedAll assign (Declaration.outlines declarations)
      (Declaration.outlines (Declaration.renumberAll assign declarations s).1) s
      (Declaration.renumberAll assign declarations s).2
  | [], _ => .nil _
  | declaration :: rest, _ => .cons (declaration.renumbered _) (Declaration.renumberedAll rest _)

end

/-- The ids of a program are renumbered in the order of its outline. -/
theorem Program.renumbered (program : Program) (s : σ) :
    Renumbered assign program.outline (program.renumber assign s).1.outline s
      (program.renumber assign s).2 :=
  .node rfl (Statement.renumberedAll assign program.block _)

end Ids

/-! ## Shapes -/

/-- The renumbering that hands out ids without a look at the old ones. -/
def blindly {τ : Type} (next : τ → NodeId × τ) (_ : NodeId) (t : τ) : NodeId × τ := next t

/-- A program with the same id at every node: what a renumbering leaves as it is. -/
def Program.shape (program : Program) : Program := program.mapIds fun _ => IdSupply.start.peek

section Shapes

variable {τ : Type} {next : τ → NodeId × τ}

/-- A renumbering that does not look at ids gives a pattern the same one, whatever id it had
before. -/
theorem Pattern.renumber_blindly (pattern : Pattern) (s : σ) (t : τ) :
    (pattern.renumber assign s).1.renumber (blindly next) t =
      pattern.renumber (blindly next) t := rfl

theorem Identifier.renumber_blindly (identifier : Identifier) (s : σ) (t : τ) :
    (identifier.renumber assign s).1.renumber (blindly next) t =
      identifier.renumber (blindly next) t := rfl

mutual

/-- A renumbering that does not look at ids gives the same type, whatever ids it had before. -/
theorem TypeForm.renumber_blindly : (form : TypeForm) → (s : σ) → (t : τ) →
    (form.renumber assign s).1.renumber (blindly next) t = form.renumber (blindly next) t
  | .named _ identifier arguments, _, _ => by
    simp only [TypeForm.renumber, identifier.renumber_blindly,
      TypeForm.renumberAll_blindly arguments]
    rfl
  | .function _ result parameters, _, _ => by
    simp only [TypeForm.renumber, result.renumber_blindly, TypeForm.renumberAll_blindly parameters]
    rfl
  | .placeholder _, _, _ => rfl

theorem TypeForm.renumberAll_blindly : (forms : List TypeForm) → (s : σ) → (t : τ) →
    TypeForm.renumberAll (blindly next) (TypeForm.renumberAll assign forms s).1 t =
      TypeForm.renumberAll (blindly next) forms t
  | [], _, _ => rfl
  | form :: rest, _, _ => by
    simp only [TypeForm.renumberAll, form.renumber_blindly, TypeForm.renumberAll_blindly rest]

end

mutual

/-- A renumbering that does not look at ids gives the same expression, whatever ids it had
before. -/
theorem Expression.renumber_blindly : (expression : Expression) → (s : σ) → (t : τ) →
    (expression.renumber assign s).1.renumber (blindly next) t =
      expression.renumber (blindly next) t
  | .binary _ left right _, _, _ => by
    simp only [Expression.renumber, left.renumber_blindly, right.renumber_blindly]
    rfl
  | .identifier _ used, _, _ => rfl
  | .call _ callee arguments, _, _ => by
    simp only [Expression.renumber, callee.renumber_blindly, Argument.renumberAll_blindly arguments]
    rfl
  | .literal _ literal, _, _ => by
    simp only [Expression.renumber, literal.renumber_blindly]
    rfl
  | .member _ base name, _, _ => by
    simp only [Expression.renumber, base.renumber_blindly, name.renumber_blindly]
    rfl
  | .placeholder _, _, _ => rfl

/-- A renumbering that does not look at ids gives the same argument, whatever ids it had before. -/
theorem Argument.renumber_blindly : (argument : Argument) → (s : σ) → (t : τ) →
    (argument.renumber assign s).1.renumber (blindly next) t = argument.renumber (blindly next) t
  | .argument _ _ expression, _, _ => by
    simp only [Argument.renumber, expression.renumber_blindly]
    rfl
  | .placeholder _, _, _ => rfl

/-- A renumbering that does not look at ids gives the same literal, whatever ids it had before. -/
theorem Literal.renumber_blindly : (literal : Literal) → (s : σ) → (t : τ) →
    (literal.renumber assign s).1.renumber (blindly next) t = literal.renumber (blindly next) t
  | .array _ items, _, _ => by
    simp only [Literal.renumber, Expression.renumberAll_blindly items]
    rfl
  | .none _, _, _ | .boolean _ _, _, _ | .number _ _, _, _ | .string _ _, _, _
  | .color _ _, _, _ => rfl

theorem Expression.renumberAll_blindly : (expressions : List Expression) → (s : σ) → (t : τ) →
    Expression.renumberAll (blindly next) (Expression.renumberAll assign expressions s).1 t =
      Expression.renumberAll (blindly next) expressions t
  | [], _, _ => rfl
  | expression :: rest, _, _ => by
    simp only [Expression.renumberAll, expression.renumber_blindly,
      Expression.renumberAll_blindly rest]

theorem Argument.renumberAll_blindly : (arguments : List Argument) → (s : σ) → (t : τ) →
    Argument.renumberAll (blindly next) (Argument.renumberAll assign arguments s).1 t =
      Argument.renumberAll (blindly next) arguments t
  | [], _, _ => rfl
  | argument :: rest, _, _ => by
    simp only [Argument.renumberAll, argument.renumber_blindly, Argument.renumberAll_blindly rest]

end

/-- A renumbering that does not look at the ids of items does not look at those of a list. -/
theorem renumberList_blindly {α : Type} {renumber : α → σ → α × σ} {blind : α → τ → α × τ}
    (h : ∀ a s t, blind (renumber a s).1 t = blind a t) (list : List α) (s : σ) (t : τ) :
    renumberList blind (renumberList renumber list s).1 t = renumberList blind list t := by
  induction list generalizing s t with
  | nil => rfl
  | cons a rest ih => rw [renumberList_cons, renumberList_cons, renumberList_cons, h, ih]

/-- A renumbering that does not look at the ids of a content does not look at those of an option. -/
theorem renumberOption_blindly {α : Type} {renumber : α → σ → α × σ} {blind : α → τ → α × τ}
    (h : ∀ a s t, blind (renumber a s).1 t = blind a t) (option : Option α) (s : σ) (t : τ) :
    renumberOption blind (renumberOption renumber option s).1 t =
      renumberOption blind option t := by
  cases option with
  | none => rfl
  | some a => simp only [renumberOption, h]

/-- A renumbering that does not look at ids gives the same parameter, whatever ids it had before. -/
theorem Parameter.renumber_blindly (parameter : Parameter) (s : σ) (t : τ) :
    (parameter.renumber assign s).1.renumber (blindly next) t =
      parameter.renumber (blindly next) t := by
  cases parameter with
  | placeholder id => rfl
  | parameter id externalName localName form defaultValue =>
    simp only [Parameter.renumber, localName.renumber_blindly, form.renumber_blindly,
      renumberOption_blindly Expression.renumber_blindly]
    rfl

/-- A renumbering that does not look at ids gives the same generic parameter, whatever ids it had
before. -/
theorem GenericParameter.renumber_blindly (generic : GenericParameter) (s : σ) (t : τ) :
    (generic.renumber assign s).1.renumber (blindly next) t =
      generic.renumber (blindly next) t := by
  cases generic <;> rfl

/-- A renumbering that does not look at ids gives the same case, whatever ids it had before. -/
theorem EnumerationCase.renumber_blindly (case : EnumerationCase) (s : σ) (t : τ) :
    (case.renumber assign s).1.renumber (blindly next) t = case.renumber (blindly next) t := by
  cases case with
  | placeholder id => rfl
  | case id name forms =>
    simp only [EnumerationCase.renumber, name.renumber_blindly, TypeForm.renumberAll_blindly]
    rfl

mutual

/-- A renumbering that does not look at ids gives the same statement, whatever ids it had before. -/
theorem Statement.renumber_blindly : (statement : Statement) → (s : σ) → (t : τ) →
    (statement.renumber assign s).1.renumber (blindly next) t = statement.renumber (blindly next) t
  | .declaration _ content, _, _ => by
    simp only [Statement.renumber, content.renumber_blindly]
    rfl
  | .branch _ condition block, _, _ => by
    simp only [Statement.renumber, condition.renumber_blindly, Statement.renumberAll_blindly block]
    rfl
  | .loop _ pattern iterated block, _, _ => by
    simp only [Statement.renumber, pattern.renumber_blindly, iterated.renumber_blindly,
      Statement.renumberAll_blindly block]
    rfl
  | .expression _ expression, _, _ | .result _ expression, _, _ => by
    simp only [Statement.renumber, expression.renumber_blindly]
    rfl
  | .placeholder _, _, _ => rfl

/-- A renumbering that does not look at ids gives the same declaration, whatever ids it had
before. -/
theorem Declaration.renumber_blindly : (declaration : Declaration) → (s : σ) → (t : τ) →
    (declaration.renumber assign s).1.renumber (blindly next) t =
      declaration.renumber (blindly next) t
  -- by parts: what the first renumbering did to a part, the second one does not see
  | .value _ name form initializer, _, _ => by
    simp only [Declaration.renumber, name.renumber_blindly,
      renumberOption_blindly TypeForm.renumber_blindly,
      renumberOption_blindly Expression.renumber_blindly]
    rfl
  | .function _ name result generics parameters block, _, _ => by
    simp only [Declaration.renumber, name.renumber_blindly, result.renumber_blindly,
      renumberList_blindly GenericParameter.renumber_blindly,
      renumberList_blindly Parameter.renumber_blindly,
      Statement.renumberAll_blindly block]
    rfl
  | .enumeration _ name generics cases, _, _ => by
    simp only [Declaration.renumber, name.renumber_blindly,
      renumberList_blindly GenericParameter.renumber_blindly,
      renumberList_blindly EnumerationCase.renumber_blindly]
    rfl
  | .record _ name generics declarations, _, _ => by
    simp only [Declaration.renumber, name.renumber_blindly,
      renumberList_blindly GenericParameter.renumber_blindly,
      Declaration.renumberAll_blindly declarations]
    rfl
  | .space _ name declarations, _, _ => by
    simp only [Declaration.renumber, name.renumber_blindly,
      Declaration.renumberAll_blindly declarations]
    rfl
  | .library _ name, _, _ => rfl
  | .placeholder _, _, _ => rfl

/-- A renumbering that does not look at ids gives the same block, whatever ids it had before. -/
theorem Statement.renumberAll_blindly : (block : List Statement) → (s : σ) → (t : τ) →
    Statement.renumberAll (blindly next) (Statement.renumberAll assign block s).1 t =
      Statement.renumberAll (blindly next) block t
  | [], _, _ => rfl
  | statement :: rest, _, _ => by
    simp only [Statement.renumberAll, statement.renumber_blindly,
      Statement.renumberAll_blindly rest]

theorem Declaration.renumberAll_blindly : (declarations : List Declaration) → (s : σ) → (t : τ) →
    Declaration.renumberAll (blindly next) (Declaration.renumberAll assign declarations s).1 t =
      Declaration.renumberAll (blindly next) declarations t
  | [], _, _ => rfl
  | declaration :: rest, _, _ => by
    simp only [Declaration.renumberAll, declaration.renumber_blindly,
      Declaration.renumberAll_blindly rest]

end

/-- A renumbering that does not look at ids gives the same program, whatever ids it had before. -/
theorem Program.renumber_blindly (program : Program) (s : σ) (t : τ) :
    (program.renumber assign s).1.renumber (blindly next) t =
      program.renumber (blindly next) t := by
  simp only [Program.renumber, Statement.renumberAll_blindly]
  rfl

variable (assign) in
/-- A renumbering keeps the shape of a program. -/
theorem Program.shape_renumber (program : Program) (s : σ) :
    (program.renumber assign s).1.shape = program.shape := by
  have hshape (p : Program) : p.shape =
      (p.renumber (blindly fun u : Unit => (IdSupply.start.peek, u)) ()).1 := rfl
  rw [hshape, hshape, program.renumber_blindly]

end Shapes

/-! ## Fresh ids -/

/-- No id is after the last one. -/
theorem NodeId.value_le_last (id : NodeId) : id.value ≤ NodeId.last.value :=
  Nat.le_sub_one_of_lt id.value_lt

namespace IdSupply

/-- A supply moves on by one, and stays at the largest id. -/
theorem fresh_peek (ids : IdSupply) :
    ids.fresh.2.peek.value = min (ids.peek.value + 1) NodeId.last.value := by
  have hlast : NodeId.last.value = 0x10000000000000000 - 1 := rfl
  have hpeek := ids.peek.value_lt
  rw [fresh, NodeId.next]
  split <;> dsimp only <;> omega

/-- A supply that continues after an id begins with the next number. -/
theorem peek_of_after? {latest : NodeId} {ids : IdSupply}
    (h : after? (some latest) = some ids) : ids.peek.value = latest.value + 1 := by
  rw [after?, NodeId.ofNat?] at h
  split at h
  · cases h
    rfl
  · cases h

/-- Until the largest id is handed out, ids are handed out in order and without a gap. -/
theorem renumberList_assign (olds : List NodeId) {ids : IdSupply}
    (h : olds.length ≤ ids.remaining + 1) :
    (renumberList IdSupply.assign olds ids).1.map NodeId.value =
        List.range' ids.peek.value olds.length ∧
      (renumberList IdSupply.assign olds ids).2.peek.value =
        min (ids.peek.value + olds.length) NodeId.last.value := by
  induction olds generalizing ids with
  | nil => exact ⟨rfl, (Nat.min_eq_left ids.peek.value_le_last).symm⟩
  | cons old rest ih =>
    have hpeek : (ids.assign old).2.peek.value = min (ids.peek.value + 1) NodeId.last.value :=
      ids.fresh_peek
    have hrest : rest.length ≤ (ids.assign old).2.remaining + 1 := by
      rw [remaining] at h ⊢
      rw [List.length_cons] at h
      omega
    obtain ⟨hvalues, hnext⟩ := ih hrest
    have htail : List.range' (ids.assign old).2.peek.value rest.length =
        List.range' (ids.peek.value + 1) rest.length := by
      -- At the largest id the supply stays, but nothing is left to be numbered.
      rcases rest with _ | ⟨old', rest⟩
      · rfl
      · rw [remaining, List.length_cons, List.length_cons] at h
        rw [hpeek, Nat.min_eq_left (by omega)]
    rw [renumberList_cons, List.length_cons]
    refine ⟨?_, ?_⟩
    · rw [List.map_cons, hvalues, htail, List.range'_succ]
      rfl
    · rw [hnext, hpeek]
      omega

end IdSupply

/-- As long as ids are left, the nodes of some programs get them in order and without a gap. -/
theorem Program.reidentify_ids (programs : List Program) {ids : IdSupply}
    (h : (programs.flatMap Program.nodes).length ≤ ids.remaining) :
    ((renumberList Program.reidentify programs ids).1.flatMap fun program =>
          program.outline.ids).map NodeId.value =
        List.range' ids.peek.value (programs.flatMap Program.nodes).length ∧
      (renumberList Program.reidentify programs ids).2.peek.value =
        ids.peek.value + (programs.flatMap Program.nodes).length := by
  have hrenumbered : RenumberedAll IdSupply.assign _ _ ids _ :=
    renumberedAll_map IdSupply.assign (Program.renumbered IdSupply.assign) programs ids
  rw [RenumberedAll, List.flatMap_map, List.flatMap_map] at hrenumbered
  have hlength : (programs.flatMap fun program => program.outline.ids).length =
      (programs.flatMap Program.nodes).length := by
    have hids : (programs.flatMap fun program => program.outline.ids) =
        (programs.flatMap Program.nodes).map Node.id := List.map_flatMap.symm
    rw [hids, List.length_map]
  have hfresh := IdSupply.renumberList_assign
    (programs.flatMap fun program => program.outline.ids) (hlength ▸ Nat.le_succ_of_le h)
  have hroom : ids.peek.value + (programs.flatMap Program.nodes).length ≤ NodeId.last.value := by
    have hpeek := ids.peek.value_le_last
    rw [IdSupply.remaining] at h
    omega
  rw [hrenumbered, hlength, Nat.min_eq_left hroom] at hfresh
  exact hfresh

/-- The greater of two ids is not less than the first one. -/
theorem NodeId.value_le_max_left (a b : NodeId) : a.value ≤ (a.max b).value := by
  rw [NodeId.max]
  split
  · next h => exact h
  · exact Nat.le_refl _

/-- The greater of two ids is not less than the second one. -/
theorem NodeId.value_le_max_right (a b : NodeId) : b.value ≤ (a.max b).value := by
  rw [NodeId.max]
  split
  · exact Nat.le_refl _
  · next h => exact Nat.le_of_not_le h

/-- The greatest id is not less than the one to start with, nor than that of any node. -/
theorem NodeId.le_foldl_max (nodes : List Node) (start : NodeId) :
    start.value ≤ (nodes.foldl (fun largest node => largest.max node.id) start).value ∧
      ∀ node ∈ nodes,
        node.id.value ≤ (nodes.foldl (fun largest node => largest.max node.id) start).value := by
  induction nodes generalizing start with
  | nil => exact ⟨Nat.le_refl _, nofun⟩
  | cons node rest ih =>
    obtain ⟨hmax, hrest⟩ := ih (start.max node.id)
    exact ⟨Nat.le_trans (value_le_max_left _ _) hmax,
      List.forall_mem_cons.2 ⟨Nat.le_trans (value_le_max_right _ _) hmax, hrest⟩⟩

/-- The ids of a program go up to its largest one. -/
theorem Program.le_maxId {program : Program} {id : NodeId} (h : id ∈ program.outline.ids) :
    id.value ≤ program.maxId.value := by
  obtain ⟨node, hnode, rfl⟩ := Outline.mem_ids.1 h
  exact (NodeId.le_foldl_max program.nodes program.id).2 node hnode

end TreeLang
