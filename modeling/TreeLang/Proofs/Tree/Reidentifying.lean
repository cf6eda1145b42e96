import Mathlib.Logic.Equiv.Fintype
import TreeLang.Proofs.Tree.Renaming
import TreeLang.Proofs.Tree.Renumbering

/-!
# Renumberings that are renamings

A renumbering does not look at anything of a tree but its ids. A tree is therefore known by its
shape and its ids, and giving fresh ids to a program whose ids are distinct renames them.
-/

namespace TreeLang

variable {σ : Type} {assign : NodeId → σ → NodeId × σ}

/-- Hands out the ids of a list, one after the other. -/
def nextOf : List NodeId → NodeId × List NodeId
  | [] => (IdSupply.start.peek, [])
  | id :: rest => (id, rest)

open Outline (ids ids_node)

/-- A list that takes its own ids from a supply of them stays as it is. -/
theorem renumberList_nextOf {α : Type} {renumber : α → List NodeId → α × List NodeId}
    {outline : α → Outline} (h : ∀ a rest, renumber a ((outline a).ids ++ rest) = (a, rest))
    (list : List α) (rest : List NodeId) :
    renumberList renumber list ((list.map outline).flatMap ids ++ rest) = (list, rest) := by
  induction list with
  | nil => rfl
  | cons a list ih =>
    rw [List.map_cons, List.flatMap_cons, List.append_assoc, renumberList, h]
    simp only [ih]

/-- An option that takes its own ids from a supply of them stays as it is. -/
theorem renumberOption_nextOf {α : Type} {renumber : α → List NodeId → α × List NodeId}
    {outline : α → Outline} (h : ∀ a rest, renumber a ((outline a).ids ++ rest) = (a, rest))
    (option : Option α) (rest : List NodeId) :
    renumberOption renumber option ((option.map outline).toList.flatMap ids ++ rest) =
      (option, rest) := by
  cases option with
  | none => rfl
  | some a =>
    rw [Option.map_some, Option.toList_some, List.flatMap_singleton, renumberOption, h]

/-- A pattern that takes its own id stays as it is. -/
theorem Pattern.renumber_nextOf (pattern : Pattern) (rest : List NodeId) :
    pattern.renumber (blindly nextOf) (pattern.outline.ids ++ rest) = (pattern, rest) := rfl

/-- An identifier that takes its own id stays as it is. -/
theorem Identifier.renumber_nextOf (identifier : Identifier) (rest : List NodeId) :
    identifier.renumber (blindly nextOf) (identifier.outline.ids ++ rest) = (identifier, rest) :=
  rfl

mutual

/-- A type that takes its own ids stays as it is. -/
theorem TypeForm.renumber_nextOf : (form : TypeForm) → (rest : List NodeId) →
    form.renumber (blindly nextOf) (form.outline.ids ++ rest) = (form, rest)
  | .named _ identifier arguments, rest => by
    simp only [TypeForm.outline, ids_node, List.flatMap_cons, List.append_assoc, List.cons_append,
      TypeForm.renumber, blindly, nextOf, identifier.renumber_nextOf,
      TypeForm.renumberAll_nextOf arguments]
    rfl
  | .function _ result parameters, rest => by
    simp only [TypeForm.outline, ids_node, List.flatMap_cons, List.append_assoc, List.cons_append,
      TypeForm.renumber, blindly, nextOf, result.renumber_nextOf,
      TypeForm.renumberAll_nextOf parameters]
    rfl
  | .placeholder _, _ => rfl

theorem TypeForm.renumberAll_nextOf : (forms : List TypeForm) → (rest : List NodeId) →
    TypeForm.renumberAll (blindly nextOf) forms ((TypeForm.outlines forms).flatMap ids ++ rest) =
      (forms, rest)
  | [], _ => rfl
  | form :: forms, rest => by
    simp only [TypeForm.outlines, List.flatMap_cons, List.append_assoc, TypeForm.renumberAll,
      form.renumber_nextOf, TypeForm.renumberAll_nextOf forms]

end

mutual

/-- An expression that takes its own ids stays as it is. -/
theorem Expression.renumber_nextOf : (expression : Expression) → (rest : List NodeId) →
    expression.renumber (blindly nextOf) (expression.outline.ids ++ rest) = (expression, rest)
  | .binary _ left right _, rest => by
    simp only [Expression.outline, ids_node, List.flatMap_cons, List.flatMap_nil, List.nil_append,
      List.append_assoc, List.cons_append, Expression.renumber, blindly, nextOf,
      left.renumber_nextOf, right.renumber_nextOf]
    rfl
  | .identifier _ _, _ => rfl
  | .call _ callee arguments, rest => by
    simp only [Expression.outline, ids_node, List.flatMap_cons, List.append_assoc, List.cons_append,
      Expression.renumber, blindly, nextOf, callee.renumber_nextOf,
      Argument.renumberAll_nextOf arguments]
    rfl
  | .literal _ literal, rest => by
    simp only [Expression.outline, ids_node, List.flatMap_cons, List.flatMap_nil, List.nil_append,
      List.append_assoc, List.cons_append, Expression.renumber, blindly, nextOf,
      literal.renumber_nextOf]
    rfl
  | .member _ base name, rest => by
    simp only [Expression.outline, ids_node, List.flatMap_cons, List.flatMap_nil, List.nil_append,
      List.append_assoc, List.cons_append, Expression.renumber, blindly, nextOf,
      base.renumber_nextOf, name.renumber_nextOf]
    rfl
  | .placeholder _, _ => rfl

/-- An argument that takes its own ids stays as it is. -/
theorem Argument.renumber_nextOf : (argument : Argument) → (rest : List NodeId) →
    argument.renumber (blindly nextOf) (argument.outline.ids ++ rest) = (argument, rest)
  | .argument _ _ expression, rest => by
    simp only [Argument.outline, ids_node, List.flatMap_cons, List.flatMap_nil, List.nil_append,
      List.append_assoc, List.cons_append, Argument.renumber, blindly, nextOf,
      expression.renumber_nextOf]
    rfl
  | .placeholder _, _ => rfl

/-- A literal that takes its own ids stays as it is. -/
theorem Literal.renumber_nextOf : (literal : Literal) → (rest : List NodeId) →
    literal.renumber (blindly nextOf) (literal.outline.ids ++ rest) = (literal, rest)
  | .array _ items, rest => by
    simp only [Literal.outline, ids_node, List.cons_append,
      Literal.renumber, blindly, nextOf, Expression.renumberAll_nextOf items]
    rfl
  | .none _, _ | .boolean _ _, _ | .number _ _, _ | .string _ _, _ | .color _ _, _ => rfl

theorem Expression.renumberAll_nextOf : (expressions : List Expression) → (rest : List NodeId) →
    Expression.renumberAll (blindly nextOf) expressions
        ((Expression.outlines expressions).flatMap ids ++ rest) =
      (expressions, rest)
  | [], _ => rfl
  | expression :: expressions, rest => by
    simp only [Expression.outlines, List.flatMap_cons, List.append_assoc, Expression.renumberAll,
      expression.renumber_nextOf, Expression.renumberAll_nextOf expressions]

theorem Argument.renumberAll_nextOf : (arguments : List Argument) → (rest : List NodeId) →
    Argument.renumberAll (blindly nextOf) arguments
        ((Argument.outlines arguments).flatMap ids ++ rest) =
      (arguments, rest)
  | [], _ => rfl
  | argument :: arguments, rest => by
    simp only [Argument.outlines, List.flatMap_cons, List.append_assoc, Argument.renumberAll,
      argument.renumber_nextOf, Argument.renumberAll_nextOf arguments]

end

/-- A parameter that takes its own ids stays as it is. -/
theorem Parameter.renumber_nextOf (parameter : Parameter) (rest : List NodeId) :
    parameter.renumber (blindly nextOf) (parameter.outline.ids ++ rest) = (parameter, rest) := by
  cases parameter with
  | placeholder id => rfl
  | parameter id externalName localName form defaultValue =>
    simp only [Parameter.outline, ids_node, List.flatMap_cons, List.append_assoc, List.cons_append,
      Parameter.renumber, blindly, nextOf, localName.renumber_nextOf, form.renumber_nextOf,
      renumberOption_nextOf Expression.renumber_nextOf]
    rfl

/-- A generic parameter that takes its own ids stays as it is. -/
theorem GenericParameter.renumber_nextOf (generic : GenericParameter) (rest : List NodeId) :
    generic.renumber (blindly nextOf) (generic.outline.ids ++ rest) = (generic, rest) := by
  cases generic <;> rfl

/-- A case that takes its own ids stays as it is. -/
theorem EnumerationCase.renumber_nextOf (case : EnumerationCase) (rest : List NodeId) :
    case.renumber (blindly nextOf) (case.outline.ids ++ rest) = (case, rest) := by
  cases case with
  | placeholder id => rfl
  | case id name forms =>
    simp only [EnumerationCase.outline, ids_node, List.flatMap_cons, List.append_assoc,
      List.cons_append, EnumerationCase.renumber, blindly, nextOf, name.renumber_nextOf,
      TypeForm.renumberAll_nextOf]
    rfl

mutual

/-- A statement that takes its own ids stays as it is. -/
theorem Statement.renumber_nextOf : (statement : Statement) → (rest : List NodeId) →
    statement.renumber (blindly nextOf) (statement.outline.ids ++ rest) = (statement, rest)
  -- each arm takes the statement's own id and passes the others on to its parts, in their order
  | .declaration _ content, rest => by
    simp only [Statement.outline, ids_node, List.flatMap_cons, List.flatMap_nil, List.nil_append,
      List.append_assoc, List.cons_append, Statement.renumber, blindly, nextOf,
      content.renumber_nextOf]
    rfl
  | .branch _ condition block, rest => by
    simp only [Statement.outline, ids_node, List.flatMap_cons, List.append_assoc, List.cons_append,
      Statement.renumber, blindly, nextOf, condition.renumber_nextOf,
      Statement.renumberAll_nextOf block]
    rfl
  | .loop _ pattern iterated block, rest => by
    simp only [Statement.outline, ids_node, List.flatMap_cons, List.append_assoc, List.cons_append,
      Statement.renumber, blindly, nextOf, pattern.renumber_nextOf, iterated.renumber_nextOf,
      Statement.renumberAll_nextOf block]
    rfl
  | .expression _ expression, rest => by
    simp only [Statement.outline, ids_node, List.flatMap_cons, List.flatMap_nil, List.nil_append,
      List.append_assoc, List.cons_append, Statement.renumber, blindly, nextOf,
      expression.renumber_nextOf]
    rfl
  | .result _ expression, rest => by
    simp only [Statement.outline, ids_node, List.flatMap_cons, List.flatMap_nil, List.nil_append,
      List.append_assoc, List.cons_append, Statement.renumber, blindly, nextOf,
      expression.renumber_nextOf]
    rfl
  | .placeholder _, _ => rfl

/-- A declaration that takes its own ids stays as it is. -/
theorem Declaration.renumber_nextOf : (declaration : Declaration) → (rest : List NodeId) →
    declaration.renumber (blindly nextOf) (declaration.outline.ids ++ rest) = (declaration, rest)
  -- the ids are taken in the order of the outline: its own, then the name's, then those of the
  -- parts
  | .value _ name _ _, rest => by
    simp only [Declaration.outline, ids_node, List.flatMap_cons, List.flatMap_append,
      List.append_assoc, List.cons_append, Declaration.renumber, blindly, nextOf,
      name.renumber_nextOf, renumberOption_nextOf TypeForm.renumber_nextOf,
      renumberOption_nextOf Expression.renumber_nextOf]
    rfl
  | .function _ name result _ _ block, rest => by
    simp only [Declaration.outline, ids_node, List.flatMap_cons, List.flatMap_append,
      List.append_assoc, List.cons_append, Declaration.renumber, blindly, nextOf,
      name.renumber_nextOf, result.renumber_nextOf,
      renumberList_nextOf GenericParameter.renumber_nextOf,
      renumberList_nextOf Parameter.renumber_nextOf, Statement.renumberAll_nextOf block]
    rfl
  | .enumeration _ name _ _, rest => by
    simp only [Declaration.outline, ids_node, List.flatMap_cons, List.flatMap_append,
      List.append_assoc, List.cons_append, Declaration.renumber, blindly, nextOf,
      name.renumber_nextOf, renumberList_nextOf GenericParameter.renumber_nextOf,
      renumberList_nextOf EnumerationCase.renumber_nextOf]
    rfl
  | .record _ name _ declarations, rest => by
    simp only [Declaration.outline, ids_node, List.flatMap_cons, List.flatMap_append,
      List.append_assoc, List.cons_append, Declaration.renumber, blindly, nextOf,
      name.renumber_nextOf, renumberList_nextOf GenericParameter.renumber_nextOf,
      Declaration.renumberAll_nextOf declarations]
    rfl
  | .space _ name declarations, rest => by
    simp only [Declaration.outline, ids_node, List.flatMap_cons, List.append_assoc,
      List.cons_append, Declaration.renumber, blindly, nextOf, name.renumber_nextOf,
      Declaration.renumberAll_nextOf declarations]
    rfl
  | .library _ _, _ | .placeholder _, _ => rfl

/-- A block that takes its own ids stays as it is. -/
theorem Statement.renumberAll_nextOf : (block : List Statement) → (rest : List NodeId) →
    Statement.renumberAll (blindly nextOf) block ((Statement.outlines block).flatMap ids ++ rest) =
      (block, rest)
  | [], _ => rfl
  | statement :: block, rest => by
    simp only [Statement.outlines, List.flatMap_cons, List.append_assoc, Statement.renumberAll,
      statement.renumber_nextOf, Statement.renumberAll_nextOf block]

theorem Declaration.renumberAll_nextOf : (declarations : List Declaration) → (rest : List NodeId) →
    Declaration.renumberAll (blindly nextOf) declarations
        ((Declaration.outlines declarations).flatMap ids ++ rest) =
      (declarations, rest)
  | [], _ => rfl
  | declaration :: declarations, rest => by
    simp only [Declaration.outlines, List.flatMap_cons, List.append_assoc, Declaration.renumberAll,
      declaration.renumber_nextOf, Declaration.renumberAll_nextOf declarations]

end

/-- Renumbering a program with its own ids changes nothing. -/
theorem Program.renumber_nextOf (program : Program) :
    (program.renumber (blindly nextOf) program.outline.ids).1 = program := by
  have hblock := Statement.renumberAll_nextOf program.block []
  rw [List.append_nil] at hblock
  rw [Program.outline, ids_node, Program.renumber]
  simp only [blindly, nextOf, hblock]
  rfl

/-- A renumbering that comes to the ids of another one comes to the same program. -/
theorem Program.renumber_eq_of_ids {τ : Type} {assign' : NodeId → τ → NodeId × τ}
    (program : Program) (s : σ) (t : τ)
    (h : (program.renumber assign s).1.outline.ids = (program.renumber assign' t).1.outline.ids) :
    (program.renumber assign s).1 = (program.renumber assign' t).1 := by
  rw [← (program.renumber assign s).1.renumber_nextOf,
    ← (program.renumber assign' t).1.renumber_nextOf, h, program.renumber_blindly,
    program.renumber_blindly]

/-- One list of distinct ids is another one of the same length, renamed. -/
theorem exists_map_eq_of_nodup {olds news : List NodeId} (holds : olds.Nodup) (hnews : news.Nodup)
    (hlength : news.length = olds.length) :
    ∃ ρ : NodeId → NodeId, Function.Injective ρ ∧ news = olds.map ρ := by
  obtain ⟨ρ, hρ⟩ := Equiv.Perm.exists_extending_pair (fun i : Fin olds.length => olds[i])
    (fun i => news[i]) (List.nodup_iff_injective_get.1 holds) fun i j h => by
      have hget := List.nodup_iff_injective_get.1 hnews
      exact Fin.ext (Fin.mk.inj (hget h))
  refine ⟨ρ, ρ.injective, List.ext_getElem (by rw [hlength, List.length_map]) fun i hi hi' => ?_⟩
  rw [List.getElem_map]
  exact (hρ ⟨i, hlength ▸ hi⟩).symm

/-- As long as ids are left, the fresh ids of a program are distinct. -/
theorem Program.reidentify_nodup {program : Program} {ids : IdSupply}
    (h : program.nodeCount ≤ ids.remaining) :
    (program.reidentify ids).1.outline.ids.Nodup ∧
      (program.reidentify ids).1.outline.ids.length = program.outline.ids.length := by
  have hnodes : ([program].flatMap Program.nodes).length = program.nodeCount := by
    rw [List.flatMap_singleton, nodeCount]
  obtain ⟨hfresh, -⟩ := Program.reidentify_ids [program] (hnodes ▸ h)
  replace hfresh : (program.reidentify ids).1.outline.ids.map NodeId.value =
      List.range' ids.peek.value program.nodeCount := by
    rw [hnodes] at hfresh
    exact (congrArg _ (List.flatMap_singleton _ _).symm).trans hfresh
  constructor
  · exact List.Nodup.of_map NodeId.value (hfresh ▸ List.nodup_range')
  · rw [← List.length_map NodeId.value, hfresh, List.length_range', Outline.ids, List.length_map]
    rfl

/-- As long as ids are left, giving fresh ids to a program with distinct ids renames them, and
different ids stay different. -/
theorem Program.exists_reidentify_eq_mapIds {program : Program} {ids : IdSupply}
    (distinct : program.outline.ids.Nodup) (h : program.nodeCount ≤ ids.remaining) :
    ∃ ρ : NodeId → NodeId, Function.Injective ρ ∧
      (program.reidentify ids).1 = program.mapIds ρ := by
  obtain ⟨hfresh, hlength⟩ := program.reidentify_nodup h
  obtain ⟨ρ, hρ, hids⟩ := exists_map_eq_of_nodup distinct hfresh hlength
  exact ⟨ρ, hρ, program.renumber_eq_of_ids ids () (hids.trans program.ids_mapIds.symm)⟩

end TreeLang
