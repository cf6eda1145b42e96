import TreeLang.Proofs.Tree.Lines
import TreeLang.Proofs.Tree.Renaming
import TreeLang.Proofs.Tree.Renumbering

/-!
# Numbering the nodes of a tree

Fresh ids number the nodes of a tree in the order of its outline, and nothing else about the nodes
changes. The last id there is may be handed out too; the supply then stays there.
-/

namespace TreeLang

/-! ## Nodes alone -/

/-- A node alone keeps nothing of the ids. -/
theorem Node.bare_mapIds (ρ : NodeId → NodeId) (node : Node) :
    (node.mapIds ρ).bare = node.bare := by
  cases node with
  | program p => simp [mapIds, bare, Program.mapIds_eq, Program.bare, Function.comp_def]
  | statement s =>
    cases s <;> simp [mapIds, bare, Statement.bare, Function.comp_def]
    rfl
  | declaration d => cases d <;> simp [mapIds, bare, Declaration.bare, Function.comp_def] <;> rfl
  | expression e => cases e <;> simp [mapIds, bare, Expression.bare, Function.comp_def]
  | pattern p => rfl
  | identifier i => rfl
  | typeForm f =>
    cases f <;> simp [mapIds, bare, TypeForm.bare, Function.comp_def]
    rfl
  | literal l => cases l <;> simp [mapIds, bare, Literal.bare, Function.comp_def] <;> rfl
  | parameter p =>
    cases p <;> simp [mapIds, bare, Parameter.bare, Function.comp_def]
    rfl
  | generic g => cases g <;> rfl
  | case c =>
    cases c <;> simp [mapIds, bare, EnumerationCase.bare, Function.comp_def]
    rfl
  | argument a => cases a <;> rfl

namespace Outline

/-- Nodes alone do not tell their ids, so a renaming does not change them. -/
theorem bare_mapNodes_mapIds (ρ : NodeId → NodeId) (outline : Outline) :
    (outline.mapNodes (Node.mapIds ρ)).mapNodes Node.bare = outline.mapNodes Node.bare := by
  rw [mapNodes_mapNodes]
  exact congrArg outline.mapNodes (funext (Node.bare_mapIds ρ))

/-- Trees that come to the same tree when their ids are renamed differ in their ids only. -/
theorem bare_eq_of_mapIds_eq {α : Type} {outline : α → Outline} (ρ : NodeId → NodeId)
    {rename : α → α} (houtline : ∀ a, outline (rename a) = (outline a).mapNodes (Node.mapIds ρ))
    {a b : α} (h : rename a = rename b) :
    (outline a).mapNodes Node.bare = (outline b).mapNodes Node.bare := by
  rw [← bare_mapNodes_mapIds ρ (outline a), ← houtline, h, houtline, bare_mapNodes_mapIds]

end Outline

section Renumber

variable {σ : Type} (assign : NodeId → σ → NodeId × σ) (s : σ)

/-- A statement with other ids consists of the same nodes. -/
theorem Statement.bare_renumber (statement : Statement) :
    (statement.renumber assign s).1.outline.mapNodes Node.bare =
      statement.outline.mapNodes Node.bare :=
  Outline.bare_eq_of_mapIds_eq (fun _ => .blank) Statement.outline_mapIds
    (congrArg Prod.fst (statement.renumber_blindly s ()))

/-- A declaration with other ids consists of the same nodes. -/
theorem Declaration.bare_renumber (declaration : Declaration) :
    (declaration.renumber assign s).1.outline.mapNodes Node.bare =
      declaration.outline.mapNodes Node.bare :=
  Outline.bare_eq_of_mapIds_eq (fun _ => .blank) Declaration.outline_mapIds
    (congrArg Prod.fst (declaration.renumber_blindly s ()))

/-- An expression with other ids consists of the same nodes. -/
theorem Expression.bare_renumber (expression : Expression) :
    (expression.renumber assign s).1.outline.mapNodes Node.bare =
      expression.outline.mapNodes Node.bare :=
  Outline.bare_eq_of_mapIds_eq (fun _ => .blank) Expression.outline_mapIds
    (congrArg Prod.fst (expression.renumber_blindly s ()))

/-- A program with other ids consists of the same nodes. -/
theorem Program.bare_renumber (program : Program) :
    (program.renumber assign s).1.outline.mapNodes Node.bare =
      program.outline.mapNodes Node.bare :=
  Outline.bare_eq_of_mapIds_eq (fun _ => .blank) Program.outline_mapIds
    (program.shape_renumber assign s)

end Renumber

/-! ## Fresh ids -/

/-- The second outline is the first one with new ids, from the next one of `ids` on and in order;
`rest` continues after them. -/
structure Outline.Numbered (ids : IdSupply) (before after : Outline) (rest : IdSupply) : Prop where
  ids_eq : after.ids.map NodeId.value = List.range' ids.peek.value before.preorder.length
  bare_eq : after.mapNodes Node.bare = before.mapNodes Node.bare
  next_eq : rest.peek.value = min (ids.peek.value + before.preorder.length) NodeId.last.value

open Outline (Renumbered Numbered)

/-- What is renumbered from a supply with room for it has the next numbers in its order, and nothing
else is different. -/
theorem Outline.Renumbered.numbered {ids rest : IdSupply} {before after : Outline}
    (h : Renumbered IdSupply.assign before after ids rest)
    (hroom : before.preorder.length ≤ 0x10000000000000000 - ids.peek.value)
    (hbare : after.mapNodes Node.bare = before.mapNodes Node.bare) :
    Numbered ids before after rest := by
  have hlength : before.ids.length = before.preorder.length := List.length_map _
  have hremaining : before.ids.length ≤ ids.remaining + 1 := by
    have hlast : NodeId.last.value = 0x10000000000000000 - 1 := rfl
    rw [IdSupply.remaining]
    omega
  obtain ⟨hvalues, hnext⟩ := IdSupply.renumberList_assign before.ids hremaining
  rw [h, hlength] at hvalues hnext
  exact ⟨hvalues, hbare, hnext⟩

/-- Fresh ids number the nodes of a program, or of a part of one, in the order of its outline, and
change nothing else. -/
theorem reidentify_numbers (ids : IdSupply) :
    (∀ program : Program,
      program.outline.preorder.length ≤ 0x10000000000000000 - ids.peek.value →
        Numbered ids program.outline (program.reidentify ids).1.outline
          (program.reidentify ids).2) ∧
      ∀ fragment : Fragment,
        fragment.outline.preorder.length ≤ 0x10000000000000000 - ids.peek.value →
          Numbered ids fragment.outline (fragment.reidentify ids).1.outline
            (fragment.reidentify ids).2 := by
  refine ⟨fun program hroom => ?_, fun fragment hroom => ?_⟩
  · exact (program.renumbered _ ids).numbered hroom (program.bare_renumber _ ids)
  · cases fragment with
    | statement s => exact (s.renumbered _ ids).numbered hroom (s.bare_renumber _ ids)
    | declaration d => exact (d.renumbered _ ids).numbered hroom (d.bare_renumber _ ids)
    | expression e => exact (e.renumbered _ ids).numbered hroom (e.bare_renumber _ ids)

/-- The last ids there are number `a = b`, and one more is there for each part of it. -/
theorem reidentify_numbers_last :
    let used (name : String) : Expression := .identifier .last ⟨.last, name, false⟩
    let ids : IdSupply := ⟨⟨0xfffffffffffffffb, by decide⟩⟩
    let assigning : Fragment := .expression (.binary .last (used "a") (used "b") .setEqualTo)
    Numbered ids assigning.outline (assigning.reidentify ids).1.outline
        (assigning.reidentify ids).2 ∧
      (assigning.reidentify ids).2.peek = .last :=
  ⟨(reidentify_numbers _).2 _ (by decide), rfl⟩

end TreeLang
