import TreeLang.Proofs.Evaluation.Recursion
import TreeLang.Proofs.Scope.Targets

/-!
# What an evaluation writes

An evaluation gives values to the nodes that it evaluates, and to patterns: to those that are
declared there, and to those that assignments refer to. `Store.Keeps` says that all other nodes keep
the value that they have.
-/

namespace TreeLang

/-- Expressions refer to patterns that are bound. -/
def Knowledge.RefersTo (known : Knowledge) (bound : NodeId → Prop) : Prop :=
  ∀ id pattern, known.scope.patternFor id = some pattern → bound pattern

namespace Store

variable {bound : NodeId → Prop} {nodes first second : List Node} {store store' store'' : Store}

/-- A value that is known is found where it was put, and otherwise what there was. -/
theorem find_putKnown_self (id : NodeId) (value : Option Value) (store : Store) :
    (store.putKnown id value).find id = value.or (store.find id) := by
  cases value with
  | none => exact (Option.none_or ..).symm
  | some value => exact (Table.find_put_self id value store).trans (Option.some_or ..).symm

/-- Putting a value for one identifier leaves the others alone. -/
theorem find_putKnown_of_ne {id other : NodeId} (h : other ≠ id) (value : Option Value)
    (store : Store) : (store.putKnown id value).find other = store.find other := by
  cases value with
  | none => rfl
  | some value => exact Table.find_put_of_ne h value store

/-- Only what is bound and the given nodes have got other values. -/
def Keeps (bound : NodeId → Prop) (nodes : List Node) (store store' : Store) : Prop :=
  ∀ id, ¬ bound id → id ∉ nodes.map Node.id → store'.find id = store.find id

namespace Keeps

/-- Nothing has got another value in the store itself. -/
theorem refl : Keeps bound nodes store store := fun _ _ _ => rfl

/-- What is kept outside of some nodes is kept outside of more of them. -/
theorem mono (h : Keeps bound first store store') (hsubset : first ⊆ second) :
    Keeps bound second store store' := fun id hbound hid =>
  h id hbound fun hmem => hid (List.map_subset _ hsubset hmem)

/-- Two runs one after the other write to the nodes of the one or of the other. -/
theorem trans (h : Keeps bound first store store') (h' : Keeps bound second store' store'') :
    Keeps bound (first ++ second) store store'' := by
  intro id hbound hid
  rw [List.map_append, List.mem_append, not_or] at hid
  rw [h' id hbound hid.2, h id hbound hid.1]

/-- Two runs that write to the same nodes write to these. -/
theorem andThen (h : Keeps bound nodes store store') (h' : Keeps bound nodes store' store'') :
    Keeps bound nodes store store'' := fun id hbound hid =>
  (h' id hbound hid).trans (h id hbound hid)

/-- What is done at an only child. -/
theorem only (h : Keeps bound nodes store store') : Keeps bound (nodes ++ []) store store' :=
  h.mono (List.subset_append_left _ _)

/-- What is done at a node after what is done below it. -/
theorem node {item : Node} {children : List Outline}
    (h : Keeps bound (Outline.preorders children) store store')
    (h' : Keeps bound [item] store' store'') :
    Keeps bound (Outline.node item children).preorder store store'' :=
  (h.trans h').mono (List.append_subset.2 ⟨List.subset_cons_self _ _,
    List.cons_subset.2 ⟨List.mem_cons_self, List.nil_subset _⟩⟩)

/-- What is done at a child of a node. -/
theorem child {item : Node} {children : List Outline} {c : Outline}
    (h : Keeps bound c.preorder store store') (hc : c ∈ children) :
    Keeps bound (Outline.node item children).preorder store store' :=
  h.mono fun _ hn => Outline.mem_preorder_node.2 (.inr ⟨c, hc, hn⟩)

/-- What is done at children of a node. -/
theorem below {item : Node} {children outlines : List Outline}
    (h : Keeps bound (Outline.preorders outlines) store store') (hsubset : outlines ⊆ children) :
    Keeps bound (Outline.node item children).preorder store store' := by
  refine h.mono fun n hn => ?_
  rw [Outline.preorders_eq_flatMap] at hn
  obtain ⟨c, hc, hn⟩ := List.mem_flatMap.1 hn
  exact Outline.mem_preorder_node.2 (.inr ⟨c, hsubset hc, hn⟩)

/-- Putting a value that may be unknown writes to the node itself. -/
theorem putKnown {id : NodeId} (hid : bound id ∨ id ∈ nodes.map Node.id) (value : Option Value)
    (store : Store) : Keeps bound nodes store (store.putKnown id value) := by
  intro other hbound hother
  apply find_putKnown_of_ne
  rintro rfl
  exact hid.elim hbound hother

/-- Putting a value writes to the node itself. -/
theorem put {id : NodeId} (hid : bound id ∨ id ∈ nodes.map Node.id) (value : Value)
    (store : Store) : Keeps bound nodes store (store.put id value) :=
  putKnown hid (some value) store

end Keeps

end Store

open Store (Keeps)

variable {known : Knowledge} {bound : NodeId → Prop}

namespace Evaluator

variable (hrefers : known.RefersTo bound)

include hrefers

/-- An assignment writes to the pattern of its target, which is bound. -/
theorem keeps_assign {nodes : List Node} (target : NodeId) (value : Value) (store : Store) :
    Keeps bound nodes store (assign known target value store) := by
  rw [assign]
  split
  · next pattern hpattern => exact .put (.inl (hrefers target pattern hpattern)) value store
  · exact .refl

/-- An operator writes to its own node, or as an assignment to the pattern of its target. -/
theorem keeps_applyOperator (id : NodeId) (operator : Operator) (left right : Expression)
    (store : Store) : Keeps bound [.expression (.binary id left right operator)] store
      (applyOperator known id operator left right store) := by
  rw [applyOperator]
  split
  · exact .refl
  · split
    · exact keeps_assign hrefers left.id _ store
    · split
      · exact .refl
      · exact .putKnown (.inr List.mem_cons_self) _ store

end Evaluator

/-- The identifier of a literal is one of its outline. -/
theorem Literal.id_mem_ids (literal : Literal) : literal.id ∈ literal.outline.ids := by
  cases literal <;> exact List.mem_cons_self

mutual

/-- An expression writes to its own nodes and to what is bound. -/
theorem Expression.keeps_evaluate (hrefers : known.RefersTo bound) : (expression : Expression) →
    (store : Store) →
      Keeps bound expression.outline.preorder store (expression.evaluate known store)
  | .binary id left right operator, store => by
    have hparts := (left.keeps_evaluate hrefers store).trans (right.keeps_evaluate hrefers _).only
    exact hparts.node (Evaluator.keeps_applyOperator hrefers id operator left right _)
  | .identifier id used, store => .putKnown (.inr List.mem_cons_self) _ store
  | .call id callee arguments, store => by
    have hparts :=
      (callee.keeps_evaluate hrefers store).trans (Argument.keeps_evaluateAll hrefers arguments _)
    exact hparts.node (.putKnown (.inr List.mem_cons_self) _ _)
  | .literal id literal, store => by
    have hitems := literal.keeps_evaluateItems hrefers store
    refine Keeps.node (Keeps.only (hitems.andThen ?_)) (.putKnown (.inr List.mem_cons_self) _ _)
    exact .putKnown (.inr literal.id_mem_ids) _ _
  | .member id base name, store => by
    refine Keeps.andThen ?_ (.putKnown (.inr List.mem_cons_self) _ _)
    exact (base.keeps_evaluate hrefers store).child List.mem_cons_self
  | .placeholder _, _ => .refl

/-- An argument writes to its own nodes and to what is bound. -/
theorem Argument.keeps_evaluate (hrefers : known.RefersTo bound) : (argument : Argument) →
    (store : Store) → Keeps bound argument.outline.preorder store (argument.evaluate known store)
  | .argument _ _ expression, store => (expression.keeps_evaluate hrefers store).only.node .refl
  | .placeholder _, _ => .refl

theorem Literal.keeps_evaluateItems (hrefers : known.RefersTo bound) : (literal : Literal) →
    (store : Store) →
      Keeps bound literal.outline.preorder store (literal.evaluateItems known store)
  | .array _ items, store => (Expression.keeps_evaluateAll hrefers items store).node .refl
  | .none _, _ | .boolean _ _, _ | .number _ _, _ | .string _ _, _ | .color _ _, _ => .refl

/-- Several expressions write to their nodes and to what is bound. -/
theorem Expression.keeps_evaluateAll (hrefers : known.RefersTo bound) :
    (expressions : List Expression) → (store : Store) →
      Keeps bound (Outline.preorders (Expression.outlines expressions)) store
        (Expression.evaluateAll known expressions store)
  | [], _ => .refl
  | expression :: rest, store =>
    (expression.keeps_evaluate hrefers store).trans (Expression.keeps_evaluateAll hrefers rest _)

theorem Argument.keeps_evaluateAll (hrefers : known.RefersTo bound) :
    (arguments : List Argument) → (store : Store) →
      Keeps bound (Outline.preorders (Argument.outlines arguments)) store
        (Argument.evaluateAll known arguments store)
  | [], _ => .refl
  | argument :: rest, store =>
    (argument.keeps_evaluate hrefers store).trans (Argument.keeps_evaluateAll hrefers rest _)

end

namespace Evaluator

/-- The default of a member of a record writes to its own nodes and to what is bound. -/
theorem keeps_enterMember (hrefers : known.RefersTo bound) (state : List Slot × Store)
    (declaration : Declaration) :
    Keeps bound declaration.outline.preorder state.2
      (enterMember (Expression.evaluate known) state declaration).2 := by
  cases declaration with
  | value id name form initializer =>
    cases initializer with
    | none => exact .refl
    | some initializer =>
      refine (initializer.keeps_evaluate hrefers state.2).child ?_
      exact List.mem_cons_of_mem _ (List.mem_append_right _ List.mem_cons_self)
  | function | enumeration | record | space | library | placeholder => exact .refl

/-- The members of a record write to the nodes of their defaults and to what is bound. -/
theorem keeps_enterMembers (hrefers : known.RefersTo bound) (declarations : List Declaration)
    (state : List Slot × Store) :
    Keeps bound (Outline.preorders (Declaration.outlines declarations)) state.2
      (declarations.foldl (enterMember (Expression.evaluate known)) state).2 := by
  induction declarations generalizing state with
  | nil => exact .refl
  | cons declaration rest ih => exact (keeps_enterMember hrefers state declaration).trans (ih _)

/-- The cases of an enumeration write to what is bound. -/
theorem keeps_enterCases (enumeration : Pattern) {cases : List EnumerationCase}
    (hcases : ∀ case ∈ cases, case.outline.AllPatterns bound) (store : Store) :
    Keeps bound [] store (cases.foldl (enterCase known enumeration) store) := by
  induction cases generalizing store with
  | nil => exact .refl
  | cons case rest ih =>
    obtain ⟨hfirst, hrest⟩ := List.forall_mem_cons.1 hcases
    refine Keeps.andThen ?_ (ih hrest _)
    cases case with
    | placeholder id => exact .refl
    | case id name forms =>
      exact .put (.inl (hfirst.of_mem List.mem_cons_self).of_outline) _ store

end Evaluator

mutual

/-- A statement writes to its own nodes and to what is bound. -/
theorem Statement.keeps_evaluate (hrefers : known.RefersTo bound) : (statement : Statement) →
    statement.outline.AllPatterns bound → (store : Store) →
      Keeps bound statement.outline.preorder store (statement.evaluate known store)
  | .declaration _ content, hpatterns, store =>
    (content.keeps_evaluate hrefers (hpatterns.of_mem List.mem_cons_self) store).only.node .refl
  | .branch _ condition block, hpatterns, store => by
    have hcondition := condition.keeps_evaluate hrefers store
    have hblock := Statement.keeps_evaluateAll hrefers block
      (fun c hc => hpatterns.of_mem (List.mem_cons_of_mem _ hc)) (condition.evaluate known store)
    refine Keeps.node ?_ .refl
    rw [Statement.evaluate]
    split
    · exact hcondition.trans hblock
    · exact hcondition.trans .refl
  | .loop _ _ _ _, _, _ => .refl
  | .expression _ expression, _, store | .result _ expression, _, store =>
    (expression.keeps_evaluate hrefers store).only.node .refl
  | .placeholder _, _, _ => .refl

/-- A declaration whose patterns are bound writes to its own nodes and to what is bound. -/
theorem Declaration.keeps_evaluate (hrefers : known.RefersTo bound) :
    (declaration : Declaration) → declaration.outline.AllPatterns bound → (store : Store) →
      Keeps bound declaration.outline.preorder store (declaration.evaluate known store)
  | .value _ name form initializer, hpatterns, store => by
    -- what is written is the initializer's nodes, and then the value's own pattern
    have hname : bound name.id := (hpatterns.of_mem List.mem_cons_self).of_outline
    cases initializer with
    | none => exact .refl
    | some initializer =>
      refine Keeps.andThen ?_ (.putKnown (.inl hname) _ _)
      refine (initializer.keeps_evaluate hrefers store).child ?_
      exact List.mem_cons_of_mem _ (List.mem_append_right _ List.mem_cons_self)
  | .function _ name _ _ _ _, hpatterns, store =>
    .putKnown (.inl (hpatterns.of_mem List.mem_cons_self).of_outline) _ store
  | .record _ name generics declarations, hpatterns, store => by
    have hname : bound name.id := (hpatterns.of_mem List.mem_cons_self).of_outline
    rw [Declaration.evaluate, Evaluator.enterRecord]
    split
    · exact .refl
    · -- the members are evaluated before the record's pattern is written
      refine Keeps.andThen ?_ (.put (.inl hname) _ _)
      refine (Evaluator.keeps_enterMembers hrefers declarations ([], store)).below ?_
      exact List.subset_cons_of_subset _ (List.subset_append_right _ _)
  | .enumeration _ name generics cases, hpatterns, store => by
    have hcases : ∀ case ∈ cases, case.outline.AllPatterns bound := by
      intro case hcase
      apply hpatterns.of_mem
      exact List.mem_cons_of_mem _ (List.mem_append_right _ (List.mem_map_of_mem hcase))
    exact (Evaluator.keeps_enterCases name hcases store).mono (List.nil_subset _)
  | .space _ _ declarations, hpatterns, store => by
    have hdeclarations := Declaration.keeps_evaluateAll hrefers declarations
      (fun c hc => hpatterns.of_mem (List.mem_cons_of_mem _ hc)) store
    exact hdeclarations.below (List.subset_cons_self _ _)
  | .library _ _, _, _ | .placeholder _, _, _ => .refl

/-- A block writes to its own nodes and to what is bound. -/
theorem Statement.keeps_evaluateAll (hrefers : known.RefersTo bound) : (block : List Statement) →
    (∀ c ∈ Statement.outlines block, c.AllPatterns bound) → (store : Store) →
      Keeps bound (Outline.preorders (Statement.outlines block)) store
        (Statement.evaluateAll known block store)
  | [], _, _ => .refl
  | statement :: rest, hpatterns, store => by
    obtain ⟨hfirst, hrest⟩ := List.forall_mem_cons.1 hpatterns
    exact (statement.keeps_evaluate hrefers hfirst store).trans
      (Statement.keeps_evaluateAll hrefers rest hrest _)

theorem Declaration.keeps_evaluateAll (hrefers : known.RefersTo bound) :
    (declarations : List Declaration) →
      (∀ c ∈ Declaration.outlines declarations, c.AllPatterns bound) → (store : Store) →
        Keeps bound (Outline.preorders (Declaration.outlines declarations)) store
          (Declaration.evaluateAll known declarations store)
  | [], _, _ => .refl
  | declaration :: rest, hpatterns, store => by
    obtain ⟨hfirst, hrest⟩ := List.forall_mem_cons.1 hpatterns
    exact (declaration.keeps_evaluate hrefers hfirst store).trans
      (Declaration.keeps_evaluateAll hrefers rest hrest _)

end

end TreeLang
