import TreeLang.Evaluation
import TreeLang.Proofs.Tree.Tour

/-!
# The walk of the evaluator is a recursion

Visits of branches and records start walks of their own. All of them together do what one recursion
over the syntax does, which reads and writes the same store.
-/

namespace TreeLang

open Evaluator (visit)

/-! ## The recursion -/

section Recursion

variable (known : Knowledge)

mutual

/-- Evaluates an expression after its parts. -/
def Expression.evaluate : Expression → Store → Store
  | .binary id left right operator, store =>
    Evaluator.applyOperator known id operator left right (right.evaluate (left.evaluate store))
  | .identifier id _, store => store.putKnown id (Evaluator.referred known id store)
  | .call id callee arguments, store =>
    let store := Argument.evaluateAll arguments (callee.evaluate store)
    store.putKnown id (Evaluator.callValue known id callee arguments store)
  | .literal id literal, store =>
    let store := literal.evaluateItems store
    let value := Evaluator.literalValue known id store literal
    (store.putKnown literal.id value).putKnown id value
  | .member id base _, store =>
    let store := base.evaluate store
    store.putKnown id (Evaluator.referred known id store)
  | .placeholder _, store => store

/-- Evaluates the expression of an argument. -/
def Argument.evaluate : Argument → Store → Store
  | .argument _ _ expression, store => expression.evaluate store
  | .placeholder _, store => store

/-- Evaluates the items of an array. -/
def Literal.evaluateItems : Literal → Store → Store
  | .array _ items, store => Expression.evaluateAll items store
  | .none _, store | .boolean _ _, store | .number _ _, store | .string _ _, store
  | .color _ _, store => store

/-- Evaluates a list of expressions. -/
def Expression.evaluateAll : List Expression → Store → Store
  | [], store => store
  | expression :: rest, store => Expression.evaluateAll rest (expression.evaluate store)

/-- Evaluates a list of arguments. -/
def Argument.evaluateAll : List Argument → Store → Store
  | [], store => store
  | argument :: rest, store => Argument.evaluateAll rest (argument.evaluate store)

end

mutual

/-- Runs a statement. -/
def Statement.evaluate : Statement → Store → Store
  | .declaration _ content, store => content.evaluate store
  | .branch _ condition block, store =>
    let store := condition.evaluate known store
    if (store.find condition.id).bind Value.asBool = some true then
      Statement.evaluateAll block store
    else store
  | .loop _ _ _ _, store => store
  | .expression _ expression, store | .result _ expression, store =>
    expression.evaluate known store
  | .placeholder _, store => store

/-- Gives values to what a declaration introduces. -/
def Declaration.evaluate : Declaration → Store → Store
  | .value _ _ _ none, store => store
  | .value _ name _ (some initializer), store =>
    let store := initializer.evaluate known store
    store.putKnown name.id (store.find initializer.id)
  | .function _ name _ _ _ _, store =>
    store.putKnown name.id (Evaluator.functionValue known name)
  | .record _ name _ declarations, store =>
    Evaluator.enterRecord known (Expression.evaluate known) name declarations store
  | .enumeration _ name _ cases, store => cases.foldl (Evaluator.enterCase known name) store
  | .space _ _ declarations, store => Declaration.evaluateAll declarations store
  | .library _ _, store | .placeholder _, store => store

/-- Runs a block. -/
def Statement.evaluateAll : List Statement → Store → Store
  | [], store => store
  | statement :: rest, store => Statement.evaluateAll rest (statement.evaluate store)

/-- Gives values to what a list of declarations introduces. -/
def Declaration.evaluateAll : List Declaration → Store → Store
  | [], store => store
  | declaration :: rest, store => Declaration.evaluateAll rest (declaration.evaluate store)

end

end Recursion

/-- The effect of an operator in terms of the values of both operands. -/
theorem Evaluator.applyOperator_eq (known : Knowledge) (id : NodeId) (operator : Operator)
    (left right : Expression) (store : Store) :
    applyOperator known id operator left right store =
      if operator = .setEqualTo then
        match store.find right.id with
        | some value => assign known left.id value store
        | none => store
      else
        store.putKnown id ((store.find left.id).bind fun first =>
          (store.find right.id).bind fun second =>
            (operator.compare? first.memory second.memory).map .bool) := by
  by_cases hassigns : operator = .setEqualTo <;> cases hright : store.find right.id <;>
    cases hleft : store.find left.id <;>
    simp [applyOperator, hassigns, hright, hleft, Store.putKnown]

/-! ## Walks -/

variable {known : Knowledge} {nested : Outline → Store → Store} {bound : Nat}

/-- Evaluation never stops a walk. -/
theorem Evaluator.visit_neverStops : Visitor.NeverStops (visit known nested) := by
  intro node control store
  unfold visit
  split
  · rfl
  · cases node with
    | statement statement => cases statement <;> rfl
    | declaration declaration =>
      cases declaration <;> rfl
    | program | expression | pattern | identifier | typeForm | literal | parameter | generic | case
    | argument => rfl

mutual

/-- The walk of an expression starts no walks of its own. -/
theorem Expression.tour_visit : (expression : Expression) → (store : Store) →
    expression.outline.tour (visit known nested) store = expression.evaluate known store
  | .binary id left right operator, store => by
    change Evaluator.applyOperator known id operator left right
      (right.outline.tour (visit known nested) (left.outline.tour (visit known nested) store)) = _
    rw [left.tour_visit, right.tour_visit, Expression.evaluate]
  | .identifier _ _, _ => rfl
  | .call id callee arguments, store => by
    change Evaluator.leaveExpression known (.call id callee arguments)
      (Outline.tourAll (visit known nested) (Argument.outlines arguments)
        (callee.outline.tour (visit known nested) store)) = _
    rw [callee.tour_visit, Argument.tourAll_visit, Expression.evaluate]
    rfl
  | .literal id literal, store => by
    change Evaluator.leaveExpression known (.literal id literal)
      (literal.outline.tour (visit known nested) store) = _
    rw [literal.tour_visit, Expression.evaluate]
    rfl
  | .member id base name, store => by
    change Evaluator.leaveExpression known (.member id base name)
      (base.outline.tour (visit known nested) store) = _
    rw [base.tour_visit, Expression.evaluate]
    rfl
  | .placeholder _, _ => rfl

/-- Touring the outline of an argument is evaluating it. -/
theorem Argument.tour_visit : (argument : Argument) → (store : Store) →
    argument.outline.tour (visit known nested) store = argument.evaluate known store
  | .argument _ _ expression, store => expression.tour_visit store
  | .placeholder _, _ => rfl

theorem Literal.tour_visit : (literal : Literal) → (store : Store) →
    literal.outline.tour (visit known nested) store = literal.evaluateItems known store
  | .array _ items, store => Expression.tourAll_visit items store
  | .none _, _ | .boolean _ _, _ | .number _ _, _ | .string _ _, _ | .color _ _, _ => rfl

/-- Touring the outlines of several expressions is evaluating them in their order. -/
theorem Expression.tourAll_visit : (expressions : List Expression) → (store : Store) →
    Outline.tourAll (visit known nested) (Expression.outlines expressions) store =
      Expression.evaluateAll known expressions store
  | [], _ => rfl
  | expression :: rest, store => by
    rw [Expression.outlines, Outline.tourAll, expression.tour_visit, Expression.tourAll_visit rest,
      Expression.evaluateAll]

theorem Argument.tourAll_visit : (arguments : List Argument) → (store : Store) →
    Outline.tourAll (visit known nested) (Argument.outlines arguments) store =
      Argument.evaluateAll known arguments store
  | [], _ => rfl
  | argument :: rest, store => by
    rw [Argument.outlines, Outline.tourAll, argument.tour_visit, Argument.tourAll_visit rest,
      Argument.evaluateAll]

end

namespace Evaluator

/-- The walks that visits start do what the recursion does, on up to a number of nodes. -/
structure Nests (known : Knowledge) (nested : Outline → Store → Store) (bound : Nat) : Prop where
  expression : ∀ e : Expression, e.outline.preorder.length ≤ bound → ∀ store,
    nested e.outline store = e.evaluate known store
  statement : ∀ s : Statement, s.outline.preorder.length ≤ bound → ∀ store,
    nested s.outline store = s.evaluate known store

/-- The block of a branch is walked one statement after the other. -/
theorem Nests.foldl_block (h : Nests known nested bound) {block : List Statement}
    (hblock : (Outline.preorders (Statement.outlines block)).length ≤ bound) (store : Store) :
    block.foldl (fun store statement => nested statement.outline store) store =
      Statement.evaluateAll known block store := by
  induction block generalizing store with
  | nil => rfl
  | cons statement rest ih =>
    rw [Statement.outlines, Outline.preorders, List.length_append] at hblock
    have hfirst : statement.outline.preorder.length ≤ bound := by omega
    rw [List.foldl_cons, h.statement statement hfirst, ih (by omega), Statement.evaluateAll]

/-- The defaults of the members of a record are walked in order. -/
theorem Nests.foldl_members (h : Nests known nested bound) {declarations : List Declaration}
    (hdeclarations : (Outline.preorders (Declaration.outlines declarations)).length ≤ bound)
    (state : List Slot × Store) :
    declarations.foldl (enterMember fun default => nested default.outline) state =
      declarations.foldl (enterMember (Expression.evaluate known)) state := by
  induction declarations generalizing state with
  | nil => rfl
  | cons declaration rest ih =>
    rw [Declaration.outlines, Outline.preorders, List.length_append] at hdeclarations
    have hfirst : enterMember (fun default => nested default.outline) state declaration =
        enterMember (Expression.evaluate known) state declaration := by
      cases declaration with
      | value id name form initializer =>
        cases initializer with
        | none => rfl
        | some initializer =>
          simp only [Declaration.outline, Outline.preorder, Outline.preorders,
            Outline.preorders_append, Option.map_some, Option.toList_some, List.length_cons,
            List.length_append] at hdeclarations
          simp only [enterMember]
          rw [h.expression initializer (by omega)]
      | function | enumeration | record | space | library | placeholder => rfl
    rw [List.foldl_cons, List.foldl_cons, hfirst, ih (by omega)]

end Evaluator

mutual

/-- The walk of a statement, when the walks inside of it are right. -/
theorem Statement.tour_visit (h : Evaluator.Nests known nested bound) : (statement : Statement) →
    statement.outline.preorder.length ≤ bound + 1 → (store : Store) →
      statement.outline.tour (visit known nested) store = statement.evaluate known store
  | .declaration _ content, hlength, store => by
    simp only [Statement.outline, Outline.preorder, Outline.preorders, List.length_cons,
      List.append_nil] at hlength
    exact content.tour_visit h (by omega) store
  | .branch _ condition block, hlength, store => by
    simp only [Statement.outline, Outline.preorder, Outline.preorders, List.length_cons,
      List.length_append] at hlength
    change Evaluator.enterBranch nested condition block store = _
    simp only [Evaluator.enterBranch, Statement.evaluate]
    rw [h.expression condition (by omega)]
    split
    · exact h.foldl_block (by omega) _
    · rfl
  | .loop _ _ _ _, _, _ => rfl
  | .expression _ expression, _, store | .result _ expression, _, store =>
    expression.tour_visit store
  | .placeholder _, _, _ => rfl

/-- The walk of a declaration, when the walks inside of it are right. -/
theorem Declaration.tour_visit (h : Evaluator.Nests known nested bound) :
    (declaration : Declaration) → declaration.outline.preorder.length ≤ bound + 1 →
      (store : Store) →
        declaration.outline.tour (visit known nested) store = declaration.evaluate known store
  | .value _ name form initializer, _, store => by
    -- a written type is walked without an effect
    have hform : Outline.tourAll (visit known nested) (form.map TypeForm.outline).toList store =
        store := by
      cases form with
      | none => rfl
      | some form => cases form <;> rfl
    cases initializer with
    | none =>
      change Outline.tourAll (visit known nested) (_ ++ []) store = store
      rw [List.append_nil, hform]
    | some initializer =>
      change (fun store : Store => store.putKnown name.id (store.find initializer.id))
        (Outline.tourAll (visit known nested) (_ ++ [initializer.outline]) store) = _
      rw [Outline.tourAll_append, hform, Declaration.evaluate, ← initializer.tour_visit]
      rfl
  | .function _ _ _ _ _ _, _, _ => rfl
  | .record id name generics declarations, hlength, store => by
    -- the members are evaluated by a nested walk, which the bound on the tree leaves enough steps
    simp only [Declaration.outline, Outline.preorder, Outline.preorders_append, Outline.preorders,
      List.length_cons, List.length_append] at hlength
    change Evaluator.enterRecord known _ name declarations store =
      Evaluator.enterRecord known _ name declarations store
    simp only [Evaluator.enterRecord]
    rw [h.foldl_members (by omega)]
  | .enumeration _ _ _ _, _, _ => rfl
  | .space _ _ declarations, hlength, store => by
    simp only [Declaration.outline, Outline.preorder, Outline.preorders, List.length_cons,
      List.length_append] at hlength
    exact Declaration.tourAll_visit h declarations (by omega) store
  | .library _ _, _, _ | .placeholder _, _, _ => rfl

/-- Touring the members of a declaration is evaluating them, when the nested walks are long
enough. -/
theorem Declaration.tourAll_visit (h : Evaluator.Nests known nested bound) :
    (declarations : List Declaration) →
      (Outline.preorders (Declaration.outlines declarations)).length ≤ bound + 1 →
        (store : Store) →
          Outline.tourAll (visit known nested) (Declaration.outlines declarations) store =
            Declaration.evaluateAll known declarations store
  | [], _, _ => rfl
  | declaration :: rest, hlength, store => by
    simp only [Declaration.outlines, Outline.preorders, List.length_append] at hlength
    rw [Declaration.outlines, Outline.tourAll, declaration.tour_visit h (by omega),
      Declaration.tourAll_visit h rest (by omega), Declaration.evaluateAll]

end

namespace Evaluator

/-- Nested up to a depth, walks are right on up to that number of nodes. -/
theorem nests_walk (known : Knowledge) (depth : Nat) : Nests known (walk known depth) depth := by
  induction depth with
  | zero =>
    constructor
    · intro e hlength
      have hpos := e.outline.length_preorder_pos
      omega
    · intro s hlength
      have hpos := s.outline.length_preorder_pos
      omega
  | succ depth ih =>
    constructor
    · intro e hlength store
      rw [walk, Outline.walk, (e.outline.walkPre_eq_tour visit_neverStops rfl store).2]
      exact e.tour_visit store
    · intro s hlength store
      rw [walk, Outline.walk, (s.outline.walkPre_eq_tour visit_neverStops rfl store).2]
      exact s.tour_visit ih hlength store

/-- Touring the outlines of a block is evaluating it, when the nested walks are long enough. -/
theorem tourAll_visit {depth : Nat} (h : Nests known nested depth) (block : List Statement)
    (hlength : (Outline.preorders (Statement.outlines block)).length ≤ depth + 1) (store : Store) :
    Outline.tourAll (visit known nested) (Statement.outlines block) store =
      Statement.evaluateAll known block store := by
  induction block generalizing store with
  | nil => rfl
  | cons statement rest ih =>
    simp only [Statement.outlines, Outline.preorders, List.length_append] at hlength
    rw [Statement.outlines, Outline.tourAll, statement.tour_visit h (by omega), ih (by omega),
      Statement.evaluateAll]

end Evaluator

/-- The evaluation of a program runs its statements in order. -/
theorem Program.evaluate_eq (known : Knowledge) (program : Program) :
    program.evaluate known = Statement.evaluateAll known program.block [] := by
  have hlength : program.nodeCount =
      (Outline.preorders (Statement.outlines program.block)).length + 1 := rfl
  rw [Program.evaluate, hlength, Evaluator.walk, Outline.walk,
    (program.outline.walkPre_eq_tour Evaluator.visit_neverStops rfl []).2]
  exact Evaluator.tourAll_visit (Evaluator.nests_walk known _) program.block (by omega) []

end TreeLang
