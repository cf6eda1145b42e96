import TreeLang.Proofs.Evaluation.Records
import TreeLang.Proofs.Evaluation.Recursion

/-!
# An evaluation is a list of effects

All that an evaluation does to the store is done by the second visits of expressions and by the
declarations. Listed in their order, these effects alone lead from one store to the next. Which ones
there are depends on the store only where a branch is taken.
-/

namespace TreeLang

namespace Evaluator

/-- What changes the store: the second visit of an expression, or a declaration. A record is
constructed from the store that its declaration was entered with. -/
inductive Effect where
  | leave (expression : Expression)
  | bind (name : Pattern) (initializer : Expression)
  | native (name : Pattern)
  | case (enumeration : Pattern) (case : EnumerationCase)
  | construct (name : Pattern) (declarations : List Declaration) (entered : Store)

variable (known : Knowledge)

/-- Performs an effect. -/
def perform (store : Store) : Effect → Store
  | .leave expression => leaveExpression known expression store
  | .bind name initializer => store.putKnown name.id (store.find initializer.id)
  | .native name => store.putKnown name.id (functionValue known name)
  | .case enumeration case => enterCase known enumeration store case
  | .construct name declarations entered =>
    store.put name.id (constructorValue known name
      (declaredMembers (Expression.evaluate known) declarations entered))

/-- Performs effects in order. -/
def performAll (effects : List Effect) (store : Store) : Store :=
  effects.foldl (perform known) store

variable {known}

/-- Effects are performed one after the other. -/
theorem performAll_append (first second : List Effect) (store : Store) :
    performAll known (first ++ second) store =
      performAll known second (performAll known first store) := List.foldl_append

end Evaluator

open Evaluator (Effect performAll performAll_append)

/-! ## The effects of a program -/

mutual

/-- The effects of an expression: the second visits of its parts, and its own. -/
def Expression.effects : Expression → List Effect
  | .binary id left right operator =>
    left.effects ++ (right.effects ++ [.leave (.binary id left right operator)])
  | .identifier id used => [.leave (.identifier id used)]
  | .call id callee arguments =>
    callee.effects ++ (Argument.effectsAll arguments ++ [.leave (.call id callee arguments)])
  | .literal id literal => literal.effects ++ [.leave (.literal id literal)]
  | .member id base name => base.effects ++ [.leave (.member id base name)]
  | .placeholder _ => []

/-- The effects of the expression of an argument. -/
def Argument.effects : Argument → List Effect
  | .argument _ _ expression => expression.effects
  | .placeholder _ => []

/-- The effects of the items of an array. -/
def Literal.effects : Literal → List Effect
  | .array _ items => Expression.effectsAll items
  | .none _ | .boolean _ _ | .number _ _ | .string _ _ | .color _ _ => []

/-- The effects of a list of expressions. -/
def Expression.effectsAll : List Expression → List Effect
  | [] => []
  | expression :: rest => expression.effects ++ Expression.effectsAll rest

/-- The effects of a list of arguments. -/
def Argument.effectsAll : List Argument → List Effect
  | [] => []
  | argument :: rest => argument.effects ++ Argument.effectsAll rest

end

/-- The effects of the defaults of the members of a record. -/
def Declaration.defaultEffects (declarations : List Declaration) : List Effect :=
  declarations.flatMap fun
    | .value _ _ _ (some initializer) => initializer.effects
    | _ => []

section Effects

variable (known : Knowledge)

mutual

/-- The effects of a statement that is run in a store. -/
def Statement.effects : Statement → Store → List Effect
  | .declaration _ content, store => content.effects store
  | .branch _ condition block, store =>
    let store := condition.evaluate known store
    condition.effects ++
      if (store.find condition.id).bind Value.asBool = some true then
        Statement.effectsAll block store
      else []
  | .loop _ _ _ _, _ | .placeholder _, _ => []
  | .expression _ expression, _ | .result _ expression, _ => expression.effects

/-- The effects of a declaration that is entered with a store. -/
def Declaration.effects : Declaration → Store → List Effect
  | .value _ name _ (some initializer), _ => initializer.effects ++ [.bind name initializer]
  | .value _ _ _ none, _ | .library _ _, _ | .placeholder _, _ => []
  | .function _ name _ _ _ _, _ => [.native name]
  | .record _ name _ declarations, store =>
    if name.name ∈ primitiveTypes then []
    else Declaration.defaultEffects declarations ++ [.construct name declarations store]
  | .enumeration _ name _ cases, _ => cases.map (.case name)
  | .space _ _ declarations, store => Declaration.effectsAll declarations store

/-- The effects of a block that is run in a store. -/
def Statement.effectsAll : List Statement → Store → List Effect
  | [], _ => []
  | statement :: rest, store =>
    statement.effects store ++ Statement.effectsAll rest (statement.evaluate known store)

/-- The effects of declarations, the first of which is entered with a store. -/
def Declaration.effectsAll : List Declaration → Store → List Effect
  | [], _ => []
  | declaration :: rest, store =>
    declaration.effects store ++ Declaration.effectsAll rest (declaration.evaluate known store)

end

/-- The effects of a program. -/
def Program.effects (program : Program) : List Effect :=
  Statement.effectsAll known program.block []

end Effects

/-! ## Evaluation performs the effects -/

variable {known : Knowledge}

mutual

/-- Evaluating an expression is performing its effects. -/
theorem Expression.performAll_effects : (expression : Expression) → (store : Store) →
    performAll known expression.effects store = expression.evaluate known store
  | .binary id left right operator, store => by
    rw [Expression.effects, performAll_append, performAll_append, left.performAll_effects,
      right.performAll_effects]
    rfl
  | .identifier _ _, _ => rfl
  | .call id callee arguments, store => by
    rw [Expression.effects, performAll_append, performAll_append, callee.performAll_effects,
      Argument.performAll_effectsAll arguments]
    rfl
  | .literal id literal, store => by
    rw [Expression.effects, performAll_append, literal.performAll_effects]
    rfl
  | .member id base name, store => by
    rw [Expression.effects, performAll_append, base.performAll_effects]
    rfl
  | .placeholder _, _ => rfl

theorem Argument.performAll_effects : (argument : Argument) → (store : Store) →
    performAll known argument.effects store = argument.evaluate known store
  | .argument _ _ expression, store => expression.performAll_effects store
  | .placeholder _, _ => rfl

/-- The items of an array have the effects of their expressions. -/
theorem Literal.performAll_effects : (literal : Literal) → (store : Store) →
    performAll known literal.effects store = literal.evaluateItems known store
  | .array _ items, store => Expression.performAll_effectsAll items store
  | .none _, _ | .boolean _ _, _ | .number _ _, _ | .string _ _, _ | .color _ _, _ => rfl

theorem Expression.performAll_effectsAll : (expressions : List Expression) → (store : Store) →
    performAll known (Expression.effectsAll expressions) store =
      Expression.evaluateAll known expressions store
  | [], _ => rfl
  | expression :: rest, store => by
    rw [Expression.effectsAll, performAll_append, expression.performAll_effects,
      Expression.performAll_effectsAll rest, Expression.evaluateAll]

theorem Argument.performAll_effectsAll : (arguments : List Argument) → (store : Store) →
    performAll known (Argument.effectsAll arguments) store =
      Argument.evaluateAll known arguments store
  | [], _ => rfl
  | argument :: rest, store => by
    rw [Argument.effectsAll, performAll_append, argument.performAll_effects,
      Argument.performAll_effectsAll rest, Argument.evaluateAll]

end

/-- The defaults of a record are evaluated in order. -/
theorem Declaration.performAll_defaultEffects (declarations : List Declaration)
    (members : List Slot) (store : Store) :
    performAll known (Declaration.defaultEffects declarations) store =
      (declarations.foldl (Evaluator.enterMember (Expression.evaluate known))
        (members, store)).2 := by
  induction declarations generalizing members store with
  | nil => rfl
  | cons declaration rest ih =>
    rw [defaultEffects, List.flatMap_cons, performAll_append, List.foldl_cons]
    cases declaration with
    | value id name form initializer =>
      cases initializer with
      | none => exact ih _ store
      | some initializer =>
        rw [initializer.performAll_effects]
        exact ih _ (initializer.evaluate known store)
    | function | enumeration | record | space | library | placeholder => exact ih members store

mutual

/-- Evaluating a statement is performing its effects, which depend on the store where a condition
does. -/
theorem Statement.performAll_effects : (statement : Statement) → (store : Store) →
    performAll known (statement.effects known store) store = statement.evaluate known store
  | .declaration _ content, store => content.performAll_effects store
  | .branch _ condition block, store => by
    rw [Statement.effects, performAll_append, condition.performAll_effects, Statement.evaluate]
    split
    · exact Statement.performAll_effectsAll block _
    · rfl
  | .loop _ _ _ _, _ | .placeholder _, _ => rfl
  | .expression _ expression, store | .result _ expression, store =>
    expression.performAll_effects store

theorem Declaration.performAll_effects : (declaration : Declaration) → (store : Store) →
    performAll known (declaration.effects known store) store = declaration.evaluate known store
  | .value _ name _ (some initializer), store => by
    rw [Declaration.effects, performAll_append, initializer.performAll_effects]
    rfl
  | .value _ _ _ none, _ | .library _ _, _ | .placeholder _, _ | .function _ _ _ _ _ _, _ => rfl
  | .record _ name _ declarations, store => by
    rw [Declaration.effects, Declaration.evaluate, Evaluator.enterRecord]
    split
    · rfl
    · rw [performAll_append, Declaration.performAll_defaultEffects declarations []]
      rfl
  | .enumeration _ name _ cases, store => List.foldl_map
  | .space _ _ declarations, store => Declaration.performAll_effectsAll declarations store

/-- A block has the effects of its statements, each from the store that those before it have
left. -/
theorem Statement.performAll_effectsAll : (block : List Statement) → (store : Store) →
    performAll known (Statement.effectsAll known block store) store =
      Statement.evaluateAll known block store
  | [], _ => rfl
  | statement :: rest, store => by
    rw [Statement.effectsAll, performAll_append, statement.performAll_effects,
      Statement.performAll_effectsAll rest, Statement.evaluateAll]

theorem Declaration.performAll_effectsAll : (declarations : List Declaration) →
    (store : Store) →
      performAll known (Declaration.effectsAll known declarations store) store =
        Declaration.evaluateAll known declarations store
  | [], _ => rfl
  | declaration :: rest, store => by
    rw [Declaration.effectsAll, performAll_append, declaration.performAll_effects,
      Declaration.performAll_effectsAll rest, Declaration.evaluateAll]

end

/-- The evaluation of a program performs its effects. -/
theorem Program.evaluate_eq_performAll (program : Program) :
    program.evaluate known = performAll known (program.effects known) [] := by
  rw [program.evaluate_eq, Program.effects, Statement.performAll_effectsAll]

end TreeLang
