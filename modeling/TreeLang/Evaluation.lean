import TreeLang.Tree.Walk
import TreeLang.Typing.Check
import TreeLang.Value.Builtin

/-!
# Evaluation

One walk keeps the values of all nodes in a store. An expression gets its value on the second visit,
from the values of its parts. It never fails: a node whose parts have no value gets none. Branches
and records leave out their children and start walks of their own: a branch walks its condition
first, and its block only when the condition is true, and a record walks the defaults of its
members. Loops are not walked, and of functions only the native ones can be called.
-/

namespace TreeLang

/-- The values of nodes; a pattern has the value of its declaration. -/
abbrev Store := Table NodeId Value

/-- What an evaluation knows beforehand. -/
structure Knowledge where
  scope : Scope
  inference : Inference
  substitution : Substitution

namespace Knowledge

/-- The type of an expression. -/
def nodeType (known : Knowledge) (id : NodeId) : Option Term :=
  (known.inference.nodeTerms.find id).map known.substitution.apply

/-- The type of a pattern. -/
def patternType (known : Knowledge) (id : NodeId) : Option Term :=
  (known.inference.patternTerms.find id).map known.substitution.apply

/-- The native function that a declaration stands for. -/
def builtinFor (known : Knowledge) (pattern : NodeId) : Option Builtin :=
  (known.scope.qualifiedName pattern).bind Builtin.ofPath?

end Knowledge

namespace Store

/-- Sets a value, if there is one. -/
def putKnown (id : NodeId) (value : Option Value) (store : Store) : Store :=
  match value with
  | some value => store.put id value
  | none => store

end Store

/-- The result of a comparison. Equality is one of structure, order is for numbers and strings. -/
def Operator.compare? (operator : Operator) (left right : Memory) : Option Bool :=
  match operator with
  | .isEqualTo => some (left.same right)
  | .isNotEqualTo => some !left.same right
  | .isLessThan => (left.compare? right).map Ordering.isLT
  | .isGreaterThan => (left.compare? right).map Ordering.isGT
  | .isLessThanOrEqualTo => (left.compare? right).map Ordering.isLE
  | .isGreaterThanOrEqualTo => (left.compare? right).map Ordering.isGE
  | .setEqualTo => none

/-- Fills the members of a record from the arguments of a call, from a position on. A label names
its member, and an argument without one goes to the member at its position. -/
def fillMembers : Nat → List (Option String × Value) → List Slot → List Slot
  | _, [], members => members
  | position, (some label, value) :: rest, members =>
    fillMembers (position + 1) rest (Slot.fillNamed label value members)
  | position, (none, value) :: rest, members =>
    fillMembers (position + 1) rest (Slot.fillAt position value members)

/-- The labels and values of the arguments of a call, when all of them have a value. -/
def givenArguments (store : Store) : List Argument → Option (List (Option String × Value))
  | [] => some []
  | .placeholder _ :: rest => givenArguments store rest
  | .argument _ label expression :: rest => do
    let value ← store.find expression.id
    let given ← givenArguments store rest
    some ((label, value) :: given)

/-- The result type that a function type states. -/
def Term.resultType : Term → Option Term
  | .fn _ result => some result
  | _ => none

/-- Calls what can be called with the values given to it; a record and a case are made at the given
type. -/
def Callable.call (type : Term) (given : List (Option String × Value)) : Callable → Option Value
  | .builtin native => native.call given
  | .constructor members => some (.mk type (.record (fillMembers 0 given members)))
  | .caseOf case => some (.mk type (.enumeration case (given.map Prod.snd)))

/-- The value of a call of a function with the values given to it. Its type is the expected one, or
else the result that the function states. -/
def Value.call? (expected : Option Term) (function : Value)
    (given : List (Option String × Value)) : Option Value := do
  let callable ← function.asCallable
  callable.call ((expected.or function.type.resultType).getD .unit) given

namespace Evaluator

variable (known : Knowledge)

/-! ## Expressions -/

/-- The value of an array of items that have values. -/
def arrayValue (expected : Option Term) (items : List Value) : Value :=
  let element := match items with
    | first :: _ => first.type
    | [] => .unit
  .mk (expected.getD (.array element)) (.array items)

/-- The value of a literal whose items are done. -/
def literalValue (id : NodeId) (store : Store) : Literal → Option Value
  | .none _ => some .unit
  | .boolean _ value => some (.bool value)
  | .number _ value => some (.number value)
  | .string _ value => some (.string value)
  | .color _ value => some (.color value)
  | .array _ items =>
    (items.mapM fun item => store.find item.id).map (arrayValue (known.nodeType id))

/-- The value of a call whose parts are done. -/
def callValue (id : NodeId) (callee : Expression) (arguments : List Argument) (store : Store) :
    Option Value := do
  let function ← store.find callee.id
  let given ← givenArguments store arguments
  function.call? (known.nodeType id) given

/-- Sets what an expression refers to. -/
def assign (target : NodeId) (value : Value) (store : Store) : Store :=
  match known.scope.patternFor target with
  | some pattern => store.put pattern value
  | none => store

/-- The effect of an operator whose operands are done. An assignment changes what its left side
refers to, and has no value itself. -/
def applyOperator (id : NodeId) (operator : Operator) (left right : Expression) (store : Store) :
    Store :=
  match store.find right.id with
  | none => store
  | some value =>
    if operator = .setEqualTo then assign known left.id value store
    else
      match store.find left.id with
      | none => store
      | some other =>
        store.putKnown id ((operator.compare? other.memory value.memory).map .bool)

/-- The value that an expression refers to at this moment. -/
def referred (id : NodeId) (store : Store) : Option Value :=
  (known.scope.patternFor id).bind fun pattern => store.find pattern

/-- The second visit of an expression. -/
def leaveExpression (expression : Expression) (store : Store) : Store :=
  match expression with
  | .literal id literal =>
    let value := literalValue known id store literal
    (store.putKnown literal.id value).putKnown id value
  | .identifier id _ | .member id _ _ => store.putKnown id (referred known id store)
  | .call id callee arguments => store.putKnown id (callValue known id callee arguments store)
  | .binary id left right operator => applyOperator known id operator left right store
  | .placeholder _ => store

/-! ## Declarations -/

/-- Evaluates the default of a member of a record, and declares the member. What is no variable is
no member. -/
def enterMember (evaluate : Expression → Store → Store) (state : List Slot × Store) :
    Declaration → List Slot × Store
  | .value _ name _ (some initializer) =>
    let store := evaluate initializer state.2
    (Slot.declare (Slot.ofOption name.name (store.find initializer.id)) state.1, store)
  | .value _ name _ none => (Slot.declare (.vacant name.name) state.1, state.2)
  | _ => state

/-- Gives a value to a case: a function when it carries values. -/
def enterCase (enumeration : Pattern) (store : Store) : EnumerationCase → Store
  | .case _ name associatedTypes =>
    let type := (known.patternType name.id).getD (.named enumeration.name)
    let memory := match associatedTypes with
      | [] => .enumeration name.name []
      | _ :: _ => .function (.caseOf name.name)
    store.put name.id (.mk type memory)
  | .placeholder _ => store

/-- The value of a function, when it is a native one. -/
def functionValue (name : Pattern) : Option Value :=
  (known.builtinFor name.id).map fun builtin =>
    .mk ((known.patternType name.id).getD .unit) (.function (.builtin builtin))

/-- The constructor of a record with the defaults of its members. -/
def constructorValue (name : Pattern) (members : List Slot) : Value :=
  .mk ((known.patternType name.id).getD (.fn [] (.named name.name)))
    (.function (.constructor members))

/-- Gives a value to the name of a record: its constructor. A primitive type has none. -/
def enterRecord (evaluate : Expression → Store → Store) (name : Pattern)
    (declarations : List Declaration) (store : Store) : Store :=
  if name.name ∈ primitiveTypes then store
  else
    let (members, store) := declarations.foldl (enterMember evaluate) ([], store)
    store.put name.id (constructorValue known name members)

section Nested

-- How a visit walks the outline of a part of its node.
variable (nested : Outline → Store → Store)

/-- The first visit of a declaration. -/
def enterDeclaration (declaration : Declaration) (control : Control) (store : Store) :
    Control × Store :=
  match declaration with
  | .function _ name _ _ _ _ =>
    ({ control with ignoreChildren := true }, store.putKnown name.id (functionValue known name))
  | .record _ name _ declarations =>
    ({ control with ignoreChildren := true },
      enterRecord known (fun default => nested default.outline) name declarations store)
  | .enumeration _ name _ cases =>
    ({ control with ignoreChildren := true }, cases.foldl (enterCase known name) store)
  | .value _ _ _ _ | .space _ _ _ | .library _ _ | .placeholder _ =>
    ({ control with needsRevisit := true }, store)

/-! ## The walk -/

/-- The first visit of a branch. -/
def enterBranch (condition : Expression) (block : List Statement) (store : Store) : Store :=
  let store := nested condition.outline store
  if (store.find condition.id).bind Value.asBool = some true then
    block.foldl (fun store statement => nested statement.outline store) store
  else store

/-- The first visit of a node. -/
def enter (node : Node) (control : Control) (store : Store) : Control × Store :=
  match node with
  | .statement (.branch _ condition block) =>
    ({ control with ignoreChildren := true }, enterBranch nested condition block store)
  | .statement (.loop _ _ _ _) => ({ control with ignoreChildren := true }, store)
  | .declaration declaration => enterDeclaration known nested declaration control store
  | .typeForm _ => ({ control with ignoreChildren := true }, store)
  | _ => ({ control with needsRevisit := true }, store)

/-- The second visit of a node. A variable has the value of its initializer. -/
def leave (node : Node) (store : Store) : Store :=
  match node with
  | .declaration (.value _ name _ (some initializer)) =>
    store.putKnown name.id (store.find initializer.id)
  | .expression expression => leaveExpression known expression store
  | _ => store

/-- The visitor of the walk. -/
def visit : Visitor Store := fun node control store =>
  if control.isRevisit then (control, leave known node store)
  else enter known nested node control store

end Nested

/-- A walk whose visits may start walks of their own, nested up to a depth. A visit walks parts of
its node only, so the number of nodes is a depth that no walk comes to. -/
def walk : Nat → Outline → Store → Store
  | 0, _, store => store
  | depth + 1, outline, store => (outline.walk .pre (visit known (walk depth)) store).2

end Evaluator

/-- The values of a program. -/
def Program.evaluate (known : Knowledge) (program : Program) : Store :=
  Evaluator.walk known program.nodeCount program.outline []

/-- The values of a checked program. Types are left as they were inferred when unification came to
no good end. -/
def Program.evaluateChecked (program : Program) (checked : Checked) : Store :=
  program.evaluate
    { scope := checked.scope
      inference := checked.inference
      substitution := checked.solution.substitution?.getD .empty }

end TreeLang
