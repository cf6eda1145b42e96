import TreeLang.Proofs.Evaluation.Writing

/-!
# A direct interpreter

The interpreter hands the value of an expression on to what the expression is part of. It looks into
the store only for the patterns that names refer to, and notes there what the nodes come to. With
distinct ids the evaluator does the same: when it looks up the value of a part, no other node has
written there.
-/

namespace TreeLang

section Interpreter

variable (known : Knowledge)

/-- A value, and the store after it is noted as that of a node. -/
def noted (id : NodeId) (value : Option Value) (store : Store) : Option Value × Store :=
  (value, store.putKnown id value)

mutual

/-- The value of an expression and the store after it. Its parts come first, from left to right. A
name has the value that its pattern holds at that moment. An assignment writes to the pattern of its
left side and has no value itself. -/
def Expression.interpret : Expression → Store → Option Value × Store
  | .binary id left right operator, store =>
    let (first, store) := left.interpret store
    let (second, store) := right.interpret store
    if operator = .setEqualTo then
      (none, match second with
        | some value => Evaluator.assign known left.id value store
        | none => store)
    else
      noted id (first.bind fun first => second.bind fun second =>
        (operator.compare? first.memory second.memory).map .bool) store
  | .identifier id _, store => noted id (Evaluator.referred known id store) store
  | .call id callee arguments, store =>
    let (function, store) := callee.interpret store
    let (given, store) := Argument.interpretAll arguments store
    noted id (function.bind fun function => given.bind (function.call? (known.nodeType id))) store
  | .literal id literal, store =>
    let (value, store) := literal.interpret (known.nodeType id) store
    noted id value (store.putKnown literal.id value)
  | .member id base _, store =>
    let (_, store) := base.interpret store
    noted id (Evaluator.referred known id store) store
  | .placeholder _, store => (none, store)

/-- The value of a literal. An array has one when all of its items do. -/
def Literal.interpret (expected : Option Term) : Literal → Store → Option Value × Store
  | .none _, store => (some .unit, store)
  | .boolean _ value, store => (some (.bool value), store)
  | .number _ value, store => (some (.number value), store)
  | .string _ value, store => (some (.string value), store)
  | .color _ value, store => (some (.color value), store)
  | .array _ items, store =>
    let (values, store) := Expression.interpretAll items store
    (values.map (Evaluator.arrayValue expected), store)

/-- The values of a list of expressions, when all of them have one. -/
def Expression.interpretAll : List Expression → Store → Option (List Value) × Store
  | [], store => (some [], store)
  | expression :: rest, store =>
    let (value, store) := expression.interpret store
    let (values, store) := Expression.interpretAll rest store
    (do return (← value) :: (← values), store)

/-- The labels and values of the arguments of a call, when all that are no placeholders have a
value. -/
def Argument.interpretAll :
    List Argument → Store → Option (List (Option String × Value)) × Store
  | [], store => (some [], store)
  | .placeholder _ :: rest, store => Argument.interpretAll rest store
  | .argument _ label expression :: rest, store =>
    let (value, store) := expression.interpret store
    let (given, store) := Argument.interpretAll rest store
    (do return (label, ← value) :: (← given), store)

end

/-- Runs the default of a member of a record, and declares the member with its value. -/
def interpretMember (state : List Slot × Store) : Declaration → List Slot × Store
  | .value _ name _ (some initializer) =>
    let (value, store) := initializer.interpret known state.2
    (Slot.declare (Slot.ofOption name.name value) state.1, store)
  | .value _ name _ none => (Slot.declare (.vacant name.name) state.1, state.2)
  | _ => state

mutual

/-- Runs a statement. The block of a branch runs when the condition is true; a loop does not run. -/
def Statement.interpret : Statement → Store → Store
  | .declaration _ content, store => content.interpret store
  | .branch _ condition block, store =>
    let (value, store) := condition.interpret known store
    if value.bind Value.asBool = some true then Statement.interpretAll block store else store
  | .loop _ _ _ _, store => store
  | .expression _ expression, store | .result _ expression, store =>
    (expression.interpret known store).2
  | .placeholder _, store => store

/-- Runs a declaration. A variable has the value of its initializer, a record is a constructor with
the defaults of its members, and of functions only the native ones have a value. -/
def Declaration.interpret : Declaration → Store → Store
  | .value _ _ _ none, store => store
  | .value _ name _ (some initializer), store =>
    let (value, store) := initializer.interpret known store
    store.putKnown name.id value
  | .function _ name _ _ _ _, store =>
    store.putKnown name.id (Evaluator.functionValue known name)
  | .record _ name _ declarations, store =>
    if name.name ∈ primitiveTypes then store
    else
      let (members, store) := declarations.foldl (interpretMember known) ([], store)
      store.put name.id (Evaluator.constructorValue known name members)
  | .enumeration _ name _ cases, store => cases.foldl (Evaluator.enterCase known name) store
  | .space _ _ declarations, store => Declaration.interpretAll declarations store
  | .library _ _, store | .placeholder _, store => store

/-- Runs statements in order. -/
def Statement.interpretAll : List Statement → Store → Store
  | [], store => store
  | statement :: rest, store => Statement.interpretAll rest (statement.interpret store)

/-- Runs declarations in order. -/
def Declaration.interpretAll : List Declaration → Store → Store
  | [], store => store
  | declaration :: rest, store => Declaration.interpretAll rest (declaration.interpret store)

end

/-- The store after a program. -/
def Program.interpret (program : Program) : Store := Statement.interpretAll known program.block []

end Interpreter

/-! ## States -/

open Store (Keeps)

variable {known : Knowledge} {bound : NodeId → Prop} {nodes first second : List Node}
  {store store' store'' : Store}

/-- Some nodes may be evaluated: their ids are distinct, those of patterns are bound, those of
expressions and literals are not, and nothing but what is bound has a value yet. -/
structure Store.Ready (bound : NodeId → Prop) (nodes : List Node) (store : Store) : Prop where
  distinct : (nodes.map Node.id).Nodup
  pattern : ∀ p, .pattern p ∈ nodes → bound p.id
  expression : ∀ e, .expression e ∈ nodes → ¬ bound e.id
  literal : ∀ l, .literal l ∈ nodes → ¬ bound l.id
  fresh : ∀ n ∈ nodes, ¬ bound n.id → store.find n.id = none

namespace Store.Ready

/-- Some of the nodes may be evaluated, after others were. -/
theorem after (h : Ready bound nodes store) (hkeeps : Keeps bound first store store')
    (hsecond : second.Sublist nodes) (hapart : ∀ n ∈ second, n.id ∉ first.map Node.id) :
    Ready bound second store' where
  distinct := h.distinct.sublist (hsecond.map Node.id)
  pattern p hp := h.pattern p (hsecond.subset hp)
  expression e he := h.expression e (hsecond.subset he)
  literal l hl := h.literal l (hsecond.subset hl)
  fresh n hn hbound :=
    (hkeeps n.id hbound (hapart n hn)).trans (h.fresh n (hsecond.subset hn) hbound)

/-- A store is ready for fewer nodes. -/
theorem sublist (h : Ready bound nodes store) (hfirst : first.Sublist nodes) :
    Ready bound first store :=
  h.after (Keeps.refl : Keeps bound [] store store) hfirst fun _ _ => List.not_mem_nil

/-- A store that is ready for some nodes is ready for the first ones of them. -/
theorem left (h : Ready bound (first ++ second) store) : Ready bound first store :=
  h.sublist (List.sublist_append_left _ _)

/-- The ids of two parts of a list are apart. -/
theorem apart (h : Ready bound (first ++ second) store) {n : Node} (hn : n ∈ second) :
    n.id ∉ first.map Node.id := by
  have hdistinct := h.distinct
  rw [List.map_append] at hdistinct
  exact fun hmem => List.disjoint_of_nodup_append hdistinct hmem (List.mem_map_of_mem hn)

/-- What follows may be evaluated after what stands before. -/
theorem right (h : Ready bound (first ++ second) store) (hkeeps : Keeps bound first store store') :
    Ready bound second store' :=
  h.after hkeeps (List.sublist_append_right _ _) fun _ => h.apart

section Node

variable {item : Node} {children outlines : List Outline} {c : Outline}

/-- A store that is ready for an outline is ready for the children of its root. -/
theorem below (h : Ready bound (Outline.node item children).preorder store) :
    Ready bound (Outline.preorders children) store := h.sublist (List.sublist_cons_self _ _)

/-- A store that is ready for an outline is ready for any of the children of its root, in their
order. -/
theorem among (h : Ready bound (Outline.node item children).preorder store)
    (houtlines : outlines.Sublist children) : Ready bound (Outline.preorders outlines) store := by
  apply h.below.sublist
  rw [Outline.preorders_eq_flatMap, Outline.preorders_eq_flatMap]
  exact houtlines.flatMap _

/-- A store that is ready for an outline is ready for each child of its root. -/
theorem child (h : Ready bound (Outline.node item children).preorder store) (hc : c ∈ children) :
    Ready bound c.preorder store := (h.among (List.singleton_sublist.2 hc)).left

end Node

/-- An expression keeps its value when what follows is evaluated. -/
theorem kept (h : Ready bound (first ++ second) store) (hkeeps : Keeps bound second store' store'')
    {e : Expression} (he : .expression e ∈ first) : store''.find e.id = store'.find e.id := by
  apply hkeeps e.id (h.left.expression e he)
  intro hmem
  obtain ⟨n, hn, hid⟩ := List.mem_map.1 hmem
  exact h.apart hn (List.mem_map.2 ⟨_, he, hid.symm⟩)

/-- An expression has no value yet when all below it is evaluated. -/
theorem root_eq_none {e : Expression} (h : Ready bound (.expression e :: nodes) store)
    (hkeeps : Keeps bound nodes store store') : store'.find e.id = none := by
  have hdistinct := h.distinct
  rw [List.map_cons, List.nodup_cons] at hdistinct
  have hbound := h.expression e List.mem_cons_self
  exact (hkeeps e.id hbound hdistinct.1).trans (h.fresh _ List.mem_cons_self hbound)

end Store.Ready

/-! ## Expressions -/

/-- What is noted for a node without a value is found there afterwards. -/
theorem noted_eq {id : NodeId} (h : store.find id = none) (value : Option Value) :
    noted id value store = ((store.putKnown id value).find id, store.putKnown id value) := by
  rw [noted, Store.find_putKnown_self, h, Option.or_none]

mutual

/-- The interpreter gives an expression the value that the evaluator leaves in the store. -/
theorem Expression.interpret_eq (hrefers : known.RefersTo bound) : (expression : Expression) →
    {store : Store} → store.Ready bound expression.outline.preorder →
      expression.interpret known store =
        ((expression.evaluate known store).find expression.id, expression.evaluate known store)
  | .binary id left right operator, store, h => by
    -- the store is ready for the left operand, and what that writes leaves it ready for the right
    -- one
    have hleft := left.interpret_eq hrefers h.below.left
    have hkeeps := left.keeps_evaluate hrefers store
    have hright := right.interpret_eq hrefers (h.below.right hkeeps).left
    have hkeeps' := (right.keeps_evaluate hrefers (left.evaluate known store)).only
    have hid : ¬ bound id := h.expression _ List.mem_cons_self
    -- nothing has been written under the expression's own id yet, and the left operand's value is
    -- kept
    have hnone := h.root_eq_none (hkeeps.trans hkeeps')
    have hkept := h.below.kept hkeeps' left.mem_preorder
    simp only [Expression.interpret, hleft, hright, Expression.evaluate, Evaluator.applyOperator_eq]
    rw [← hkept]
    generalize right.evaluate known (left.evaluate known store) = after at hnone
    split
    · -- an assignment writes to a pattern only
      cases after.find right.id with
      | none => exact Prod.ext hnone.symm rfl
      | some value =>
        have hassign : Keeps bound [] after (Evaluator.assign known left.id value after) :=
          Evaluator.keeps_assign hrefers left.id value after
        exact Prod.ext ((hassign id hid List.not_mem_nil).trans hnone).symm rfl
    · exact noted_eq hnone _
  | .identifier id used, store, h => noted_eq (h.root_eq_none .refl) _
  -- as with the operands, but the arguments may call functions, so that more than ids below is
  -- written
  | .call id callee arguments, store, h => by
    have hcallee := callee.interpret_eq hrefers h.below.left
    have hkeeps := callee.keeps_evaluate hrefers store
    have harguments := Argument.interpretAll_eq hrefers arguments (h.below.right hkeeps)
    have hkeeps' := Argument.keeps_evaluateAll hrefers arguments (callee.evaluate known store)
    have hnone := h.root_eq_none (hkeeps.trans hkeeps')
    have hkept := h.below.kept hkeeps' callee.mem_preorder
    simp only [Expression.interpret, hcallee, harguments, Expression.evaluate]
    rw [← hkept]
    exact noted_eq hnone _
  | .literal id literal, store, h => by
    have hliteral := literal.interpret_eq hrefers id h.below.left
    -- the literal itself is noted under its own id and then again under the expression's
    have hkeeps := (literal.keeps_evaluateItems hrefers store).andThen
      (.putKnown (.inr literal.id_mem_ids)
        (Evaluator.literalValue known id (literal.evaluateItems known store) literal) _)
    have hnone := h.root_eq_none hkeeps.only
    simp only [Expression.interpret, hliteral, Expression.evaluate]
    exact noted_eq hnone _
  | .member id base name, store, h => by
    have hbase := base.interpret_eq hrefers h.below.left
    have hkeeps := (base.keeps_evaluate hrefers store).mono
      (List.subset_append_left _ (Outline.preorders [name.outline]))
    have hnone := h.root_eq_none hkeeps
    simp only [Expression.interpret, hbase, Expression.evaluate]
    exact noted_eq hnone _
  | .placeholder id, store, h => by
    have hnone := h.root_eq_none .refl
    exact Prod.ext hnone.symm rfl

/-- The value of a literal is that which its parts in the store give it. -/
theorem Literal.interpret_eq (hrefers : known.RefersTo bound) (id : NodeId) :
    (literal : Literal) → {store : Store} → store.Ready bound literal.outline.preorder →
      literal.interpret known (known.nodeType id) store =
        (Evaluator.literalValue known id (literal.evaluateItems known store) literal,
          literal.evaluateItems known store)
  | .array _ items, store, h => by
    rw [Literal.interpret, Expression.interpretAll_eq hrefers items h.below]
    rfl
  | .none _, _, _ | .boolean _ _, _, _ | .number _ _, _, _ | .string _ _, _, _
  | .color _ _, _, _ => rfl

/-- The values of several expressions stand in the store after all of them: none of them writes to
the nodes of another one. -/
theorem Expression.interpretAll_eq (hrefers : known.RefersTo bound) :
    (expressions : List Expression) → {store : Store} →
      store.Ready bound (Outline.preorders (Expression.outlines expressions)) →
        Expression.interpretAll known expressions store =
          (expressions.mapM fun expression =>
            (Expression.evaluateAll known expressions store).find expression.id,
            Expression.evaluateAll known expressions store)
  | [], _, _ => rfl
  | expression :: rest, store, h => by
    have hfirst := expression.interpret_eq hrefers h.left
    have hrest := Expression.interpretAll_eq hrefers rest
      (h.right (expression.keeps_evaluate hrefers store))
    have hkept := h.kept
      (Expression.keeps_evaluateAll hrefers rest (expression.evaluate known store))
      expression.mem_preorder
    simp only [Expression.interpretAll, hfirst, hrest, Expression.evaluateAll, List.mapM_cons]
    rw [← hkept]

/-- The given arguments are those that the store holds after all of them. -/
theorem Argument.interpretAll_eq (hrefers : known.RefersTo bound) :
    (arguments : List Argument) → {store : Store} →
      store.Ready bound (Outline.preorders (Argument.outlines arguments)) →
        Argument.interpretAll known arguments store =
          (givenArguments (Argument.evaluateAll known arguments store) arguments,
            Argument.evaluateAll known arguments store)
  | [], _, _ => rfl
  | .placeholder id :: rest, store, h => Argument.interpretAll_eq hrefers rest h.below
  | .argument id label expression :: rest, store, h => by
    have hexpression : .expression expression ∈
        (Argument.argument id label expression).outline.preorder :=
      List.mem_cons_of_mem _ (List.mem_append_left _ expression.mem_preorder)
    have hfirst := expression.interpret_eq hrefers h.left.below.left
    have hkeeps : Keeps bound (Argument.argument id label expression).outline.preorder store
        (expression.evaluate known store) :=
      (expression.keeps_evaluate hrefers store).child List.mem_cons_self
    have hrest := Argument.interpretAll_eq hrefers rest (h.right hkeeps)
    have hkept := h.kept (Argument.keeps_evaluateAll hrefers rest (expression.evaluate known store))
      hexpression
    simp only [Argument.interpretAll, hfirst, hrest, Argument.evaluateAll, Argument.evaluate,
      givenArguments]
    rw [← hkept]
    rfl

end

/-! ## Statements -/

namespace Evaluator

/-- The members of a record get the values that the evaluator leaves in the store. -/
theorem foldl_interpretMember (hrefers : known.RefersTo bound) {declarations : List Declaration}
    {state : List Slot × Store}
    (h : state.2.Ready bound (Outline.preorders (Declaration.outlines declarations))) :
    declarations.foldl (interpretMember known) state =
      declarations.foldl (enterMember (Expression.evaluate known)) state := by
  induction declarations generalizing state with
  | nil => rfl
  | cons declaration rest ih =>
    have hfirst : interpretMember known state declaration =
        enterMember (Expression.evaluate known) state declaration := by
      cases declaration with
      | value id name form initializer =>
        cases initializer with
        | none => rfl
        | some initializer =>
          have hready : state.2.Ready bound initializer.outline.preorder := h.left.child
            (List.mem_cons_of_mem _ (List.mem_append_right _ List.mem_cons_self))
          rw [interpretMember, initializer.interpret_eq hrefers hready]
          rfl
      | function | enumeration | record | space | library | placeholder => rfl
    rw [List.foldl_cons, List.foldl_cons, hfirst]
    exact ih (h.right (keeps_enterMember hrefers state declaration))

end Evaluator

mutual

/-- The interpreter does what the evaluator does. -/
theorem Statement.interpret_eq (hrefers : known.RefersTo bound) : (statement : Statement) →
    {store : Store} → store.Ready bound statement.outline.preorder →
      statement.interpret known store = statement.evaluate known store
  | .declaration _ content, store, h => content.interpret_eq hrefers h.below.left
  | .branch _ condition block, store, h => by
    have hcondition := condition.interpret_eq hrefers h.below.left
    have hblock := Statement.interpretAll_eq hrefers block
      (h.below.right (condition.keeps_evaluate hrefers store))
    simp only [Statement.interpret, hcondition, Statement.evaluate, hblock]
  | .loop _ _ _ _, _, _ => rfl
  | .expression _ expression, store, h | .result _ expression, store, h =>
    congrArg Prod.snd (expression.interpret_eq hrefers h.below.left)
  | .placeholder _, _, _ => rfl

/-- A declaration is interpreted as it is evaluated: what it writes goes to its pattern. -/
theorem Declaration.interpret_eq (hrefers : known.RefersTo bound) : (declaration : Declaration) →
    {store : Store} → store.Ready bound declaration.outline.preorder →
      declaration.interpret known store = declaration.evaluate known store
  | .value _ name form initializer, store, h => by
    cases initializer with
    | none => rfl
    | some initializer =>
      have hready := h.child
        (List.mem_cons_of_mem _ (List.mem_append_right _ List.mem_cons_self))
      simp only [Declaration.interpret, initializer.interpret_eq hrefers hready,
        Declaration.evaluate]
  | .function _ name _ _ _ _, store, h => rfl
  | .record _ name generics declarations, store, h => by
    have hready := h.among ((List.sublist_append_right _ _).cons _)
    simp only [Declaration.interpret, Declaration.evaluate, Evaluator.enterRecord]
    rw [Evaluator.foldl_interpretMember hrefers hready]
  | .enumeration _ name generics cases, store, h => rfl
  | .space _ _ declarations, store, h =>
    Declaration.interpretAll_eq hrefers declarations (h.among (List.sublist_cons_self _ _))
  | .library _ _, _, _ | .placeholder _, _, _ => rfl

/-- A block is interpreted as it is evaluated, since each statement leaves the store ready for the
next ones. -/
theorem Statement.interpretAll_eq (hrefers : known.RefersTo bound) : (block : List Statement) →
    {store : Store} → store.Ready bound (Outline.preorders (Statement.outlines block)) →
      Statement.interpretAll known block store = Statement.evaluateAll known block store
  | [], _, _ => rfl
  | statement :: rest, store, h => by
    have hkeeps := statement.keeps_evaluate hrefers h.left.pattern store
    rw [Statement.interpretAll, statement.interpret_eq hrefers h.left,
      Statement.interpretAll_eq hrefers rest (h.right hkeeps), Statement.evaluateAll]

theorem Declaration.interpretAll_eq (hrefers : known.RefersTo bound) :
    (declarations : List Declaration) → {store : Store} →
      store.Ready bound (Outline.preorders (Declaration.outlines declarations)) →
        Declaration.interpretAll known declarations store =
          Declaration.evaluateAll known declarations store
  | [], _, _ => rfl
  | declaration :: rest, store, h => by
    have hkeeps := declaration.keeps_evaluate hrefers h.left.pattern store
    rw [Declaration.interpretAll, declaration.interpret_eq hrefers h.left,
      Declaration.interpretAll_eq hrefers rest (h.right hkeeps), Declaration.evaluateAll]

end

/-! ## Programs -/

/-- A program with distinct ids may be evaluated in an empty store, where the ids of its patterns
are bound. -/
theorem Program.ready {program : Program} (distinct : (program.nodes.map Node.id).Nodup) :
    Store.Ready (fun id => ∃ pattern, .pattern pattern ∈ program.nodes ∧ pattern.id = id)
      program.nodes [] where
  distinct := distinct
  pattern p hp := ⟨p, hp, rfl⟩
  expression e he := by
    rintro ⟨p, hp, hid⟩
    cases Outline.eq_of_id_eq distinct hp he hid
  literal l hl := by
    rintro ⟨p, hp, hid⟩
    cases Outline.eq_of_id_eq distinct hp hl hid
  fresh _ _ _ := rfl

/-- With distinct ids, the evaluator leaves the store that the direct interpreter leaves, whatever
was inferred about types. -/
theorem Program.evaluate_eq_interpret {program : Program}
    (distinct : (program.nodes.map Node.id).Nodup) (inference : Inference)
    (substitution : Substitution) :
    let known : Knowledge := { scope := program.resolve none, inference, substitution }
    program.evaluate known = program.interpret known := by
  intro known
  have hrefers : known.RefersTo
      fun id => ∃ pattern, .pattern pattern ∈ program.nodes ∧ pattern.id = id :=
    fun id target htarget => Program.exists_pattern_of_patternFor htarget
  rw [program.evaluate_eq, Program.interpret]
  exact (Statement.interpretAll_eq hrefers program.block (Program.ready distinct).below).symm

/-- `let x = "a"`, then `if true { x = "b" }`, then `if none { x = "c" }`, then
`record R { let m = "d" }`, then `R()`, and at last `[x, y]`. -/
def reassigningProgram : Program where
  id := .ofNat 0
  block := [
    .declaration (.ofNat 1) (.value (.ofNat 2) ⟨.ofNat 3, "x"⟩ none
      (some (.literal (.ofNat 4) (.string (.ofNat 5) "a")))),
    .branch (.ofNat 6) (.literal (.ofNat 7) (.boolean (.ofNat 8) true))
      [.expression (.ofNat 9) (.binary (.ofNat 10)
        (.identifier (.ofNat 11) ⟨.ofNat 12, "x", false⟩)
        (.literal (.ofNat 13) (.string (.ofNat 14) "b")) .setEqualTo)],
    .branch (.ofNat 15) (.literal (.ofNat 16) (.none (.ofNat 17)))
      [.expression (.ofNat 18) (.binary (.ofNat 19)
        (.identifier (.ofNat 20) ⟨.ofNat 21, "x", false⟩)
        (.literal (.ofNat 22) (.string (.ofNat 23) "c")) .setEqualTo)],
    .declaration (.ofNat 24) (.record (.ofNat 25) ⟨.ofNat 26, "R"⟩ []
      [.value (.ofNat 27) ⟨.ofNat 28, "m"⟩ none
        (some (.literal (.ofNat 29) (.string (.ofNat 30) "d")))]),
    .expression (.ofNat 31) (.call (.ofNat 32)
      (.identifier (.ofNat 33) ⟨.ofNat 34, "R", false⟩) []),
    .expression (.ofNat 35) (.literal (.ofNat 36) (.array (.ofNat 37)
      [.identifier (.ofNat 38) ⟨.ofNat 39, "x", false⟩,
        .identifier (.ofNat 40) ⟨.ofNat 41, "y", false⟩]))]

/-- What is known of the program when its names are resolved and nothing is inferred. -/
def reassigningKnowledge : Knowledge where
  scope := reassigningProgram.resolve none
  inference := {}
  substitution := .empty

/-- The branch that is taken assigns and the other one does not, so the last `x` is `"b"`. The nodes
that have values are listed as they got them: neither an assignment has one, nor an array with an
item that has none. -/
theorem evaluate_eq_interpret_reassigning :
    reassigningProgram.evaluate reassigningKnowledge =
        reassigningProgram.interpret reassigningKnowledge ∧
      ((reassigningProgram.evaluate reassigningKnowledge).find (.ofNat 38)).bind Value.asString =
        some "b" ∧
      (reassigningProgram.evaluate reassigningKnowledge).map Prod.fst =
        [5, 4, 3, 8, 7, 11, 14, 13, 17, 16, 30, 29, 26, 33, 32, 38].map NodeId.ofNat := by
  have hdistinct : (reassigningProgram.nodes.map Node.id).Nodup := by decide
  exact ⟨Program.evaluate_eq_interpret hdistinct {} .empty, by decide +kernel, by decide +kernel⟩

end TreeLang
