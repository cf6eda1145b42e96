import TreeLang.Evaluation
import TreeLang.Proofs.Tree.Reidentifying
import TreeLang.Proofs.Typing.Renaming

/-!
# Evaluating renamed programs

No value mentions an id. So the nodes of a program with renamed ids have the values of the nodes of
the program.
-/

namespace TreeLang

variable (ρ : NodeId → NodeId)

/-- Renames the nodes that have values. -/
def Store.mapIds (store : Store) : Store := store.mapEntries ρ id

/-- Renames every id that is known beforehand. -/
def Knowledge.mapIds (known : Knowledge) : Knowledge where
  scope := known.scope.mapIds ρ
  inference := known.inference.mapIds ρ
  substitution := known.substitution

variable {ρ} (hρ : Function.Injective ρ)
include hρ

namespace Knowledge

/-- A node has the type of the node that it was renamed from. -/
theorem nodeType_mapIds (known : Knowledge) (node : NodeId) :
    (known.mapIds ρ).nodeType (ρ node) = known.nodeType node :=
  congrArg (Option.map known.substitution.apply)
    ((Table.find_mapEntries hρ id node known.inference.nodeTerms).trans Option.map_id')

/-- A pattern has the type of the pattern that it was renamed from. -/
theorem patternType_mapIds (known : Knowledge) (pattern : NodeId) :
    (known.mapIds ρ).patternType (ρ pattern) = known.patternType pattern :=
  congrArg (Option.map known.substitution.apply)
    ((Table.find_mapEntries hρ id pattern known.inference.patternTerms).trans Option.map_id')

/-- A pattern is that of a native function when the one was that it was renamed from. -/
theorem builtinFor_mapIds (known : Knowledge) (pattern : NodeId) :
    (known.mapIds ρ).builtinFor (ρ pattern) = known.builtinFor pattern :=
  congrArg (Option.bind · Builtin.ofPath?) (Scope.qualifiedName_mapIds hρ known.scope pattern)

end Knowledge

namespace Store

/-- The store with other ids has the same values. -/
theorem find_mapIds (node : NodeId) (store : Store) :
    (store.mapIds ρ).find (ρ node) = store.find node :=
  (Table.find_mapEntries hρ id node store).trans Option.map_id'

/-- Putting a value commutes with a renaming of ids. -/
theorem put_mapIds (node : NodeId) (value : Value) (store : Store) :
    (store.mapIds ρ).put (ρ node) value = mapIds ρ (store.put node value) :=
  Table.put_mapEntries hρ id node value store

/-- Putting a value that may be unknown commutes with a renaming of ids. -/
theorem putKnown_mapIds (node : NodeId) (value : Option Value) (store : Store) :
    (store.mapIds ρ).putKnown (ρ node) value = mapIds ρ (store.putKnown node value) := by
  cases value with
  | none => rfl
  | some value => exact put_mapIds hρ node value store

end Store

/-- The given arguments do not depend on ids. -/
theorem givenArguments_mapIds (arguments : List Argument) (store : Store) :
    givenArguments (store.mapIds ρ) (arguments.map (Argument.mapIds ρ)) =
      givenArguments store arguments := by
  induction arguments with
  | nil => rfl
  | cons argument rest ih =>
    cases argument with
    | placeholder id => exact ih
    | argument id label expression =>
      simp only [List.map_cons, Argument.mapIds_argument, givenArguments, Expression.id_mapIds,
        Store.find_mapIds hρ, ih]

namespace Evaluator

variable {known : Knowledge}

/-- The value of a literal does not depend on ids. -/
theorem literalValue_mapIds (node : NodeId) (l : Literal) (store : Store) :
    literalValue (known.mapIds ρ) (ρ node) (store.mapIds ρ) (l.mapIds ρ) =
      literalValue known node store l := by
  cases l with
  | array id items =>
    have hitems : (items.map (Expression.mapIds ρ)).mapM
        (fun item => Table.find item.id (store.mapIds ρ)) =
          items.mapM fun item => store.find item.id := by
      rw [List.mapM_map]
      simp only [Function.comp_def, Expression.id_mapIds, Store.find_mapIds hρ]
    simp only [Literal.mapIds_array, literalValue, hitems, Knowledge.nodeType_mapIds hρ]
  | none | boolean | number | string | color => rfl

/-- The value of a call does not depend on ids. -/
theorem callValue_mapIds (node : NodeId) (callee : Expression) (arguments : List Argument)
    (store : Store) :
    callValue (known.mapIds ρ) (ρ node) (callee.mapIds ρ) (arguments.map (Argument.mapIds ρ))
        (store.mapIds ρ) = callValue known node callee arguments store := by
  simp only [callValue, Expression.id_mapIds, Store.find_mapIds hρ, givenArguments_mapIds hρ,
    Knowledge.nodeType_mapIds hρ]

/-- Assigning commutes with a renaming of ids, because the pattern of the target is renamed as
well. -/
theorem assign_mapIds (target : NodeId) (value : Value) (store : Store) :
    assign (known.mapIds ρ) (ρ target) value (store.mapIds ρ) =
      Store.mapIds ρ (assign known target value store) := by
  have hpattern : (known.mapIds ρ).scope.patternFor (ρ target) =
      (known.scope.patternFor target).map ρ := Scope.patternFor_mapIds hρ known.scope target
  rw [assign, assign, hpattern]
  cases known.scope.patternFor target with
  | none => rfl
  | some pattern => exact Store.put_mapIds hρ pattern value store

/-- Applying an operator commutes with a renaming of ids. -/
theorem applyOperator_mapIds (node : NodeId) (operator : Operator) (left right : Expression)
    (store : Store) :
    applyOperator (known.mapIds ρ) (ρ node) operator (left.mapIds ρ) (right.mapIds ρ)
        (store.mapIds ρ) = Store.mapIds ρ (applyOperator known node operator left right store) := by
  simp only [applyOperator, Expression.id_mapIds, Store.find_mapIds hρ, assign_mapIds hρ,
    Store.putKnown_mapIds hρ]
  split
  · rfl
  · split
    · rfl
    · split <;> rfl

/-- What a use refers to is the same under other ids. -/
theorem referred_mapIds (node : NodeId) (store : Store) :
    referred (known.mapIds ρ) (ρ node) (store.mapIds ρ) = referred known node store := by
  have hpattern : (known.mapIds ρ).scope.patternFor (ρ node) =
      (known.scope.patternFor node).map ρ := Scope.patternFor_mapIds hρ known.scope node
  rw [referred, referred, hpattern]
  cases known.scope.patternFor node with
  | none => rfl
  | some pattern => exact Store.find_mapIds hρ pattern store

/-- Leaving an expression commutes with a renaming of ids. -/
theorem leaveExpression_mapIds (e : Expression) (store : Store) :
    leaveExpression (known.mapIds ρ) (e.mapIds ρ) (store.mapIds ρ) =
      Store.mapIds ρ (leaveExpression known e store) := by
  cases e with
  | literal id literal =>
    simp only [Expression.mapIds_literal, leaveExpression, literalValue_mapIds hρ,
      Literal.id_mapIds, Store.putKnown_mapIds hρ]
  | identifier id used =>
    simp only [Expression.mapIds_identifier, leaveExpression, referred_mapIds hρ,
      Store.putKnown_mapIds hρ]
  | member id base name =>
    simp only [Expression.mapIds_member, leaveExpression, referred_mapIds hρ,
      Store.putKnown_mapIds hρ]
  | call id callee arguments =>
    simp only [Expression.mapIds_call, leaveExpression, callValue_mapIds hρ,
      Store.putKnown_mapIds hρ]
  | binary id left right operator =>
    simp only [Expression.mapIds_binary, leaveExpression, applyOperator_mapIds hρ]
  | placeholder id => rfl

/-! ## Declarations -/

/-- Entering a case of an enumeration commutes with a renaming of ids. -/
theorem enterCase_mapIds (enumeration : Pattern) (store : Store) (case : EnumerationCase) :
    enterCase (known.mapIds ρ) (enumeration.mapIds ρ) (store.mapIds ρ) (case.mapIds ρ) =
      Store.mapIds ρ (enterCase known enumeration store case) := by
  cases case with
  | placeholder id => rfl
  | case id name forms =>
    simp only [EnumerationCase.mapIds_case, enterCase, Pattern.id_mapIds, Pattern.name_mapIds,
      Knowledge.patternType_mapIds hρ]
    cases forms <;> exact Store.put_mapIds hρ name.id _ store

/-- Entering the cases of an enumeration commutes with a renaming of ids. -/
theorem enterCases_mapIds (enumeration : Pattern) (cases : List EnumerationCase) (store : Store) :
    (cases.map (EnumerationCase.mapIds ρ)).foldl
        (enterCase (known.mapIds ρ) (enumeration.mapIds ρ)) (store.mapIds ρ) =
      Store.mapIds ρ (cases.foldl (enterCase known enumeration) store) := by
  induction cases generalizing store with
  | nil => rfl
  | cons case rest ih =>
    rw [List.map_cons, List.foldl_cons, List.foldl_cons, enterCase_mapIds hρ, ih]

/-- The native function of a name does not depend on its id. -/
theorem functionValue_mapIds (name : Pattern) :
    functionValue (known.mapIds ρ) (name.mapIds ρ) = functionValue known name := by
  simp only [functionValue, Pattern.id_mapIds, Knowledge.builtinFor_mapIds hρ,
    Knowledge.patternType_mapIds hρ]

section Members

variable {evaluate evaluate' : Expression → Store → Store}
  (h : ∀ e store, evaluate' (e.mapIds ρ) (store.mapIds ρ) = Store.mapIds ρ (evaluate e store))
include h

/-- Entering a member of a record commutes with a renaming of ids, when evaluating its default
does. -/
theorem enterMember_mapIds (slots : List Slot) (store : Store) (d : Declaration) :
    enterMember evaluate' (slots, store.mapIds ρ) (d.mapIds ρ) =
      ((enterMember evaluate (slots, store) d).1,
        Store.mapIds ρ (enterMember evaluate (slots, store) d).2) := by
  cases d with
  | value id name form initializer =>
    cases initializer with
    | none =>
      simp only [Declaration.mapIds_value, Option.map_none, enterMember, Pattern.name_mapIds]
    | some initializer =>
      simp only [Declaration.mapIds_value, Option.map_some, enterMember, h, Pattern.name_mapIds,
        Expression.id_mapIds, Store.find_mapIds hρ]
  | function | enumeration | record | space | library | placeholder => rfl

/-- Entering the members of a record commutes with a renaming of ids. -/
theorem enterMembers_mapIds (declarations : List Declaration) (slots : List Slot) (store : Store) :
    (declarations.map (Declaration.mapIds ρ)).foldl (enterMember evaluate')
        (slots, store.mapIds ρ) =
      ((declarations.foldl (enterMember evaluate) (slots, store)).1,
        Store.mapIds ρ (declarations.foldl (enterMember evaluate) (slots, store)).2) := by
  induction declarations generalizing slots store with
  | nil => rfl
  | cons d rest ih =>
    rw [List.map_cons, List.foldl_cons, List.foldl_cons, enterMember_mapIds hρ h, ih]

/-- Entering a record commutes with a renaming of ids. -/
theorem enterRecord_mapIds (name : Pattern) (declarations : List Declaration) (store : Store) :
    enterRecord (known.mapIds ρ) evaluate' (name.mapIds ρ)
        (declarations.map (Declaration.mapIds ρ)) (store.mapIds ρ) =
      Store.mapIds ρ (enterRecord known evaluate name declarations store) := by
  simp only [enterRecord, Pattern.name_mapIds, Pattern.id_mapIds, enterMembers_mapIds hρ h,
    constructorValue, Knowledge.patternType_mapIds hρ, Store.put_mapIds hρ]
  split <;> rfl

end Members

/-! ## The walk -/

section Nested

-- The walks that visits start commute with the renaming.
variable {nested nested' : Outline → Store → Store}
  (h : ∀ outline store, nested' (outline.mapNodes (Node.mapIds ρ)) (store.mapIds ρ) =
    Store.mapIds ρ (nested outline store))
include h

/-- Entering a declaration commutes with a renaming of ids, when the nested walks do. -/
theorem enterDeclaration_mapIds (d : Declaration) (control : Control) (store : Store) :
    enterDeclaration (known.mapIds ρ) nested' (d.mapIds ρ) control (store.mapIds ρ) =
      ((enterDeclaration known nested d control store).1,
        Store.mapIds ρ (enterDeclaration known nested d control store).2) := by
  cases d with
  | function id name result generics parameters block =>
    simp only [Declaration.mapIds_function, enterDeclaration, functionValue_mapIds hρ,
      Pattern.id_mapIds, Store.putKnown_mapIds hρ]
  | record id name generics declarations =>
    rw [Declaration.mapIds_record]
    refine congrArg (Prod.mk _) (enterRecord_mapIds hρ (fun e store => ?_) name declarations store)
    rw [Expression.outline_mapIds, h]
  | enumeration id name generics cases =>
    simp only [Declaration.mapIds_enumeration, enterDeclaration, enterCases_mapIds hρ]
  | value | space | library | placeholder => rfl

/-- Entering a branch runs its block under other ids whenever it runs it. -/
theorem enterBranch_mapIds (condition : Expression) (block : List Statement) (store : Store) :
    enterBranch nested' (condition.mapIds ρ) (block.map (Statement.mapIds ρ)) (store.mapIds ρ) =
      Store.mapIds ρ (enterBranch nested condition block store) := by
  have hblock (store : Store) :
      (block.map (Statement.mapIds ρ)).foldl (fun store s => nested' s.outline store)
          (store.mapIds ρ) =
        Store.mapIds ρ (block.foldl (fun store s => nested s.outline store) store) := by
    induction block generalizing store with
    | nil => rfl
    | cons s rest ih =>
      rw [List.map_cons, List.foldl_cons, List.foldl_cons, Statement.outline_mapIds, h, ih]
  simp only [enterBranch, Expression.outline_mapIds, h, Expression.id_mapIds,
    Store.find_mapIds hρ, hblock]
  split <;> rfl

/-- The first visit of a node commutes with a renaming of ids. -/
theorem enter_mapIds (node : Node) (control : Control) (store : Store) :
    enter (known.mapIds ρ) nested' (node.mapIds ρ) control (store.mapIds ρ) =
      ((enter known nested node control store).1,
        Store.mapIds ρ (enter known nested node control store).2) := by
  cases node with
  | declaration d => exact enterDeclaration_mapIds hρ h d control store
  | statement s =>
    cases s with
    | branch id condition block =>
      simp only [Node.mapIds, Statement.mapIds_branch, enter, enterBranch_mapIds hρ h]
    | declaration | loop | expression | result | placeholder => rfl
  | program | expression | pattern | identifier | typeForm | literal | parameter | generic | case
  | argument => rfl

omit h in
/-- The second visit of a node commutes with a renaming of ids. -/
theorem leave_mapIds (node : Node) (store : Store) :
    leave (known.mapIds ρ) (node.mapIds ρ) (store.mapIds ρ) =
      Store.mapIds ρ (leave known node store) := by
  cases node with
  | declaration d =>
    cases d with
    | value id name form initializer =>
      cases initializer with
      | none => simp only [Node.mapIds, Declaration.mapIds_value, Option.map_none, leave]
      | some initializer =>
        simp only [Node.mapIds, Declaration.mapIds_value, Option.map_some, leave,
          Pattern.id_mapIds, Expression.id_mapIds, Store.find_mapIds hρ, Store.putKnown_mapIds hρ]
    | function | enumeration | record | space | library | placeholder => rfl
  | expression e => exact leaveExpression_mapIds hρ e store
  | program | statement | pattern | identifier | typeForm | literal | parameter | generic | case
  | argument => rfl

/-- Evaluation visits the renamed nodes alike, when the nested walks do. -/
theorem visit_maps :
    (visit known nested).Maps (visit (known.mapIds ρ) nested') (Node.mapIds ρ)
      (Store.mapIds ρ) := by
  intro node control store
  rw [visit, visit, leave_mapIds hρ, enter_mapIds hρ h]
  split <;> rfl

end Nested

/-- Walks commute with the renaming, and so do the walks that their visits start. -/
theorem walk_mapIds (depth : Nat) (outline : Outline) (store : Store) :
    walk (known.mapIds ρ) depth (outline.mapNodes (Node.mapIds ρ)) (store.mapIds ρ) =
      Store.mapIds ρ (walk known depth outline store) := by
  induction depth generalizing outline store with
  | zero => rfl
  | succ depth ih =>
    exact congrArg Prod.snd (Outline.walkPre_mapNodes (visit_maps hρ ih) outline {} store)

end Evaluator

/-- Evaluating a program with renamed ids gives the values of the program at renamed ids. -/
theorem Program.evaluate_mapIds (known : Knowledge) (program : Program) :
    (program.mapIds ρ).evaluate (known.mapIds ρ) = Store.mapIds ρ (program.evaluate known) := by
  rw [evaluate, nodeCount_mapIds, outline_mapIds]
  exact Evaluator.walk_mapIds hρ program.nodeCount program.outline []

/-- Evaluating a checked program with renamed ids gives the values of the program at renamed ids. -/
theorem Program.evaluateChecked_mapIds (checked : Checked) (program : Program) :
    (program.mapIds ρ).evaluateChecked (checked.mapIds ρ) =
      Store.mapIds ρ (program.evaluateChecked checked) := by
  rw [evaluateChecked, evaluateChecked, ← program.evaluate_mapIds hρ]
  rfl

omit hρ

/-! ## Programs with other ids -/

/-- Every analysis of the second program gives what it gives of the first one, with renamed ids. -/
structure Program.AlikeUpTo (ρ : NodeId → NodeId) (program program' : Program) : Prop where
  resolve : ∀ target, program'.resolve (target.map ρ) = (program.resolve target).mapIds ρ
  infer : ∀ scope, program'.infer (scope.mapIds ρ) = (program.infer scope).mapIds ρ
  check : ∀ steps, program'.check steps = (program.check steps).mapIds ρ
  evaluate : ∀ known, program'.evaluate (known.mapIds ρ) = (program.evaluate known).mapIds ρ
  evaluateChecked : ∀ checked, program'.evaluateChecked (checked.mapIds ρ) =
    (program.evaluateChecked checked).mapIds ρ

/-- The analyses of a program do not depend on its ids, as long as different ids stay different. In
particular they do not when a program with distinct ids gets fresh ones and there are enough. -/
theorem Program.alike_mapIds (program : Program) :
    (∀ ρ : NodeId → NodeId, Function.Injective ρ → program.AlikeUpTo ρ (program.mapIds ρ)) ∧
      ∀ ids : IdSupply, program.outline.ids.Nodup → program.nodeCount ≤ ids.remaining →
        ∃ ρ : NodeId → NodeId, Function.Injective ρ ∧
          (program.reidentify ids).1.outline.ids = program.outline.ids.map ρ ∧
          program.AlikeUpTo ρ (program.reidentify ids).1 := by
  have hrenamed (ρ : NodeId → NodeId) (hρ : Function.Injective ρ) :
      program.AlikeUpTo ρ (program.mapIds ρ) :=
    { resolve := program.resolve_mapIds hρ
      infer := program.infer_mapIds hρ
      check := fun steps => program.check_mapIds hρ steps
      evaluate := fun known => program.evaluate_mapIds hρ known
      evaluateChecked := fun checked => program.evaluateChecked_mapIds hρ checked }
  refine ⟨hrenamed, fun ids distinct hroom => ?_⟩
  obtain ⟨ρ, hρ, heq⟩ := Program.exists_reidentify_eq_mapIds distinct hroom
  exact ⟨ρ, hρ, heq ▸ program.ids_mapIds, heq ▸ hrenamed ρ hρ⟩

/-- `variable x: String = "s"` and then `x`. -/
def useOfText : Program where
  id := .ofNat 0
  block := [.declaration (.ofNat 1) (.value (.ofNat 2) ⟨.ofNat 3, "x"⟩
      (some (.named (.ofNat 4) ⟨.ofNat 5, "String", false⟩ []))
      (some (.literal (.ofNat 6) (.string (.ofNat 7) "s")))),
    .expression (.ofNat 8) (.identifier (.ofNat 9) ⟨.ofNat 10, "x", false⟩)]

/-- A use of a text under ids that are swapped, and with the ids of a supply that continues
elsewhere. -/
theorem alike_mapIds_useOfText :
    useOfText.AlikeUpTo (Equiv.swap (.ofNat 3) (.ofNat 9))
        (useOfText.mapIds (Equiv.swap (.ofNat 3) (.ofNat 9))) ∧
      ∃ ρ : NodeId → NodeId, Function.Injective ρ ∧
        (useOfText.reidentify ⟨.ofNat 7⟩).1.outline.ids = useOfText.outline.ids.map ρ ∧
        useOfText.AlikeUpTo ρ (useOfText.reidentify ⟨.ofNat 7⟩).1 := by
  obtain ⟨hrenamed, hfresh⟩ := useOfText.alike_mapIds
  exact ⟨hrenamed _ (Equiv.injective _), hfresh ⟨.ofNat 7⟩ (by decide) (by decide)⟩

end TreeLang
