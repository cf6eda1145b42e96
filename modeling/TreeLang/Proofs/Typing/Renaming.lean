import TreeLang.Proofs.Scope.Renaming
import TreeLang.Typing.Check

/-!
# Inferring the terms of renamed programs

No term and no constraint mentions an id, and fresh names are numbered in the order of the walk. So
inference gives the nodes of a program with renamed ids the terms of the nodes of the program, and
asks for the same constraints. Only the errors name ids, those of calls.
-/

namespace TreeLang

variable (ρ : NodeId → NodeId)

/-- Renames the call that an error is about. -/
def InferenceError.mapIds : InferenceError → InferenceError
  | .notAFunction call callee => .notAFunction (ρ call) callee

/-- Renames the nodes and patterns that have terms, and the calls that cannot be typed. -/
def Inference.mapIds (inference : Inference) : Inference where
  nodeTerms := inference.nodeTerms.mapEntries ρ id
  patternTerms := inference.patternTerms.mapEntries ρ id
  constraints := inference.constraints
  errors := inference.errors.map (InferenceError.mapIds ρ)

namespace Generator

/-- Renames every id that the state of a walk holds. -/
def mapIds (g : Generator) : Generator :=
  { g with scope := g.scope.mapIds ρ, inference := g.inference.mapIds ρ }

variable {ρ}

/-- An error is reported under its renamed id. -/
theorem report_mapIds (error : InferenceError) (g : Generator) :
    (g.mapIds ρ).report (error.mapIds ρ) = (g.report error).mapIds ρ := by
  simp only [report, mapIds, Inference.mapIds, List.map_append]
  rfl

/-- Constraints hold terms alone, which renaming leaves as they are. -/
theorem constrainKnown_mapIds (head tail : Option Term) (g : Generator) :
    (g.mapIds ρ).constrainKnown head tail = (g.constrainKnown head tail).mapIds ρ := by
  cases head <;> cases tail <;> rfl

/-- Fresh variables are numbered without looking at ids. -/
theorem freshEvar_mapIds (g : Generator) :
    (g.mapIds ρ).freshEvar = (g.freshEvar.1, g.freshEvar.2.mapIds ρ) := rfl

mutual

/-- Written types are typed without looking at ids. -/
theorem typeTerm_mapIds : (form : TypeForm) → (g : Generator) →
    typeTerm (form.mapIds ρ) (g.mapIds ρ) = ((typeTerm form g).1, (typeTerm form g).2.mapIds ρ)
  | .named id identifier arguments, g => by
    have hscope : (g.mapIds ρ).genericInScope identifier.name = g.genericInScope identifier.name :=
      rfl
    simp only [TypeForm.mapIds_named, typeTerm, Identifier.name_mapIds, hscope,
      typeTerms_mapIds arguments g]
    split <;> rfl
  | .function id result parameters, g => by
    simp only [TypeForm.mapIds_function, typeTerm, typeTerms_mapIds parameters g,
      typeTerm_mapIds result]
  | .placeholder id, g => rfl

theorem typeTerms_mapIds : (forms : List TypeForm) → (g : Generator) →
    typeTerms (forms.map (TypeForm.mapIds ρ)) (g.mapIds ρ) =
      ((typeTerms forms g).1, (typeTerms forms g).2.mapIds ρ)
  | [], g => rfl
  | form :: rest, g => by
    simp only [List.map_cons, typeTerms, typeTerm_mapIds form g, typeTerms_mapIds rest]

end

/-- Generic parameters are named after their written names, not their ids. -/
theorem nameGenerics_mapIds (patterns : List Pattern) (names : NameSupply) :
    nameGenerics (patterns.map (Pattern.mapIds ρ)) names = nameGenerics patterns names := by
  induction patterns generalizing names with
  | nil => rfl
  | cons pattern rest ih =>
    simp only [List.map_cons, nameGenerics, Pattern.name_mapIds, ih]

/-- A renamed declaration opens the same frame of generics. -/
theorem pushGenerics_mapIds (d : Declaration) (g : Generator) :
    (g.mapIds ρ).pushGenerics (d.mapIds ρ) =
      ((g.pushGenerics d).1, (g.pushGenerics d).2.mapIds ρ) := by
  have hnames : (g.mapIds ρ).names = g.names := rfl
  simp only [pushGenerics, Declaration.genericPatterns_mapIds, nameGenerics_mapIds, hnames]
  rfl

section
variable (hρ : Function.Injective ρ)
include hρ

/-- A node's term is found under its renamed id, as no two ids become one. -/
theorem nodeTerm_mapIds (id : NodeId) (g : Generator) :
    (g.mapIds ρ).nodeTerm (ρ id) = g.nodeTerm id :=
  (Table.find_mapEntries hρ _ id g.inference.nodeTerms).trans Option.map_id'

/-- A pattern's term is found under its renamed id, as no two ids become one. -/
theorem patternTerm_mapIds (id : NodeId) (g : Generator) :
    (g.mapIds ρ).patternTerm (ρ id) = g.patternTerm id :=
  (Table.find_mapEntries hρ _ id g.inference.patternTerms).trans Option.map_id'

/-- A node's term is written under its renamed id, over the same earlier one. -/
theorem setNode_mapIds (node : NodeId) (term : Term) (g : Generator) :
    (g.mapIds ρ).setNode (ρ node) term = (g.setNode node term).mapIds ρ := by
  have hput := Table.put_mapEntries hρ id node term g.inference.nodeTerms
  simp only [setNode, mapIds, Inference.mapIds, ← hput]
  rfl

/-- A pattern's term is written under its renamed id, over the same earlier one. -/
theorem setPattern_mapIds (pattern : NodeId) (term : Term) (g : Generator) :
    (g.mapIds ρ).setPattern (ρ pattern) term = (g.setPattern pattern term).mapIds ρ := by
  have hput := Table.put_mapEntries hρ id pattern term g.inference.patternTerms
  simp only [setPattern, mapIds, Inference.mapIds, ← hput]
  rfl

/-! ## Declarations -/

/-- Renamed parameters have the same types, written for the renamed patterns. -/
theorem parameterFormals_mapIds (parameters : List Parameter) (g : Generator) :
    parameterFormals (parameters.map (Parameter.mapIds ρ)) (g.mapIds ρ) =
      ((parameterFormals parameters g).1, (parameterFormals parameters g).2.mapIds ρ) := by
  induction parameters generalizing g with
  | nil => rfl
  | cons parameter rest ih =>
    cases parameter with
    | placeholder id => exact ih g
    | parameter id externalName localName form defaultValue =>
      have hlabel := (Parameter.parameter id externalName localName form defaultValue).label_mapIds
        (ρ := ρ)
      simp only [Parameter.mapIds_parameter] at hlabel
      simp only [List.map_cons, Parameter.mapIds_parameter, parameterFormals, typeTerm_mapIds,
        Pattern.id_mapIds, setPattern_mapIds hρ, ih, hlabel]

/-- Renamed members have the same types, written for the renamed patterns. -/
theorem memberFormals_mapIds (declarations : List Declaration) (g : Generator) :
    memberFormals (declarations.map (Declaration.mapIds ρ)) (g.mapIds ρ) =
      ((memberFormals declarations g).1, (memberFormals declarations g).2.mapIds ρ) := by
  induction declarations generalizing g with
  | nil => rfl
  | cons d rest ih =>
    cases d with
    | value id name form initializer =>
      cases form with
      | none =>
        rw [List.map_cons, Declaration.mapIds_value]
        exact ih g
      | some form =>
        simp only [List.map_cons, Declaration.mapIds_value, Option.map_some, memberFormals,
          typeTerm_mapIds, Pattern.id_mapIds, Pattern.name_mapIds, setPattern_mapIds hρ, ih]
    | function | enumeration | record | space | library | placeholder => exact ih g

/-- Renamed cases are typed alike, written for the renamed patterns. -/
theorem typeCases_mapIds (enumeration : Term) (cases : List EnumerationCase) (g : Generator) :
    typeCases enumeration (cases.map (EnumerationCase.mapIds ρ)) (g.mapIds ρ) =
      (typeCases enumeration cases g).mapIds ρ := by
  induction cases generalizing g with
  | nil => rfl
  | cons case rest ih =>
    cases case with
    | placeholder id => exact ih g
    | case id name forms =>
      cases forms with
      | nil =>
        simp only [List.map_cons, EnumerationCase.mapIds_case, List.map_nil, typeCases,
          Pattern.id_mapIds, setPattern_mapIds hρ, ih]
      | cons form forms =>
        have hterms := typeTerms_mapIds (ρ := ρ) (form :: forms) g
        simp only [List.map_cons] at hterms
        simp only [List.map_cons, EnumerationCase.mapIds_case, typeCases, hterms,
          Pattern.id_mapIds, setPattern_mapIds hρ, ih]

/-- The first visit of a declaration commutes with the renaming. -/
theorem enterDeclaration_mapIds (d : Declaration) (control : Control) (g : Generator) :
    (g.mapIds ρ).enterDeclaration (d.mapIds ρ) control =
      ((g.enterDeclaration d control).1, (g.enterDeclaration d control).2.mapIds ρ) := by
  have hpush := pushGenerics_mapIds (ρ := ρ) d g
  cases d with
  | function id name result generics parameters block =>
    simp only [Declaration.mapIds_function] at hpush ⊢
    simp only [enterDeclaration, hpush, parameterFormals_mapIds hρ, typeTerm_mapIds,
      Pattern.id_mapIds, ← setPattern_mapIds hρ]
    rfl
  | record id name generics declarations =>
    simp only [Declaration.mapIds_record] at hpush ⊢
    simp only [enterDeclaration, hpush, memberFormals_mapIds hρ, Pattern.id_mapIds,
      Pattern.name_mapIds, setPattern_mapIds hρ]
  | enumeration id name generics cases =>
    simp only [Declaration.mapIds_enumeration] at hpush ⊢
    simp only [enterDeclaration, hpush, typeCases_mapIds hρ, Pattern.name_mapIds]
  | value id name form initializer =>
    -- whether a value is typed depends on there being a type and an initializer
    have htyped : isTypedVariable (form.map (TypeForm.mapIds ρ))
        (initializer.map (Expression.mapIds ρ)) = isTypedVariable form initializer := by
      cases form with
      | none => rfl
      | some form =>
        cases initializer with
        | none => rfl
        | some initializer => exact congrArg not form.isPlaceholder_mapIds
    simp only [Declaration.mapIds_value, enterDeclaration, htyped]
    split <;> rfl
  | space | library | placeholder => rfl

/-- The second visit of a declaration commutes with the renaming. -/
theorem leaveDeclaration_mapIds (d : Declaration) (g : Generator) :
    (g.mapIds ρ).leaveDeclaration (d.mapIds ρ) = (g.leaveDeclaration d).mapIds ρ := by
  cases d with
  | value id name form initializer =>
    cases form with
    | none => cases initializer <;> rfl
    | some form =>
      cases initializer with
      | none => rfl
      | some initializer =>
        simp only [Declaration.mapIds_value, Option.map_some, leaveDeclaration, typeTerm_mapIds,
          Pattern.id_mapIds, Expression.id_mapIds, setPattern_mapIds hρ, nodeTerm_mapIds hρ,
          constrainKnown_mapIds]
  | function | record | enumeration | space | library | placeholder => rfl

/-- The second visit of a statement commutes with the renaming. -/
theorem leaveStatement_mapIds (s : Statement) (g : Generator) :
    (g.mapIds ρ).leaveStatement (s.mapIds ρ) = (g.leaveStatement s).mapIds ρ := by
  have hresults : (g.mapIds ρ).results = g.results := rfl
  cases s with
  | branch id condition block =>
    simp only [Statement.mapIds_branch, leaveStatement, Expression.id_mapIds, nodeTerm_mapIds hρ,
      constrainKnown_mapIds]
  | loop id pattern iterated block =>
    simp only [Statement.mapIds_loop, leaveStatement, Expression.id_mapIds, Pattern.id_mapIds,
      nodeTerm_mapIds hρ, patternTerm_mapIds hρ, constrainKnown_mapIds]
  | result id expression =>
    simp only [Statement.mapIds_result, leaveStatement, Expression.id_mapIds, nodeTerm_mapIds hρ,
      hresults, constrainKnown_mapIds]
  | declaration | expression | placeholder => rfl

/-! ## Expressions -/

/-- A renamed use finds its target under the renamed id, and instantiates the same term. -/
theorem useTerm_mapIds (node : NodeId) (g : Generator) :
    (g.mapIds ρ).useTerm (ρ node) = ((g.useTerm node).1, (g.useTerm node).2.mapIds ρ) := by
  have hpattern : ((g.mapIds ρ).scope.patternFor (ρ node)).bind (g.mapIds ρ).patternTerm =
      (g.scope.patternFor node).bind g.patternTerm := by
    change ((g.scope.mapIds ρ).patternFor (ρ node)).bind (g.mapIds ρ).patternTerm = _
    rw [Scope.patternFor_mapIds hρ]
    cases g.scope.patternFor node with
    | none => rfl
    | some pattern => exact patternTerm_mapIds hρ pattern g
  rw [useTerm, useTerm, hpattern]
  cases (g.scope.patternFor node).bind g.patternTerm <;> rfl

/-- A renamed use gets the same term, under its renamed id. -/
theorem typeUse_mapIds (node : NodeId) (g : Generator) :
    (g.mapIds ρ).typeUse (ρ node) = (g.typeUse node).mapIds ρ := by
  simp only [typeUse, useTerm_mapIds hρ, setNode_mapIds hρ]

/-- The first visit of an expression commutes with the renaming. -/
theorem enterExpression_mapIds (e : Expression) (control : Control) (g : Generator) :
    (g.mapIds ρ).enterExpression (e.mapIds ρ) control =
      ((g.enterExpression e control).1, (g.enterExpression e control).2.mapIds ρ) := by
  cases e with
  | identifier id used =>
    simp only [Expression.mapIds_identifier, enterExpression, typeUse_mapIds hρ]
  | member id base name =>
    have hpath := (Expression.member id base name).memberPath_mapIds (ρ := ρ)
    simp only [Expression.mapIds_member] at hpath ⊢
    simp only [enterExpression, hpath, typeUse_mapIds hρ]
  | placeholder id =>
    simp only [Expression.mapIds_placeholder, enterExpression, freshEvar_mapIds,
      setNode_mapIds hρ]
  | binary | call | literal => rfl

/-- The arguments are matched to parameters by label and position, which renaming keeps. -/
theorem constrainArguments_mapIds (formals : List Formal) (position : Nat)
    (arguments : List Argument) (g : Generator) :
    constrainArguments formals position (arguments.map (Argument.mapIds ρ)) (g.mapIds ρ) =
      (constrainArguments formals position arguments g).mapIds ρ := by
  induction arguments generalizing position g with
  | nil => rfl
  | cons argument rest ih =>
    cases argument with
    | placeholder id => exact ih (position + 1) g
    | argument id label expression =>
      simp only [List.map_cons, Argument.mapIds_argument, constrainArguments,
        Expression.id_mapIds, nodeTerm_mapIds hρ, constrainKnown_mapIds, ih]

/-- A renamed call constrains the same terms, or is reported under its renamed id. -/
theorem typeCall_mapIds (node : NodeId) (callee : Expression) (arguments : List Argument)
    (g : Generator) :
    (g.mapIds ρ).typeCall (ρ node) (callee.mapIds ρ) (arguments.map (Argument.mapIds ρ)) =
      (g.typeCall node callee arguments).mapIds ρ := by
  rw [typeCall, typeCall, Expression.id_mapIds, nodeTerm_mapIds hρ]
  split
  · rw [constrainArguments_mapIds hρ, setNode_mapIds hρ]
  · exact report_mapIds (.notAFunction node _) g

/-- Every item of an array is constrained by its term, found under its renamed id. -/
theorem constrainItems_mapIds (element : Term) (items : List Expression) (g : Generator) :
    constrainItems element (items.map (Expression.mapIds ρ)) (g.mapIds ρ) =
      (constrainItems element items g).mapIds ρ := by
  induction items generalizing g with
  | nil => rfl
  | cons item rest ih =>
    simp only [List.map_cons, constrainItems, Expression.id_mapIds, nodeTerm_mapIds hρ,
      constrainKnown_mapIds, ih]

/-- A renamed literal has the same term. -/
theorem literalTerm_mapIds (l : Literal) (g : Generator) :
    (g.mapIds ρ).literalTerm (l.mapIds ρ) =
      ((g.literalTerm l).1, (g.literalTerm l).2.mapIds ρ) := by
  cases l with
  | array id items =>
    simp only [Literal.mapIds_array, literalTerm, freshEvar_mapIds, constrainItems_mapIds hρ]
  | none | boolean | number | string | color => rfl

/-- The second visit of an expression commutes with the renaming. -/
theorem leaveExpression_mapIds (e : Expression) (g : Generator) :
    (g.mapIds ρ).leaveExpression (e.mapIds ρ) = (g.leaveExpression e).mapIds ρ := by
  cases e with
  | call id callee arguments =>
    rw [Expression.mapIds_call, leaveExpression, leaveExpression, typeCall_mapIds hρ]
  | binary id left right operator =>
    simp only [Expression.mapIds_binary, leaveExpression, Expression.id_mapIds,
      nodeTerm_mapIds hρ, constrainKnown_mapIds, setNode_mapIds hρ]
    split <;> rfl
  | literal id literal =>
    simp only [Expression.mapIds_literal, leaveExpression, literalTerm_mapIds hρ,
      Literal.id_mapIds, setNode_mapIds hρ]
  | identifier | member | placeholder => rfl

/-! ## The walk -/

/-- Every first visit commutes with the renaming. -/
theorem enter_mapIds (node : Node) (control : Control) (g : Generator) :
    enter (node.mapIds ρ) control (g.mapIds ρ) =
      ((enter node control g).1, (enter node control g).2.mapIds ρ) := by
  cases node with
  | declaration d => exact enterDeclaration_mapIds hρ d control g
  | expression e => exact enterExpression_mapIds hρ e control g
  | statement s =>
    cases s with
    | loop id pattern iterated block =>
      simp only [Node.mapIds, Statement.mapIds_loop, enter, freshEvar_mapIds, Pattern.id_mapIds,
        setPattern_mapIds hρ]
    | declaration | branch | expression | result | placeholder => rfl
  | parameter p =>
    cases p with
    | parameter id externalName localName form defaultValue => cases defaultValue <;> rfl
    | placeholder id => rfl
  | program | pattern | identifier | typeForm | literal | generic | case | argument => rfl

/-- Every second visit commutes with the renaming. -/
theorem leave_mapIds (node : Node) (g : Generator) :
    (g.mapIds ρ).leave (node.mapIds ρ) = (g.leave node).mapIds ρ := by
  cases node with
  | declaration d => exact leaveDeclaration_mapIds hρ d g
  | statement s => exact leaveStatement_mapIds hρ s g
  | expression e => exact leaveExpression_mapIds hρ e g
  | parameter p =>
    cases p with
    | placeholder id => rfl
    | parameter id externalName localName form defaultValue =>
      cases defaultValue with
      | none => rfl
      | some defaultValue =>
        simp only [Node.mapIds, Parameter.mapIds_parameter, Option.map_some, leave,
          Pattern.id_mapIds, Expression.id_mapIds, patternTerm_mapIds hρ, nodeTerm_mapIds hρ,
          constrainKnown_mapIds]
  | program | pattern | identifier | typeForm | literal | generic | case | argument => rfl

/-- The generation is a visitor that an injective renaming goes through. -/
theorem visit_maps : visit.Maps visit (Node.mapIds ρ) (mapIds ρ) := by
  intro node control g
  rw [visit, visit, leave_mapIds hρ, enter_mapIds hρ]
  split <;> rfl

end

end Generator

variable {ρ}

/-- Inference of a program with renamed ids finds what inference of the program finds, with renamed
ids. -/
theorem Program.infer_mapIds (hρ : Function.Injective ρ) (program : Program) (scope : Scope) :
    (program.mapIds ρ).infer (scope.mapIds ρ) = (program.infer scope).mapIds ρ :=
  congrArg Generator.inference (program.walk_mapIds (Generator.visit_maps hρ) { scope })

variable (ρ) in
/-- Renames every id that is known of a program. The solution has none. -/
def Checked.mapIds (checked : Checked) : Checked where
  scope := checked.scope.mapIds ρ
  inference := checked.inference.mapIds ρ
  solution := checked.solution

/-- Checking a program with renamed ids finds what checking the program finds, with renamed ids. -/
theorem Program.check_mapIds (hρ : Function.Injective ρ) (steps : Nat) (program : Program) :
    (program.mapIds ρ).check steps = (program.check steps).mapIds ρ := by
  have hscope : (program.mapIds ρ).resolve none = (program.resolve none).mapIds ρ :=
    program.resolve_mapIds hρ none
  simp only [check, hscope, program.infer_mapIds hρ, Checked.mapIds, Inference.mapIds]

end TreeLang
