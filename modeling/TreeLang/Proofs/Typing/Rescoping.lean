import TreeLang.Proofs.Typing.Naming

/-!
# Inference under another scope

Inference asks the scope only what the identifiers and the paths of a program refer to. Under two
scopes that agree on the expressions of an outline, a walk over it does the same.
-/

namespace TreeLang

namespace Generator

/-- The state of a walk, with another scope. -/
def under (scope : Scope) (g : Generator) : Generator := { g with scope }

variable (scope : Scope)

/-- Constraints do not look at the scope. -/
theorem constrainKnown_under (head tail : Option Term) (g : Generator) :
    (g.under scope).constrainKnown head tail = (g.constrainKnown head tail).under scope := by
  cases head <;> cases tail <;> rfl

/-! ## Written types -/

mutual

/-- Written types do not look at the scope. -/
theorem typeTerm_under (form : TypeForm) (g : Generator) :
    typeTerm form (g.under scope) = ((typeTerm form g).1, (typeTerm form g).2.under scope) := by
  cases form with
  | named id identifier arguments =>
    have hgeneric : (g.under scope).genericInScope identifier.name =
        g.genericInScope identifier.name := rfl
    simp only [typeTerm, hgeneric, typeTerms_under arguments g]
    split <;> rfl
  | function id result parameters =>
    simp only [typeTerm, typeTerms_under parameters g, typeTerm_under result]
  | placeholder id => rfl

theorem typeTerms_under (forms : List TypeForm) (g : Generator) :
    typeTerms forms (g.under scope) =
      ((typeTerms forms g).1, (typeTerms forms g).2.under scope) := by
  cases forms with
  | nil => rfl
  | cons form rest => simp only [typeTerms, typeTerm_under form g, typeTerms_under rest]

end

/-! ## Declarations -/

/-- Parameters are typed without a look at the scope. -/
theorem parameterFormals_under (parameters : List Parameter) (g : Generator) :
    parameterFormals parameters (g.under scope) =
      ((parameterFormals parameters g).1, (parameterFormals parameters g).2.under scope) := by
  induction parameters generalizing g with
  | nil => rfl
  | cons parameter rest ih =>
    cases parameter with
    | placeholder id => exact ih g
    | parameter id externalName localName form defaultValue =>
      have hset := ih ((typeTerm form g).2.setPattern localName.id (typeTerm form g).1)
      simp only [parameterFormals, typeTerm_under]
      exact congrArg (fun rest => (Formal.mk _ _ :: rest.1, rest.2)) hset

/-- Members are typed without a look at the scope. -/
theorem memberFormals_under (declarations : List Declaration) (g : Generator) :
    memberFormals declarations (g.under scope) =
      ((memberFormals declarations g).1, (memberFormals declarations g).2.under scope) := by
  induction declarations generalizing g with
  | nil => rfl
  | cons declaration rest ih =>
    cases declaration with
    | value id name form initializer =>
      cases form with
      | none => exact ih g
      | some form =>
        have hset := ih ((typeTerm form g).2.setPattern name.id (typeTerm form g).1)
        simp only [memberFormals, typeTerm_under]
        exact congrArg (fun rest => (Formal.mk _ _ :: rest.1, rest.2)) hset
    | function | enumeration | record | space | library | placeholder => exact ih g

/-- Cases are typed without a look at the scope. -/
theorem typeCases_under (enumeration : Term) (cases : List EnumerationCase) (g : Generator) :
    typeCases enumeration cases (g.under scope) = (typeCases enumeration cases g).under scope := by
  induction cases generalizing g with
  | nil => rfl
  | cons case rest ih =>
    cases case with
    | placeholder id => exact ih g
    | case id name forms =>
      cases forms with
      | nil => exact ih (g.setPattern name.id enumeration)
      | cons form forms =>
        simp only [typeCases, typeTerms_under]
        exact ih ((typeTerms (form :: forms) g).2.setPattern name.id _)

/-- The first visit of a declaration does not look at the scope. -/
theorem enterDeclaration_under (declaration : Declaration) (control : Control) (g : Generator) :
    (g.under scope).enterDeclaration declaration control =
      ((g.enterDeclaration declaration control).1,
        (g.enterDeclaration declaration control).2.under scope) := by
  have hpush : (g.under scope).pushGenerics declaration =
      ((g.pushGenerics declaration).1, (g.pushGenerics declaration).2.under scope) := rfl
  cases declaration with
  | function id name result generics parameters block =>
    simp only [enterDeclaration, hpush, parameterFormals_under, typeTerm_under]
    rfl
  | record id name generics declarations =>
    simp only [enterDeclaration, hpush, memberFormals_under]
    rfl
  | enumeration id name generics cases =>
    simp only [enterDeclaration, hpush, typeCases_under]
  | value id name form initializer =>
    simp only [enterDeclaration]
    split <;> rfl
  | space | library | placeholder => rfl

/-- The second visit of a declaration does not look at the scope. -/
theorem leaveDeclaration_under (declaration : Declaration) (g : Generator) :
    (g.under scope).leaveDeclaration declaration =
      (g.leaveDeclaration declaration).under scope := by
  cases declaration with
  | value id name form initializer =>
    cases form with
    | none => cases initializer <;> rfl
    | some form =>
      cases initializer with
      | none => rfl
      | some initializer =>
        simp only [leaveDeclaration, typeTerm_under]
        exact constrainKnown_under scope _ _ ((typeTerm form g).2.setPattern name.id _)
  | function | record | enumeration | space | library | placeholder => rfl

/-- The second visit of a statement does not look at the scope. -/
theorem leaveStatement_under (statement : Statement) (g : Generator) :
    (g.under scope).leaveStatement statement = (g.leaveStatement statement).under scope := by
  cases statement with
  | branch | loop | result => exact constrainKnown_under scope _ _ g
  | declaration | expression | placeholder => rfl

/-! ## Expressions -/

/-- Where both scopes refer to the same, so does the term. -/
theorem typeUse_under {id : NodeId} {g : Generator}
    (h : scope.patternFor id = g.scope.patternFor id) :
    (g.under scope).typeUse id = (g.typeUse id).under scope := by
  have hpattern : ((g.under scope).scope.patternFor id).bind (g.under scope).patternTerm =
      (g.scope.patternFor id).bind g.patternTerm :=
    congrArg (Option.bind · g.patternTerm) h
  rw [typeUse, typeUse, useTerm, useTerm, hpattern]
  cases (g.scope.patternFor id).bind g.patternTerm <;> rfl

/-- The first visit of an expression looks up its own target and nothing else. -/
theorem enterExpression_under {expression : Expression} {g : Generator}
    (h : scope.patternFor expression.id = g.scope.patternFor expression.id) (control : Control) :
    (g.under scope).enterExpression expression control =
      ((g.enterExpression expression control).1,
        (g.enterExpression expression control).2.under scope) := by
  cases expression with
  | identifier id used => exact congrArg (Prod.mk _) (typeUse_under scope h)
  | member id base name => exact congrArg (Prod.mk _) (typeUse_under scope h)
  | placeholder | binary | call | literal => rfl

/-- Arguments are constrained without a look at the scope. -/
theorem constrainArguments_under (formals : List Formal) (position : Nat)
    (arguments : List Argument) (g : Generator) :
    constrainArguments formals position arguments (g.under scope) =
      (constrainArguments formals position arguments g).under scope := by
  induction arguments generalizing position g with
  | nil => rfl
  | cons argument rest ih =>
    cases argument with
    | placeholder id => exact ih (position + 1) g
    | argument id label expression =>
      rw [constrainArguments, constrainKnown_under, ih]
      rfl

/-- Items are constrained without a look at the scope. -/
theorem constrainItems_under (element : Term) (items : List Expression) (g : Generator) :
    constrainItems element items (g.under scope) =
      (constrainItems element items g).under scope := by
  induction items generalizing g with
  | nil => rfl
  | cons item rest ih =>
    rw [constrainItems, constrainKnown_under, ih]
    rfl

/-- A call is constrained without a look at the scope. -/
theorem typeCall_under (id : NodeId) (callee : Expression) (arguments : List Argument)
    (g : Generator) :
    (g.under scope).typeCall id callee arguments =
      (g.typeCall id callee arguments).under scope := by
  have hcallee : (g.under scope).nodeTerm callee.id = g.nodeTerm callee.id := rfl
  rw [typeCall, typeCall, hcallee]
  split
  · rw [constrainArguments_under]
    rfl
  · rfl

/-- The second visit of an expression does not look at the scope. -/
theorem leaveExpression_under (expression : Expression) (g : Generator) :
    (g.under scope).leaveExpression expression = (g.leaveExpression expression).under scope := by
  cases expression with
  | call id callee arguments => exact typeCall_under scope id callee arguments g
  | binary id left right operator =>
    rw [leaveExpression, leaveExpression]
    split
    · exact congrArg (setNode id _) (constrainKnown_under scope _ _ g)
    · rfl
  | literal id literal =>
    cases literal with
    | array own items =>
      simp only [leaveExpression, literalTerm]
      exact congrArg (fun g : Generator => setNode id _ (setNode own _ g))
        (constrainItems_under scope _ items g.freshEvar.2)
    | none | boolean | number | string | color => rfl
  | identifier | member | placeholder => rfl

/-! ## The walk -/

/-- A visit does the same under two scopes that agree on the expression visited. -/
theorem visit_under {node : Node} {g : Generator}
    (h : ∀ e, node = .expression e → scope.patternFor e.id = g.scope.patternFor e.id)
    (control : Control) :
    visit node control (g.under scope) =
      ((visit node control g).1, (visit node control g).2.under scope) := by
  -- second visits do not look at the scope, and first visits look at it for expressions only
  rw [visit, visit]
  split
  · refine congrArg (Prod.mk control) ?_
    cases node with
    | declaration declaration => exact leaveDeclaration_under scope declaration g
    | statement statement => exact leaveStatement_under scope statement g
    | expression expression => exact leaveExpression_under scope expression g
    | parameter parameter =>
      cases parameter with
      | placeholder id => rfl
      | parameter id externalName localName form defaultValue =>
        cases defaultValue with
        | none => rfl
        | some value => exact constrainKnown_under scope _ _ g
    | program | pattern | identifier | typeForm | literal | generic | case | argument => rfl
  · cases node with
    | declaration declaration => exact enterDeclaration_under scope declaration control g
    | expression expression => exact enterExpression_under scope (h expression rfl) control
    | statement statement => cases statement <;> rfl
    | parameter parameter =>
      cases parameter with
      | placeholder id => rfl
      | parameter id externalName localName form defaultValue => cases defaultValue <;> rfl
    | program | pattern | identifier | typeForm | literal | generic | case | argument => rfl

end Generator

open Generator (visit)

/-- A walk does the same under two scopes that agree on the expressions of the outline. -/
theorem Outline.tour_under {outline : Outline} {scope : Scope} {g : Generator}
    (h : ∀ e, .expression e ∈ outline.preorder →
      scope.patternFor e.id = g.scope.patternFor e.id) :
    outline.tour visit (g.under scope) = (outline.tour visit g).under scope := by
  -- on the way both states are the same but for the scope, which no visit changes
  let R : Generator → Generator → Prop := fun g₁ g₂ => g₁.scope = g.scope ∧ g₂ = g₁.under scope
  suffices hR : R (outline.tour visit g) (outline.tour visit (g.under scope)) from hR.2
  refine tour_relates (fun node hnode control g₁ g₂ => ?_) ⟨rfl, rfl⟩
  rintro ⟨hscope, rfl⟩
  have hagree : ∀ e, node = .expression e → scope.patternFor e.id = g₁.scope.patternFor e.id := by
    intro e he
    rw [hscope, h e (he ▸ hnode)]
  rw [Generator.visit_under scope hagree control]
  exact ⟨rfl, (Generator.advances_visit node control g₁).scope.trans hscope, rfl⟩

end TreeLang
