import TreeLang.Proofs.Term.Instantiation
import TreeLang.Proofs.Tree.Tour
import TreeLang.Typing.Inference

/-!
# What inference writes

A visit gives terms to the expression and the patterns of its own node and to no others. Beside that
it only adds constraints, so what is recorded about a part of a program stays once the part is done.
`Generator.Extends` is this relation between two states; there is one lemma about it for each thing
that a visit does.
-/

namespace TreeLang

/-- Whether the parts of the node are not walked: those of records, of enumerations, of written
types, and of variables that are not typed. -/
def Node.isClosed : Node → Bool
  | .declaration (.record _ _ _ _) | .declaration (.enumeration _ _ _ _) | .typeForm _ => true
  | .declaration (.value _ _ form initializer) => !Generator.isTypedVariable form initializer
  | _ => false

/-- The ids of the expressions that a visit of the node gives terms to. -/
def Node.typed : Node → List NodeId
  | .expression (.literal id value) => [id, value.id]
  | .expression typed => [typed.id]
  | _ => []

/-- The id of the pattern of a case. -/
def EnumerationCase.declares : EnumerationCase → List NodeId
  | .case _ name _ => [name.id]
  | .placeholder _ => []

/-- The id of the pattern of a parameter. -/
def Parameter.declares : Parameter → List NodeId
  | .parameter _ _ localName _ _ => [localName.id]
  | .placeholder _ => []

/-- The ids of the patterns that belong to a node and may get terms. -/
def Node.declares : Node → List NodeId
  | .declaration (.function _ name _ _ _ _) | .declaration (.value _ name _ _) => [name.id]
  | .declaration (.record _ name _ declarations) =>
    name.id :: (declarations.filterMap Declaration.name).map Pattern.id
  | .declaration (.enumeration _ _ _ cases) => cases.flatMap EnumerationCase.declares
  | .statement (.loop _ bound _ _) => [bound.id]
  | .parameter given => given.declares
  | _ => []

/-- The name of the function that a node declares. -/
def Node.functionName : Node → Option Pattern
  | .declaration (.function _ name _ _ _ _) => some name
  | _ => none

/-- Only functions have the name of a function. -/
theorem Node.exists_function_of_functionName {node : Node} (h : node.functionName ≠ none) :
    ∃ id name result generics parameters block,
      node = .declaration (.function id name result generics parameters block) := by
  cases node with
  | declaration declaration =>
    cases declaration with
    | function => exact ⟨_, _, _, _, _, _, rfl⟩
    | value | enumeration | record | space | library | placeholder => exact absurd rfl h
  | _ => exact absurd rfl h

/-- The ids of the patterns that belong to the nodes of an outline. -/
def Outline.declared (outline : Outline) : List NodeId := outline.preorder.flatMap Node.declares

namespace Generator

/-- No generic parameter occurs in the term of an expression. -/
def Instantiated (g : Generator) : Prop := ∀ id term, g.nodeTerm id = some term → term.Instantiated

/-- The second state knows what the first one does and more: terms have changed at the given ids at
most, and constraints and errors have only been added, after those that there were. -/
structure Extends (typed declared : List NodeId) (g g' : Generator) : Prop where
  nodes : ∀ id, id ∉ typed → g'.nodeTerm id = g.nodeTerm id
  patterns : ∀ id, id ∉ declared → g'.patternTerm id = g.patternTerm id
  known : ∀ id, (g.patternTerm id).isSome → (g'.patternTerm id).isSome
  constrained : g.inference.constraints <+: g'.inference.constraints
  reported : g.inference.errors <+: g'.inference.errors
  results : g'.results = g.results
  instantiated : g.Instantiated → g'.Instantiated

variable {typed declared : List NodeId} {g g₁ g₂ : Generator}

namespace Extends

/-- A change of anything that is not recorded. -/
theorem of_eq (hinference : g₁.inference = g.inference) (hresults : g₁.results = g.results) :
    Extends typed declared g g₁ where
  nodes id _ := by rw [nodeTerm, hinference, nodeTerm]
  patterns id _ := by rw [patternTerm, hinference, patternTerm]
  known id h := by rwa [patternTerm, hinference]
  constrained := hinference ▸ List.prefix_rfl
  reported := hinference ▸ List.prefix_rfl
  results := hresults
  instantiated h id term hterm := h id term (by rwa [nodeTerm, ← hinference])

/-- Nothing was added to a state yet. -/
theorem refl (g : Generator) : Extends typed declared g g := of_eq rfl rfl

/-- What two steps add, both add one after the other. -/
theorem trans (h : Extends typed declared g g₁) (h₁ : Extends typed declared g₁ g₂) :
    Extends typed declared g g₂ where
  nodes id hid := (h₁.nodes id hid).trans (h.nodes id hid)
  patterns id hid := (h₁.patterns id hid).trans (h.patterns id hid)
  known id hid := h₁.known id (h.known id hid)
  constrained := h.constrained.trans h₁.constrained
  reported := h.reported.trans h₁.reported
  results := h₁.results.trans h.results
  instantiated hg := h₁.instantiated (h.instantiated hg)

/-- Terms may be said to have changed at more ids. -/
theorem mono {typed' declared' : List NodeId} (h : Extends typed declared g g₁)
    (htyped : typed ⊆ typed') (hdeclared : declared ⊆ declared') :
    Extends typed' declared' g g₁ where
  nodes id hid := h.nodes id fun hmem => hid (htyped hmem)
  patterns id hid := h.patterns id fun hmem => hid (hdeclared hmem)
  known := h.known
  constrained := h.constrained
  reported := h.reported
  results := h.results
  instantiated := h.instantiated

/-- No constraint is lost. -/
theorem constraints (h : Extends typed declared g g₁) :
    g.inference.constraints ⊆ g₁.inference.constraints := h.constrained.subset

end Extends

/-! ## Writing -/

/-- Setting the term of a node leaves the other nodes alone. -/
theorem nodeTerm_setNode (id other : NodeId) (term : Term) (g : Generator) :
    (g.setNode id term).nodeTerm other = if other = id then some term else g.nodeTerm other := by
  by_cases h : other = id
  · rw [if_pos h, h]
    exact Table.find_put_self id term _
  · rw [if_neg h]
    exact Table.find_put_of_ne h term _

/-- Setting the term of a pattern leaves the other patterns alone. -/
theorem patternTerm_setPattern (id other : NodeId) (term : Term) (g : Generator) :
    (g.setPattern id term).patternTerm other =
      if other = id then some term else g.patternTerm other := by
  by_cases h : other = id
  · rw [if_pos h, h]
    exact Table.find_put_self id term _
  · rw [if_neg h]
    exact Table.find_put_of_ne h term _

/-- Setting the term of a node adds to the nodes that get a type. -/
theorem extends_setNode {id : NodeId} {term : Term} (hid : id ∈ typed)
    (hterm : g.Instantiated → term.Instantiated) :
    Extends typed declared g (g.setNode id term) where
  nodes other hother := by
    rw [nodeTerm_setNode, if_neg]
    rintro rfl
    exact hother hid
  patterns _ _ := rfl
  known _ h := h
  constrained := List.prefix_rfl
  reported := List.prefix_rfl
  results := rfl
  instantiated hg other term' hterm' := by
    rw [nodeTerm_setNode] at hterm'
    by_cases h : other = id
    · rw [if_pos h] at hterm'
      exact Option.some.inj hterm' ▸ hterm hg
    · rw [if_neg h] at hterm'
      exact hg other term' hterm'

/-- Setting the term of a pattern adds to what is declared. -/
theorem extends_setPattern {id : NodeId} (hid : id ∈ declared) (term : Term) :
    Extends typed declared g (g.setPattern id term) where
  nodes _ _ := rfl
  patterns other hother := by
    rw [patternTerm_setPattern, if_neg]
    rintro rfl
    exact hother hid
  known other h := by
    rw [patternTerm_setPattern]
    split
    · rfl
    · exact h
  constrained := List.prefix_rfl
  reported := List.prefix_rfl
  results := rfl
  instantiated hg := hg

/-- A constraint adds no terms. -/
theorem extends_constrainKnown (head tail : Option Term) :
    Extends typed declared g (g.constrainKnown head tail) := by
  cases head with
  | none => exact .refl g
  | some head =>
    cases tail with
    | none => exact .refl g
    | some tail =>
      exact { nodes := fun _ _ => rfl, patterns := fun _ _ => rfl, known := fun _ h => h,
              constrained := List.prefix_append _ _, reported := List.prefix_rfl,
              results := rfl, instantiated := fun hg => hg }

/-- A constraint does not change which terms patterns have. -/
@[simp] theorem patternTerm_constrainKnown (head tail : Option Term) (id : NodeId) :
    (g.constrainKnown head tail).patternTerm id = g.patternTerm id := by
  cases head <;> cases tail <;> rfl

/-- A constraint between known terms is recorded. -/
theorem mem_constrainKnown {head tail : Term} :
    ⟨head, tail⟩ ∈ (g.constrainKnown (some head) (some tail)).inference.constraints :=
  List.mem_append_right _ (List.mem_singleton.2 rfl)

/-- A fresh variable adds no terms. -/
theorem extends_freshEvar (g : Generator) : Extends typed declared g g.freshEvar.2 := .of_eq rfl rfl

/-! ## Written types -/

mutual

/-- The term of a written type takes fresh names and nothing else. -/
theorem typeTerm_eq (form : TypeForm) (g : Generator) :
    ∃ names, (typeTerm form g).2 = { g with names } := by
  cases form with
  | named id identifier arguments =>
    rw [typeTerm]
    cases g.genericInScope identifier.name with
    | some unique => exact ⟨_, rfl⟩
    | none => exact typeTerms_eq arguments g
  | function id result parameters =>
    obtain ⟨names, hparameters⟩ := typeTerms_eq parameters g
    obtain ⟨names', hresult⟩ := typeTerm_eq result (typeTerms parameters g).2
    refine ⟨names', ?_⟩
    rw [typeTerm]
    exact hresult.trans (by rw [hparameters])
  | placeholder id => exact ⟨_, rfl⟩

/-- Reading written types draws names and changes nothing else. -/
theorem typeTerms_eq (forms : List TypeForm) (g : Generator) :
    ∃ names, (typeTerms forms g).2 = { g with names } := by
  cases forms with
  | nil => exact ⟨_, rfl⟩
  | cons form rest =>
    obtain ⟨names, hform⟩ := typeTerm_eq form g
    obtain ⟨names', hrest⟩ := typeTerms_eq rest (typeTerm form g).2
    refine ⟨names', ?_⟩
    rw [typeTerms]
    exact hrest.trans (by rw [hform])

end

/-- Reading a written type adds no terms. -/
theorem extends_typeTerm (form : TypeForm) (g : Generator) :
    Extends typed declared g (typeTerm form g).2 := by
  obtain ⟨names, h⟩ := typeTerm_eq form g
  rw [h]
  exact .of_eq rfl rfl

/-- Reading written types adds no terms. -/
theorem extends_typeTerms (forms : List TypeForm) (g : Generator) :
    Extends typed declared g (typeTerms forms g).2 := by
  obtain ⟨names, h⟩ := typeTerms_eq forms g
  rw [h]
  exact .of_eq rfl rfl

/-! ## Declarations -/

/-- Opening generic parameters adds no terms. -/
theorem extends_pushGenerics (declaration : Declaration) (g : Generator) :
    Extends typed declared g (g.pushGenerics declaration).2 := .of_eq rfl rfl

/-- A parameter gets the term of its written type before those after it are read. -/
theorem parameterFormals_parameter (id : NodeId) (externalName : Option String)
    (localName : Pattern) (form : TypeForm) (defaultValue : Option Expression)
    (rest : List Parameter) (g : Generator) :
    (parameterFormals (.parameter id externalName localName form defaultValue :: rest) g).2 =
      (parameterFormals rest
        ((typeTerm form g).2.setPattern localName.id (typeTerm form g).1)).2 := rfl

/-- Parameters add their patterns to what is declared. -/
theorem extends_parameterFormals (parameters : List Parameter) (g : Generator) :
    Extends typed (parameters.flatMap Parameter.declares) g (parameterFormals parameters g).2 := by
  induction parameters generalizing g with
  | nil => exact .refl g
  | cons parameter rest ih =>
    cases parameter with
    | placeholder id => exact ih g
    | parameter id externalName localName form defaultValue =>
      rw [parameterFormals_parameter]
      refine (extends_typeTerm form g).trans ?_
      refine (extends_setPattern List.mem_cons_self (typeTerm form g).1).trans ?_
      exact (ih _).mono (List.Subset.refl _) (List.subset_cons_self _ _)

/-- Every parameter has a term. -/
theorem known_parameterFormals {parameters : List Parameter} {id : NodeId}
    (hid : id ∈ parameters.flatMap Parameter.declares) (g : Generator) :
    ((parameterFormals parameters g).2.patternTerm id).isSome := by
  induction parameters generalizing g with
  | nil => cases hid
  | cons parameter rest ih =>
    rw [List.flatMap_cons, List.mem_append] at hid
    cases parameter with
    | placeholder _ => exact ih (hid.resolve_left nofun) g
    | parameter _ externalName localName form defaultValue =>
      rw [parameterFormals_parameter]
      rcases hid with hid | hid
      · rw [List.mem_singleton.1 hid]
        have hrest : ∀ g, Extends [] _ g (parameterFormals rest g).2 :=
          extends_parameterFormals rest
        refine (hrest _).known _ ?_
        rw [patternTerm_setPattern, if_pos rfl]
        rfl
      · exact ih hid _

/-- Members add their patterns to what is declared. -/
theorem extends_memberFormals (declarations : List Declaration) (g : Generator) :
    Extends typed ((declarations.filterMap Declaration.name).map Pattern.id) g
      (memberFormals declarations g).2 := by
  induction declarations generalizing g with
  | nil => exact .refl g
  | cons declaration rest ih =>
    have hrest : (rest.filterMap Declaration.name).map Pattern.id ⊆
        ((declaration :: rest).filterMap Declaration.name).map Pattern.id :=
      List.map_subset _ (List.filterMap_subset _ (List.subset_cons_self _ _))
    have hskip := (ih g).mono (List.Subset.refl typed) hrest
    cases declaration with
    | value id name form initializer =>
      cases form with
      | none => exact hskip
      | some form =>
        have heq : (memberFormals (.value id name (some form) initializer :: rest) g).2 =
            (memberFormals rest ((typeTerm form g).2.setPattern name.id (typeTerm form g).1)).2 :=
          rfl
        rw [heq]
        refine (extends_typeTerm form g).trans ?_
        refine (extends_setPattern List.mem_cons_self (typeTerm form g).1).trans ?_
        exact (ih _).mono (List.Subset.refl _) hrest
    | function | enumeration | record | space | library | placeholder => exact hskip

/-- Cases add their patterns to what is declared. -/
theorem extends_typeCases (enumeration : Term) (cases : List EnumerationCase) (g : Generator) :
    Extends typed (cases.flatMap EnumerationCase.declares) g (typeCases enumeration cases g) := by
  induction cases generalizing g with
  | nil => exact .refl g
  | cons case rest ih =>
    cases case with
    | placeholder id => exact ih g
    | case id name forms =>
      have hset : ∀ g term, Extends typed
          ((EnumerationCase.case id name forms :: rest).flatMap EnumerationCase.declares) g
          (typeCases enumeration rest (g.setPattern name.id term)) := fun g term =>
        (extends_setPattern List.mem_cons_self term).trans
          ((ih _).mono (List.Subset.refl _) (List.subset_cons_self _ _))
      cases forms with
      | nil => exact hset g _
      | cons form forms => exact (extends_typeTerms (form :: forms) g).trans (hset _ _)

/-! ## Expressions -/

/-- The term at a use takes fresh names and nothing else. -/
theorem useTerm_eq (id : NodeId) (g : Generator) :
    (∃ names, (g.useTerm id).2 = { g with names }) ∧ (g.useTerm id).1.Instantiated := by
  rw [useTerm]
  cases (g.scope.patternFor id).bind g.patternTerm with
  | some term => exact ⟨⟨_, rfl⟩, Term.instantiate_instantiated term g.names⟩
  | none => exact ⟨⟨_, rfl⟩, .evar _⟩

/-- A use adds the term of its own node. -/
theorem extends_typeUse {id : NodeId} (hid : id ∈ typed) (g : Generator) :
    Extends typed declared g (g.typeUse id) := by
  obtain ⟨⟨names, hnames⟩, hterm⟩ := useTerm_eq id g
  have heq : g.typeUse id = (g.useTerm id).2.setNode id (g.useTerm id).1 := rfl
  rw [heq]
  refine Extends.trans ?_ (extends_setNode hid fun _ => hterm)
  rw [hnames]
  exact .of_eq rfl rfl

/-- Constraints on arguments add no terms. -/
theorem extends_constrainArguments (formals : List Formal) (position : Nat)
    (arguments : List Argument) (g : Generator) :
    Extends typed declared g (constrainArguments formals position arguments g) := by
  induction arguments generalizing position g with
  | nil => exact .refl g
  | cons argument rest ih =>
    cases argument with
    | placeholder id => exact ih _ g
    | argument id label expression => exact (extends_constrainKnown _ _).trans (ih _ _)

/-- The constraint of an argument with a term is recorded. -/
theorem mem_constrainArguments {formals : List Formal} {start position : Nat}
    {arguments : List Argument} {id : NodeId} {label : Option String} {given : Expression}
    (hgiven : arguments[position]? = some (.argument id label given)) {formal : Formal}
    (hformal : formalFor formals (start + position) label = some formal) {term : Term}
    (hterm : g.nodeTerm given.id = some term) :
    ⟨formal.type, term⟩ ∈ (constrainArguments formals start arguments g).inference.constraints := by
  induction arguments generalizing start position g with
  | nil => cases hgiven
  | cons argument rest ih =>
    cases position with
    | zero =>
      obtain rfl : argument = .argument id label given := by simpa using hgiven
      rw [Nat.add_zero] at hformal
      rw [constrainArguments, hformal, hterm]
      have hrest : ∀ g, Extends [] [] g (constrainArguments formals (start + 1) rest g) :=
        extends_constrainArguments formals (start + 1) rest
      exact (hrest _).constraints mem_constrainKnown
    | succ position =>
      rw [List.getElem?_cons_succ] at hgiven
      rw [← Nat.add_assoc, Nat.add_right_comm] at hformal
      cases argument with
      | placeholder other => exact ih hgiven hformal hterm
      | argument other label' given' =>
        -- the constraint of the first argument leaves the terms of the others
        refine ih hgiven hformal ?_
        have hfirst : Extends [] [] g (g.constrainKnown
            ((formalFor formals start label').map Formal.type) (g.nodeTerm given'.id)) :=
          extends_constrainKnown _ _
        rw [hfirst.nodes _ List.not_mem_nil, hterm]

/-- Constraints on items add no terms. -/
theorem extends_constrainItems (element : Term) (items : List Expression) (g : Generator) :
    Extends typed declared g (constrainItems element items g) := by
  induction items generalizing g with
  | nil => exact .refl g
  | cons item rest ih => exact (extends_constrainKnown _ _).trans (ih _)

/-- The constraint of an item with a term is recorded. -/
theorem mem_constrainItems {element : Term} {items : List Expression} {item : Expression}
    (hitem : item ∈ items) {term : Term} (hterm : g.nodeTerm item.id = some term) :
    ⟨element, term⟩ ∈ (constrainItems element items g).inference.constraints := by
  induction items generalizing g with
  | nil => cases hitem
  | cons first rest ih =>
    rw [constrainItems]
    rcases List.mem_cons.1 hitem with rfl | hitem
    · rw [hterm]
      have hrest : ∀ g, Extends [] [] g (constrainItems element rest g) :=
        extends_constrainItems element rest
      exact (hrest _).constraints mem_constrainKnown
    · refine ih hitem ?_
      have hfirst : Extends [] [] g (g.constrainKnown (some element) (g.nodeTerm first.id)) :=
        extends_constrainKnown _ _
      rw [hfirst.nodes _ List.not_mem_nil, hterm]

/-- A call of a function has its result as term; any other call is an error. -/
theorem typeCall_eq_or (id : NodeId) (callee : Expression) (arguments : List Argument)
    (g : Generator) :
    (∃ formals result, g.nodeTerm callee.id = some (.fn formals result) ∧
      g.typeCall id callee arguments =
        (constrainArguments formals 0 arguments g).setNode id result) ∨
    ∃ error, g.typeCall id callee arguments = g.report error := by
  rw [typeCall]
  split
  · rename_i formals result hcallee
    exact .inl ⟨formals, result, hcallee, rfl⟩
  · exact .inr ⟨_, rfl⟩

/-- A call adds the term of its own node. -/
theorem extends_typeCall {id : NodeId} (hid : id ∈ typed) (callee : Expression)
    (arguments : List Argument) (g : Generator) :
    Extends typed declared g (g.typeCall id callee arguments) := by
  rcases typeCall_eq_or id callee arguments g with ⟨formals, result, hcallee, heq⟩ | ⟨error, heq⟩
  · have harguments : Extends [] declared g (constrainArguments formals 0 arguments g) :=
      extends_constrainArguments formals 0 arguments g
    rw [heq]
    refine (harguments.mono (List.nil_subset _) (List.Subset.refl _)).trans
      (extends_setNode hid fun hg => ?_)
    have hfn := hg callee.id (.fn formals result) ((harguments.nodes _ nofun).trans hcallee)
    cases hfn with
    | fn _ hresult => exact hresult
  · rw [heq]
    exact { nodes := fun _ _ => rfl, patterns := fun _ _ => rfl, known := fun _ h => h,
            constrained := List.prefix_rfl, reported := List.prefix_append _ _, results := rfl,
            instantiated := fun hg => hg }

/-- A literal adds no terms, and its own has no generic parameter. -/
theorem extends_literalTerm (literal : Literal) (g : Generator) :
    Extends typed declared g (g.literalTerm literal).2 ∧
      (g.literalTerm literal).1.Instantiated := by
  cases literal with
  | array id items =>
    refine ⟨?_, Term.instantiated_array (.evar _)⟩
    have heq : (g.literalTerm (.array id items)).2 =
        constrainItems g.freshEvar.1 items g.freshEvar.2 := rfl
    rw [heq]
    exact (extends_freshEvar g).trans (extends_constrainItems _ _ _)
  | none | boolean | number | string | color =>
    exact ⟨.refl g, Term.instantiated_named _⟩

/-! ## Visits -/

variable {node : Node}

/-- What the first visit of a node other than a function does. -/
theorem extends_enter (hnode : node.functionName = none) (control : Control) (g : Generator) :
    Extends node.typed node.declares g (g.enter node control).2 := by
  -- functions are left out, as they open a result: every other node writes at most its own id and
  -- its own patterns
  cases node with
  | declaration declaration =>
    cases declaration with
    | function => cases hnode
    | record id name generics declarations =>
      refine (extends_pushGenerics (.record id name generics declarations) g).trans ?_
      refine ((extends_memberFormals declarations _).mono (List.Subset.refl _)
        (List.subset_cons_self _ _)).trans ?_
      exact extends_setPattern List.mem_cons_self _
    | enumeration id name generics cases =>
      exact (extends_pushGenerics (.enumeration id name generics cases) g).trans
        (extends_typeCases _ cases _)
    | value id name form initializer =>
      rw [enter, enterDeclaration]
      split <;> exact .refl g
    | space | library | placeholder => exact .refl g
  | statement statement =>
    cases statement with
    | loop id pattern iterated block =>
      exact (extends_freshEvar g).trans (extends_setPattern List.mem_cons_self _)
    | declaration | branch | expression | result | placeholder => exact .refl g
  | parameter parameter =>
    cases parameter with
    | placeholder id => exact .refl g
    | parameter id externalName localName form defaultValue =>
      cases defaultValue <;> exact .refl g
  | expression expression =>
    cases expression with
    | identifier id used => exact extends_typeUse List.mem_cons_self g
    | member id base name => exact extends_typeUse List.mem_cons_self g
    -- a fresh variable has no generic parameters
    | placeholder id =>
      exact (extends_freshEvar g).trans (extends_setNode List.mem_cons_self fun _ => .evar _)
    | binary | call | literal => exact .refl g
  | program | pattern | identifier | typeForm | literal | generic | case | argument =>
    exact .refl g

/-- What the second visit of a node other than a function does. -/
theorem extends_leave (hnode : node.functionName = none) (g : Generator) :
    Extends node.typed node.declares g (g.leave node) := by
  -- a second visit constrains what is below, and writes at most the node's own term
  cases node with
  | declaration declaration =>
    cases declaration with
    | function => cases hnode
    | record | enumeration => exact .of_eq rfl rfl
    | value id name form initializer =>
      cases form with
      | none => exact .refl g
      | some form =>
        cases initializer with
        | none => exact .refl g
        | some initializer =>
          -- a typed value takes its written type, and its initializer is constrained to it
          refine (extends_typeTerm form g).trans ?_
          refine (extends_setPattern List.mem_cons_self (typeTerm form g).1).trans ?_
          exact extends_constrainKnown _ _
    | space | library | placeholder => exact .refl g
  | statement statement =>
    cases statement with
    | branch | loop | result => exact extends_constrainKnown _ _
    | declaration | expression | placeholder => exact .refl g
  | parameter parameter =>
    cases parameter with
    | placeholder id => exact .refl g
    | parameter id externalName localName form defaultValue =>
      cases defaultValue with
      | none => exact .refl g
      | some value => exact extends_constrainKnown _ _
  | expression expression =>
    cases expression with
    | binary id left right operator =>
      rw [leave, leaveExpression]
      split
      · exact (extends_constrainKnown _ _).trans
          (extends_setNode List.mem_cons_self fun _ => Term.instantiated_named _)
      · exact .refl g
    | call id callee arguments => exact extends_typeCall List.mem_cons_self callee arguments g
    | literal id literal =>
      -- the term is written twice, for the literal and for the expression that it is
      obtain ⟨hterm, hinstantiated⟩ := extends_literalTerm literal g
      refine hterm.trans ?_
      refine (extends_setNode (List.mem_cons_of_mem _ List.mem_cons_self)
        fun _ => hinstantiated).trans ?_
      exact extends_setNode List.mem_cons_self fun _ => hinstantiated
    | identifier | member | placeholder => exact .refl g
  | program | pattern | identifier | typeForm | literal | generic | case | argument =>
    exact .refl g

/-- On the first visit of a function its parameters get their terms, then the function does, and its
result type becomes the innermost one. -/
theorem enter_function (id : NodeId) (name : Pattern) (result : TypeForm)
    (generics : List GenericParameter) (parameters : List Parameter) (block : List Statement)
    (control : Control) (g : Generator) :
    ∃ g₁ formals term, Extends [] (parameters.flatMap Parameter.declares) g g₁ ∧
      (∀ id ∈ parameters.flatMap Parameter.declares, (g₁.patternTerm id).isSome) ∧
      g.enter (.declaration (.function id name result generics parameters block)) control =
        ({ control with needsRevisit := true },
          ({ g₁ with results := term :: g₁.results }).setPattern name.id (.fn formals term)) := by
  refine ⟨(typeTerm result (parameterFormals parameters
    (g.pushGenerics (.function id name result generics parameters block)).2).2).2, _, _,
    ?_, ?_, rfl⟩
  · refine (extends_pushGenerics (.function id name result generics parameters block) g).trans ?_
    exact (extends_parameterFormals parameters _).trans (extends_typeTerm result _)
  · intro id hid
    have hresult : ∀ g, Extends [] [] g (typeTerm result g).2 := extends_typeTerm result
    exact (hresult _).known id (known_parameterFormals hid _)

/-- What extends the state inside a function extends the one around it once the function is left. -/
theorem Extends.popped {term : Term}
    (h : Extends typed declared { g with results := term :: g.results } g₁) :
    Extends typed declared g { g₁.popGenerics with results := g₁.results.tail } where
  nodes := h.nodes
  patterns := h.patterns
  known := h.known
  constrained := h.constrained
  reported := h.reported
  results := by rw [h.results]; rfl
  instantiated := h.instantiated

/-- On the second visit of a function its result type is the innermost one no longer. -/
theorem leave_function (id : NodeId) (name : Pattern) (result : TypeForm)
    (generics : List GenericParameter) (parameters : List Parameter) (block : List Statement)
    (g : Generator) :
    g.leave (.declaration (.function id name result generics parameters block)) =
      { g.popGenerics with results := g.results.tail } := rfl

end Generator

end TreeLang
