import TreeLang.Proofs.Scope.Levels
import TreeLang.Proofs.Typing.Recording

/-!
# Levels of type inference

What inference has open is the generic parameters of the declarations around and the result types of
the functions around. Functions, records and enumerations open some of these on the first visit and
close them on the second one. With the levels of name resolution this makes both walks balanced.
-/

namespace TreeLang

namespace Generator

/-! ## Levels -/

/-- The stacks of inference: the generic parameters of the declarations around, and the result types
of the functions around. -/
inductive Stack
  | generics
  | results
  deriving DecidableEq

/-- What is on a stack. -/
def Stack.Item : Stack → Type
  | .generics => Table String String
  | .results => Term

/-- What is open in a state. -/
def level (g : Generator) : Level Stack.Item
  | .generics => g.generics
  | .results => g.results

/-- The stacks on which inference puts something on the first visit of a node. -/
def opened : Node → List Stack
  | .declaration (.function _ _ _ _ _ _) => [.generics, .results]
  | .declaration (.record _ _ _ _) | .declaration (.enumeration _ _ _ _) => [.generics]
  | _ => []

/-! ## Levels of operations -/

variable (g : Generator)

/-- A constraint opens nothing. -/
theorem level_constrainKnown (head tail : Option Term) :
    (g.constrainKnown head tail).level = g.level := by
  cases head <;> cases tail <;> rfl

/-- Reading a written type draws names, and opens nothing. -/
theorem level_typeTerm (form : TypeForm) : (typeTerm form g).2.level = g.level := by
  obtain ⟨names, h⟩ := typeTerm_eq form g
  rw [h]
  rfl

theorem level_typeTerms (forms : List TypeForm) : (typeTerms forms g).2.level = g.level := by
  obtain ⟨names, h⟩ := typeTerms_eq forms g
  rw [h]
  rfl

/-- Reading parameters opens nothing. -/
theorem level_parameterFormals (parameters : List Parameter) :
    (parameterFormals parameters g).2.level = g.level := by
  induction parameters generalizing g with
  | nil => rfl
  | cons parameter rest ih =>
    cases parameter with
    | placeholder id => exact ih g
    | parameter id externalName localName form defaultValue =>
      exact (ih _).trans (g.level_typeTerm form)

/-- Reading members opens nothing. -/
theorem level_memberFormals (declarations : List Declaration) :
    (memberFormals declarations g).2.level = g.level := by
  induction declarations generalizing g with
  | nil => rfl
  | cons declaration rest ih =>
    cases declaration with
    | value id name form initializer =>
      cases form with
      | none => exact ih g
      | some form => exact (ih _).trans (g.level_typeTerm form)
    | function | enumeration | record | space | library | placeholder => exact ih g

/-- Giving cases their types opens nothing. -/
theorem level_typeCases (enumeration : Term) (cases : List EnumerationCase) :
    (typeCases enumeration cases g).level = g.level := by
  induction cases generalizing g with
  | nil => rfl
  | cons case rest ih =>
    cases case with
    | placeholder id => exact ih g
    | case id name forms =>
      cases forms with
      | nil => exact ih _
      | cons form forms => exact (ih _).trans (g.level_typeTerms (form :: forms))

/-- A use opens nothing: it only draws fresh variables. -/
theorem level_typeUse (id : NodeId) : (g.typeUse id).level = g.level := by
  obtain ⟨⟨names, hnames⟩, -⟩ := useTerm_eq id g
  show (g.useTerm id).2.level = g.level
  rw [hnames]
  rfl

/-- Constraints on arguments open nothing. -/
theorem level_constrainArguments (formals : List Formal) (position : Nat)
    (arguments : List Argument) :
    (constrainArguments formals position arguments g).level = g.level := by
  induction arguments generalizing position g with
  | nil => rfl
  | cons argument rest ih =>
    cases argument with
    | placeholder id => exact ih g _
    | argument id label expression => exact (ih _ _).trans (g.level_constrainKnown _ _)

/-- Constraints on items open nothing. -/
theorem level_constrainItems (element : Term) (items : List Expression) :
    (constrainItems element items g).level = g.level := by
  induction items generalizing g with
  | nil => rfl
  | cons item rest ih => exact (ih _).trans (g.level_constrainKnown _ _)

/-- A call opens nothing. -/
theorem level_typeCall (id : NodeId) (callee : Expression) (arguments : List Argument) :
    (g.typeCall id callee arguments).level = g.level := by
  rcases typeCall_eq_or id callee arguments g with ⟨formals, result, -, heq⟩ | ⟨error, heq⟩
  · rw [heq]
    exact g.level_constrainArguments formals 0 arguments
  · rw [heq]
    rfl

/-- A literal opens nothing. -/
theorem level_literalTerm (literal : Literal) : (g.literalTerm literal).2.level = g.level := by
  cases literal with
  | array id items => exact g.freshEvar.2.level_constrainItems g.freshEvar.1 items
  | none | boolean | number | string | color => rfl

/-! ## Levels of visits -/

/-- A declaration with generic parameters puts their table on the stack. -/
theorem opens_pushGenerics (declaration : Declaration) :
    Level.Opens [.generics] g.level (g.pushGenerics declaration).2.level
  | .generics => ⟨[_], rfl, rfl⟩
  | .results => ⟨[], rfl, rfl⟩

/-- The first visit of a node opens what is said of the node. -/
theorem opens_enter (node : Node) :
    Level.Opens (opened node) g.level (g.enter node {}).2.level := by
  have hlevel : opened node = [] → (g.enter node {}).2.level = g.level →
      Level.Opens (opened node) g.level (g.enter node {}).2.level := by
    intro hnode hsame
    rw [hnode, hsame]
    exact Level.opens_nil _
  cases node with
  | declaration declaration =>
    cases declaration with
    | function id name result generics parameters block =>
      -- The types of the parameters and of the result are read between the two pushes.
      let declared := Declaration.function id name result generics parameters block
      let given := (parameterFormals parameters (g.pushGenerics declared).2).2
      have hgiven : (typeTerm result given).2.level = (g.pushGenerics declared).2.level :=
        (given.level_typeTerm result).trans (level_parameterFormals _ parameters)
      have hresult : Level.Opens [.results] (typeTerm result given).2.level
          (g.enter (.declaration declared) {}).2.level
        | .generics => ⟨[], rfl, rfl⟩
        | .results => ⟨[(typeTerm result given).1], rfl, rfl⟩
      exact (g.opens_pushGenerics declared).append (hgiven ▸ hresult)
    | record id name generics declarations =>
      let declared := Declaration.record id name generics declarations
      have hlevel : (g.enter (.declaration declared) {}).2.level =
          (g.pushGenerics declared).2.level :=
        level_memberFormals _ declarations
      exact hlevel ▸ g.opens_pushGenerics declared
    | enumeration id name generics cases =>
      let declared := Declaration.enumeration id name generics cases
      have hlevel : (g.enter (.declaration declared) {}).2.level =
          (g.pushGenerics declared).2.level :=
        level_typeCases _ _ cases
      exact hlevel ▸ g.opens_pushGenerics declared
    | value id name form initializer =>
      refine hlevel rfl ?_
      rw [enter, enterDeclaration]
      split <;> rfl
    | space | library | placeholder => exact hlevel rfl rfl
  | statement statement => cases statement <;> exact hlevel rfl rfl
  | parameter parameter =>
    cases parameter with
    | placeholder id => exact hlevel rfl rfl
    | parameter id externalName localName form defaultValue =>
      cases defaultValue <;> exact hlevel rfl rfl
  | expression expression =>
    cases expression with
    | identifier id used => exact hlevel rfl (g.level_typeUse id)
    | member id base name => exact hlevel rfl (g.level_typeUse id)
    | placeholder | binary | call | literal => exact hlevel rfl rfl
  | program | pattern | identifier | typeForm | literal | generic | case | argument =>
    exact hlevel rfl rfl

/-- The second visit of a node closes what is said of the node. -/
theorem level_leave (node : Node) : (g.leave node).level = g.level.closed (opened node) := by
  -- only functions, records and enumerations close something, and constraints and terms are on no
  -- stack
  cases node with
  | declaration declaration =>
    cases declaration with
    | function =>
      funext stack
      cases stack <;> exact List.drop_one.symm
    | record | enumeration =>
      funext stack
      cases stack with
      | generics => exact List.drop_one.symm
      | results => rfl
    | value id name form initializer =>
      cases form with
      | none => rfl
      | some form =>
        cases initializer with
        | none => rfl
        | some initializer => exact (level_constrainKnown _ _ _).trans (g.level_typeTerm form)
    | space | library | placeholder => rfl
  | statement statement =>
    cases statement with
    | branch | loop | result => exact g.level_constrainKnown _ _
    | declaration | expression | placeholder => rfl
  | parameter parameter =>
    cases parameter with
    | placeholder id => rfl
    | parameter id externalName localName form defaultValue =>
      cases defaultValue with
      | none => rfl
      | some value => exact g.level_constrainKnown _ _
  | expression expression =>
    cases expression with
    | binary id left right operator =>
      rw [leave, leaveExpression]
      split
      · exact g.level_constrainKnown _ _
      · rfl
    | call id callee arguments => exact g.level_typeCall id callee arguments
    | literal id literal => exact g.level_literalTerm literal
    | identifier | member | placeholder => rfl
  | program | pattern | identifier | typeForm | literal | generic | case | argument => rfl

/-- A node that is not visited again opens nothing. -/
theorem opened_of_not_needsRevisit {node : Node}
    (h : (g.enter node {}).1.needsRevisit = false) : opened node = [] := by
  cases node with
  | declaration declaration =>
    cases declaration with
    | function | record | enumeration => cases h
    | value | space | library | placeholder => rfl
  | _ => rfl

/-- Inference closes what it opens. -/
theorem visit_balances : Visitor.Balances visit level (fun node => Level.Opens (opened node)) :=
  .of_closed (fun node g => g.opens_enter node) (fun node g => g.level_leave node)
    fun _ g => g.opened_of_not_needsRevisit

end Generator

/-! ## Balanced walks -/

/-- **Walks are balanced.** From whatever state a walk comes to a node of a program, name resolution
and inference leave the node on the level on which they have come to it, unless the target of name
resolution is there. No visit in between goes below that level, each second visit closes what the
first visit of its node has opened, and no more functions are left than have been entered. -/
theorem Node.walks_balanced (node : Node) (control : Control) :
    let started := { control with stop := false }
    (∀ target r,
      let finished := node.outline.walkPre (Resolver.visit target) started r
      node.outline.Balanced (Resolver.visit target) Resolver.level
          (fun node => Level.Opens (Resolver.opened node)) started r ∧
        (∀ visited ∈ (node.outline.walkPre (Resolver.visit target).logged started (r, [])).2.2,
          visited.2.1.isRevisit = true →
            (Resolver.opened visited.1).count .functions ≤ visited.2.2.functionDepth) ∧
        (finished.1.stop = false →
          finished.2.scope.values.outer = r.scope.values.outer ∧
            finished.2.scope.types.outer = r.scope.types.outer ∧ finished.2.path = r.path ∧
            finished.2.functionDepth = r.functionDepth) ∧
        (target = none → finished.1.stop = false)) ∧
      ∀ g,
        let finished := node.outline.walkPre Generator.visit started g
        node.outline.Balanced Generator.visit Generator.level
            (fun node => Level.Opens (Generator.opened node)) started g ∧
          finished.1.stop = false ∧ finished.2.generics = g.generics ∧
          finished.2.results = g.results := by
  intro started
  refine ⟨fun target r => ?_, fun g => ?_⟩
  · have hbalanced : node.outline.Balanced (Resolver.visit target) Resolver.level
        (fun node => Level.Opens (Resolver.opened node)) started r :=
      (Resolver.visit_balances target).balanced node.outline_faithful rfl r
    refine ⟨hbalanced, fun visited hvisited hagain => ?_,
      fun hgoing => Resolver.eq_of_level_eq (hbalanced.finished hgoing), ?_⟩
    · -- What the first visit has opened is on the stack of functions when the second one comes.
      obtain ⟨outside, hopens, -⟩ := hbalanced.exists_opens hvisited hagain
      obtain ⟨items, hitems, hfunctions⟩ := hopens .functions
      have hlength : (List.replicate visited.2.2.functionDepth ()).length =
          (items ++ outside .functions).length := congrArg List.length hfunctions
      rw [List.length_replicate, List.length_append, hitems] at hlength
      exact hlength ▸ Nat.le_add_right _ _
    · rintro rfl
      exact (node.outline.walkPre_eq_tour Resolver.visitAll_neverStops rfl r).1
  · have hbalanced : node.outline.Balanced Generator.visit Generator.level
        (fun node => Level.Opens (Generator.opened node)) started g :=
      Generator.visit_balances.balanced node.outline_faithful rfl g
    have hgoing : (node.outline.walkPre Generator.visit started g).1.stop = false :=
      (node.outline.walkPre_eq_tour Generator.visit_neverStops rfl g).1
    have hlevel := hbalanced.finished hgoing
    exact ⟨hbalanced, hgoing, congrFun hlevel .generics, congrFun hlevel .results⟩

/-- What the second visits of a loop, a function around it and a namespace around that find: one
frame less each time, and no function any more in the end. -/
example :
    let loop : Statement := .loop (.ofNat 5) ⟨.ofNat 6, "x"⟩ (.placeholder (.ofNat 7)) []
    let inner : Declaration :=
      .function (.ofNat 2) ⟨.ofNat 3, "f"⟩ (.placeholder (.ofNat 4)) [] [] [loop]
    let visits := (Declaration.space (.ofNat 0) ⟨.ofNat 1, "s"⟩ [inner]).outline.walkPre
      (Resolver.visit none).logged {} ({}, [])
    (visits.2.2.filter (·.2.1.isRevisit)).map
      (fun visited => ((visited.2.2.level .values).length, visited.2.2.functionDepth)) =
        [(3, 1), (2, 1), (1, 0)] := by
  decide +kernel

end TreeLang
