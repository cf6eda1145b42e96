import TreeLang.Scope.Resolution
import TreeLang.Term.Fresh
import TreeLang.Term.Unifier

/-!
# Type inference

One walk gives a term to every expression and to every declared pattern, and records what must be
equal. Declarations get their terms on the first visit, so a function can call itself; expressions
get them on the second, from the terms of their parts. A node that cannot be typed has no term, and
a call of something that is not a function is an error but ends nothing.
-/

namespace TreeLang

/-- What cannot be typed. -/
inductive InferenceError where
  | notAFunction (call : NodeId) (callee : Option Term)
  deriving DecidableEq

/-- The text of an error. -/
def InferenceError.message : InferenceError → String
  | .notAFunction call _ => "callee of call " ++ call.text ++ " is not a function"

/-- Terms and constraints of a program, before unification. -/
structure Inference where
  /-- The terms of expressions. -/
  nodeTerms : Table NodeId Term := []
  /-- The terms of patterns; those of generic declarations keep their parameters. -/
  patternTerms : Table NodeId Term := []
  /-- What must be equal, in the order of the walk. -/
  constraints : List Constraint := []
  /-- The calls that cannot be typed, in the order of the walk. -/
  errors : List InferenceError := []

/-- The state of a walk. -/
structure Generator where
  /-- What expressions refer to. -/
  scope : Scope
  names : NameSupply := .start
  inference : Inference := {}
  /-- The generic parameters of the declarations around, innermost first, with their unique
  names. -/
  generics : List (Table String String) := []
  /-- The result types of the functions around, innermost first. -/
  results : List Term := []

namespace Generator

/-- The term of an expression. -/
def nodeTerm (g : Generator) (id : NodeId) : Option Term := g.inference.nodeTerms.find id

/-- The term of a pattern. -/
def patternTerm (g : Generator) (id : NodeId) : Option Term := g.inference.patternTerms.find id

/-- Gives a term to an expression. -/
def setNode (id : NodeId) (term : Term) (g : Generator) : Generator :=
  { g with inference := { g.inference with nodeTerms := g.inference.nodeTerms.put id term } }

/-- Gives a term to a pattern. -/
def setPattern (id : NodeId) (term : Term) (g : Generator) : Generator :=
  { g with
    inference := { g.inference with patternTerms := g.inference.patternTerms.put id term } }

/-- Records that two terms must be equal. -/
def constrain (head tail : Term) (g : Generator) : Generator :=
  { g with
    inference := { g.inference with constraints := g.inference.constraints ++ [⟨head, tail⟩] } }

/-- Records that two terms must be equal, when both are known. -/
def constrainKnown (head tail : Option Term) (g : Generator) : Generator :=
  match head, tail with
  | some head, some tail => g.constrain head tail
  | _, _ => g

/-- Records an error. -/
def report (error : InferenceError) (g : Generator) : Generator :=
  { g with inference := { g.inference with errors := g.inference.errors ++ [error] } }

/-- A fresh type variable. -/
def freshEvar (g : Generator) : Term × Generator :=
  let (term, names) := g.names.evar
  (term, { g with names })

/-! ## Written types -/

/-- The unique name of a generic parameter that is in scope. -/
def genericInScope (g : Generator) (name : String) : Option String :=
  g.generics.findSome? fun frame => frame.find name

mutual

/-- The term of a written type. A generic parameter in scope takes no arguments, and a type that is
left open is a fresh variable. -/
def typeTerm : TypeForm → Generator → Term × Generator
  | .named _ identifier arguments, g =>
    match g.genericInScope identifier.name with
    | some unique => (.gen unique, g)
    | none =>
      let (parameters, g) := typeTerms arguments g
      (.cons identifier.name parameters, g)
  | .function _ result parameters, g =>
    let (parameters, g) := typeTerms parameters g
    let (result, g) := typeTerm result g
    (.fn (parameters.map (Formal.mk none)) result, g)
  | .placeholder _, g => g.freshEvar

/-- The terms of a list of written types, from left to right. -/
def typeTerms : List TypeForm → Generator → List Term × Generator
  | [], g => ([], g)
  | form :: rest, g =>
    let (term, g) := typeTerm form g
    let (rest, g) := typeTerms rest g
    (term :: rest, g)

end

/-! ## Declarations -/

/-- Unique names for generic parameters, in order, with a table to look them up in. -/
def nameGenerics : List Pattern → NameSupply → List Term × Table String String × NameSupply
  | [], names => ([], [], names)
  | pattern :: rest, names =>
    let (unique, names) := names.genericName pattern.name
    let (terms, frame, names) := nameGenerics rest names
    -- Of two parameters of one name the later one is in scope.
    let frame := if frame.has pattern.name then frame else (pattern.name, unique) :: frame
    (.gen unique :: terms, frame, names)

/-- Brings the generic parameters of a declaration into scope and gives their terms. -/
def pushGenerics (declaration : Declaration) (g : Generator) : List Term × Generator :=
  let (terms, frame, names) := nameGenerics declaration.genericPatterns g.names
  (terms, { g with names, generics := frame :: g.generics })

/-- Takes the generic parameters of a declaration out of scope. -/
def popGenerics (g : Generator) : Generator := { g with generics := g.generics.tail }

/-- The arguments that parameters stand for; each parameter gets its term. -/
def parameterFormals : List Parameter → Generator → List Formal × Generator
  | [], g => ([], g)
  | .placeholder _ :: rest, g => parameterFormals rest g
  | .parameter id externalName localName form defaultValue :: rest, g =>
    let (term, g) := typeTerm form g
    let g := g.setPattern localName.id term
    let (formals, g) := parameterFormals rest g
    let label := (Parameter.parameter id externalName localName form defaultValue).label
    (.mk label term :: formals, g)

/-- The arguments that the typed members of a record stand for; each member gets its term. -/
def memberFormals : List Declaration → Generator → List Formal × Generator
  | [], g => ([], g)
  | .value _ name (some form) _ :: rest, g =>
    let (term, g) := typeTerm form g
    let g := g.setPattern name.id term
    let (formals, g) := memberFormals rest g
    (.mk (some name.name) term :: formals, g)
  | _ :: rest, g => memberFormals rest g

/-- Gives terms to the cases of an enumeration: a case with associated values is a function. -/
def typeCases (enumeration : Term) : List EnumerationCase → Generator → Generator
  | [], g => g
  | .placeholder _ :: rest, g => typeCases enumeration rest g
  | .case _ name [] :: rest, g => typeCases enumeration rest (g.setPattern name.id enumeration)
  | .case _ name (form :: forms) :: rest, g =>
    let (terms, g) := typeTerms (form :: forms) g
    typeCases enumeration rest
      (g.setPattern name.id (.fn (terms.map (Formal.mk none)) enumeration))

/-- Whether a variable is typed: it has a type that is not left open, and an initializer. -/
def isTypedVariable : Option TypeForm → Option Expression → Bool
  | some form, some _ => !form.isPlaceholder
  | _, _ => false

/-- The first visit of a declaration. Variables that are not typed, and the parts of records and
enumerations, are not walked. -/
def enterDeclaration (declaration : Declaration) (control : Control) (g : Generator) :
    Control × Generator :=
  match declaration with
  | .function _ name result _ parameters _ =>
    let (_, g) := g.pushGenerics declaration
    let (formals, g) := parameterFormals parameters g
    let (result, g) := typeTerm result g
    let g := { g with results := result :: g.results }
    ({ control with needsRevisit := true }, g.setPattern name.id (.fn formals result))
  | .record _ name _ declarations =>
    let (generics, g) := g.pushGenerics declaration
    let (formals, g) := memberFormals declarations g
    ({ control with ignoreChildren := true, needsRevisit := true },
      g.setPattern name.id (.fn formals (.cons name.name generics)))
  | .enumeration _ name _ cases =>
    let (generics, g) := g.pushGenerics declaration
    ({ control with ignoreChildren := true, needsRevisit := true },
      typeCases (.cons name.name generics) cases g)
  | .value _ _ form initializer =>
    if isTypedVariable form initializer then ({ control with needsRevisit := true }, g)
    else ({ control with ignoreChildren := true }, g)
  | .space _ _ _ | .library _ _ | .placeholder _ => (control, g)

/-- The second visit of a declaration. -/
def leaveDeclaration (declaration : Declaration) (g : Generator) : Generator :=
  match declaration with
  | .function _ _ _ _ _ _ => { g.popGenerics with results := g.results.tail }
  | .record _ _ _ _ | .enumeration _ _ _ _ => g.popGenerics
  | .value _ name (some form) (some initializer) =>
    let (declared, g) := typeTerm form g
    (g.setPattern name.id declared).constrainKnown (some declared) (g.nodeTerm initializer.id)
  | _ => g

/-! ## Statements -/

/-- The second visit of a statement. -/
def leaveStatement (statement : Statement) (g : Generator) : Generator :=
  match statement with
  | .branch _ condition _ => g.constrainKnown (g.nodeTerm condition.id) (some .boolean)
  | .loop _ pattern iterated _ =>
    g.constrainKnown (g.nodeTerm iterated.id) ((g.patternTerm pattern.id).map .array)
  | .result _ expression => g.constrainKnown g.results.head? (g.nodeTerm expression.id)
  | .declaration _ _ | .expression _ _ | .placeholder _ => g

/-! ## Expressions -/

/-- The term at a use: the term of the pattern that is referred to, with fresh variables for its
generic parameters, or else a fresh variable. -/
def useTerm (id : NodeId) (g : Generator) : Term × Generator :=
  match (g.scope.patternFor id).bind g.patternTerm with
  | some term =>
    let (term, names) := term.instantiate g.names
    (term, { g with names })
  | none => g.freshEvar

/-- Gives a use its term. -/
def typeUse (id : NodeId) (g : Generator) : Generator :=
  let (term, g) := g.useTerm id
  g.setNode id term

/-- The first visit of an expression. -/
def enterExpression (expression : Expression) (control : Control) (g : Generator) :
    Control × Generator :=
  match expression with
  | .identifier id _ => ({ control with ignoreChildren := true }, g.typeUse id)
  | .member id base name =>
    let isPath := (Expression.member id base name).memberPath.isSome
    ({ control with ignoreChildren := isPath }, g.typeUse id)
  | .placeholder id =>
    let (term, g) := g.freshEvar
    (control, g.setNode id term)
  | .binary _ _ _ _ | .call _ _ _ | .literal _ _ => ({ control with needsRevisit := true }, g)

/-- The argument that an argument of a call is passed to: the first one with its label, or without a
label the one at its position. -/
def formalFor (formals : List Formal) (position : Nat) : Option String → Option Formal
  | some label => formals.find? fun formal => formal.label = some label
  | none => formals[position]?

/-- Constrains the arguments of a call from a position on. -/
def constrainArguments (formals : List Formal) : Nat → List Argument → Generator → Generator
  | _, [], g => g
  | position, .placeholder _ :: rest, g => constrainArguments formals (position + 1) rest g
  | position, .argument _ label expression :: rest, g =>
    let expected := (formalFor formals position label).map Formal.type
    constrainArguments formals (position + 1) rest
      (g.constrainKnown expected (g.nodeTerm expression.id))

/-- Types a call whose parts are done. -/
def typeCall (id : NodeId) (callee : Expression) (arguments : List Argument) (g : Generator) :
    Generator :=
  match g.nodeTerm callee.id with
  | some (.fn formals result) => (constrainArguments formals 0 arguments g).setNode id result
  | other => g.report (.notAFunction id other)

/-- Constrains the items of an array. -/
def constrainItems (element : Term) : List Expression → Generator → Generator
  | [], g => g
  | item :: rest, g =>
    constrainItems element rest (g.constrainKnown (some element) (g.nodeTerm item.id))

/-- The term of a literal; the elements of an array have one type. -/
def literalTerm (literal : Literal) (g : Generator) : Term × Generator :=
  match literal with
  | .none _ => (.unit, g)
  | .boolean _ _ => (.boolean, g)
  | .number _ _ => (.number, g)
  | .string _ _ => (.string, g)
  | .color _ _ => (.color, g)
  | .array _ items =>
    let (element, g) := g.freshEvar
    (.array element, constrainItems element items g)

/-- The second visit of an expression. An assignment has no term. -/
def leaveExpression (expression : Expression) (g : Generator) : Generator :=
  match expression with
  | .call id callee arguments => g.typeCall id callee arguments
  | .binary id left right operator =>
    if operator.isComparison then
      (g.constrainKnown (g.nodeTerm left.id) (g.nodeTerm right.id)).setNode id .boolean
    else g
  | .literal id literal =>
    let (term, g) := g.literalTerm literal
    (g.setNode literal.id term).setNode id term
  | .identifier _ _ | .member _ _ _ | .placeholder _ => g

/-! ## The walk -/

/-- The first visit of a node. -/
def enter (node : Node) (control : Control) (g : Generator) : Control × Generator :=
  match node with
  | .declaration declaration => g.enterDeclaration declaration control
  | .statement (.loop _ pattern _ _) =>
    let (element, g) := g.freshEvar
    ({ control with needsRevisit := true }, g.setPattern pattern.id element)
  | .statement (.branch _ _ _) | .statement (.result _ _) =>
    ({ control with needsRevisit := true }, g)
  | .parameter (.parameter _ _ _ _ (some _)) => ({ control with needsRevisit := true }, g)
  | .expression expression => g.enterExpression expression control
  | .typeForm _ => ({ control with ignoreChildren := true }, g)
  | _ => (control, g)

/-- The second visit of a node. -/
def leave (node : Node) (g : Generator) : Generator :=
  match node with
  | .declaration declaration => g.leaveDeclaration declaration
  | .statement statement => g.leaveStatement statement
  | .parameter (.parameter _ _ localName _ (some defaultValue)) =>
    g.constrainKnown (g.patternTerm localName.id) (g.nodeTerm defaultValue.id)
  | .expression expression => g.leaveExpression expression
  | _ => g

/-- The visitor of the walk. -/
def visit : Visitor Generator := fun node control g =>
  if control.isRevisit then (control, g.leave node) else g.enter node control

end Generator

/-- Infers the terms and constraints of a program whose names are resolved. -/
def Program.infer (program : Program) (scope : Scope) : Inference :=
  (program.walk Generator.visit { scope }).inference

end TreeLang
