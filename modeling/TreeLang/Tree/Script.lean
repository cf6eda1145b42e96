import TreeLang.Tree.Builder

/-!
# Build scripts

A build script makes trees step by step. A step names earlier results by their place in the script,
so a tree is put together from pieces that stay at hand. A step whose operands are not there, or are
of another sort, does nothing.
-/

namespace TreeLang

/-- A result that a later step can use. -/
inductive Piece where
  | typeForm (typeForm : TypeForm)
  | expression (expression : Expression)
  | parameter (parameter : Parameter)
  | case (case : EnumerationCase)
  | declaration (declaration : Declaration)
  | statement (statement : Statement)
  | program (program : Program)

/-- A literal to be made, without its id; the items of an array are places of the script. -/
inductive LiteralShape where
  | none
  | boolean (value : Bool)
  | number (value : Float)
  | string (value : String)
  | color (value : String)
  | array (items : List Nat)

/-- A step of a script; operands are places of earlier steps. -/
inductive BuildStep where
  | fresh
  | pattern (name : String)
  | identifier (name : String)
  | placeholderIdentifier
  | typeNamed (name : String) (arguments : List Nat)
  | functionType (parameters : List Nat) (result : Nat)
  | typePlaceholder
  | literal (shape : LiteralShape)
  | ident (name : String)
  | placeholderIdent
  | member (path : List String)
  | memberOf (base : Nat) (name : String)
  | call (callee : Nat) (arguments : List (Option String × Nat))
  | binary (left : Nat) (operator : Operator) (right : Nat)
  | expressionPlaceholder
  | variable (name : String) (typeForm initializer : Option Nat)
  | parameter (label : Option String) (name : String) (typeForm : Nat)
  | function (name : String) (generics : List String) (parameters : List Nat) (result : Nat)
      (block : List Nat)
  | record (name : String) (generics : List String) (declarations : List Nat)
  | case (name : String) (types : List Nat)
  | enumeration (name : String) (generics : List String) (cases : List Nat)
  | space (name : String) (declarations : List Nat)
  | library (name : String)
  | declaration (content : Nat)
  | branch (condition : Nat) (block : List Nat)
  | forEach (name : String) (iterated : Nat) (block : List Nat)
  | expressionStatement (expression : Nat)
  | resultStatement (expression : Nat)
  | program (block : List Nat)

/-- What a step makes. -/
inductive Product where
  | id (id : NodeId)
  | pattern (pattern : Pattern)
  | identifier (identifier : Identifier)
  | piece (piece : Piece)

/-- The piece in a product. -/
def Product.piece? : Product → Option Piece
  | .piece made => some made
  | _ => none

/-- The pieces made so far, one place for each step, and the supply of ids. -/
structure Workbench where
  ids : IdSupply
  pieces : List (Option Piece) := []

namespace Workbench

/-- The piece at a place. -/
def piece? (bench : Workbench) (place : Nat) : Option Piece := (bench.pieces[place]?).join

/-- The type at a place. -/
def typeForm? (bench : Workbench) (place : Nat) : Option TypeForm :=
  match bench.piece? place with
  | some (.typeForm a) => some a
  | _ => none

/-- The expression at a place. -/
def expression? (bench : Workbench) (place : Nat) : Option Expression :=
  match bench.piece? place with
  | some (.expression e) => some e
  | _ => none

/-- The parameter at a place. -/
def parameter? (bench : Workbench) (place : Nat) : Option Parameter :=
  match bench.piece? place with
  | some (.parameter p) => some p
  | _ => none

/-- The case at a place. -/
def case? (bench : Workbench) (place : Nat) : Option EnumerationCase :=
  match bench.piece? place with
  | some (.case c) => some c
  | _ => none

/-- The declaration at a place. -/
def declaration? (bench : Workbench) (place : Nat) : Option Declaration :=
  match bench.piece? place with
  | some (.declaration d) => some d
  | _ => none

/-- The statement at a place. -/
def statement? (bench : Workbench) (place : Nat) : Option Statement :=
  match bench.piece? place with
  | some (.statement s) => some s
  | _ => none

/-- The program at a place. -/
def program? (bench : Workbench) (place : Nat) : Option Program :=
  match bench.piece? place with
  | some (.program p) => some p
  | _ => none

/-- The optional piece at an optional place: an absent place gives none, a wrong one fails. -/
def optional? (get : Nat → Option α) : Option Nat → Option (Option α)
  | none => some none
  | some place => (get place).map some

/-- A computation that makes a piece. -/
def making (wrap : α → Piece) (build : Build α) : Build Product :=
  (fun a => Product.piece (wrap a)) <$> build

/-- The literal that a shape describes, still without its id. -/
def literal? (bench : Workbench) : LiteralShape → Option (NodeId → Literal)
  | .none => some .none
  | .boolean value => some (.boolean · value)
  | .number value => some (.number · value)
  | .string value => some (.string · value)
  | .color value => some (.color · value)
  | .array items => (items.mapM bench.expression?).map fun items => (.array · items)

/-- The computation of a step, when all its operands are there. -/
def plan? (bench : Workbench) : BuildStep → Option (Build Product)
  | .fresh => some (Product.id <$> Build.fresh)
  | .pattern name => some (Product.pattern <$> Build.pattern name)
  | .identifier name => some (Product.identifier <$> Build.identifier name)
  | .placeholderIdentifier => some (Product.identifier <$> Build.placeholderIdentifier)
  | .typeNamed name arguments => do
    let arguments ← arguments.mapM bench.typeForm?
    some (making .typeForm (Build.typeNamed name arguments))
  | .functionType parameters result => do
    let parameters ← parameters.mapM bench.typeForm?
    let result ← bench.typeForm? result
    some (making .typeForm (Build.functionType parameters result))
  | .typePlaceholder => some (making .typeForm Build.typePlaceholder)
  | .literal shape => do
    let make ← bench.literal? shape
    some (making .expression (Build.literal make))
  | .ident name => some (making .expression (Build.ident name))
  | .placeholderIdent => some (making .expression Build.placeholderIdent)
  | .member path => some (making .expression (Build.member path))
  | .memberOf base name => do
    let base ← bench.expression? base
    some (making .expression (Build.memberOf base name))
  | .call callee arguments => do
    let callee ← bench.expression? callee
    let arguments ← arguments.mapM fun (label, place) => (bench.expression? place).map (label, ·)
    some (making .expression (Build.call callee arguments))
  | .binary left operator right => do
    let left ← bench.expression? left
    let right ← bench.expression? right
    some (making .expression (Build.binary left operator right))
  | .expressionPlaceholder => some (making .expression Build.expressionPlaceholder)
  | .variable name typeForm initializer => do
    let typeForm ← optional? bench.typeForm? typeForm
    let initializer ← optional? bench.expression? initializer
    some (making .declaration (Build.variableNamed name typeForm initializer))
  | .parameter label name typeForm => do
    let typeForm ← bench.typeForm? typeForm
    some (making .parameter (Build.parameter label name typeForm))
  | .function name generics parameters result block => do
    let parameters ← parameters.mapM bench.parameter?
    let result ← bench.typeForm? result
    let block ← block.mapM bench.statement?
    some (making .declaration (Build.function name generics parameters result block))
  | .record name generics declarations => do
    let declarations ← declarations.mapM bench.declaration?
    some (making .declaration (Build.record name generics declarations))
  | .case name types => do
    let types ← types.mapM bench.typeForm?
    some (making .case (Build.case name types))
  | .enumeration name generics cases => do
    let cases ← cases.mapM bench.case?
    some (making .declaration (Build.enumeration name generics cases))
  | .space name declarations => do
    let declarations ← declarations.mapM bench.declaration?
    some (making .declaration (Build.space name declarations))
  | .library name => some (making .declaration (Build.library name))
  | .declaration content => do
    let content ← bench.declaration? content
    some (making .statement (Build.declaration content))
  | .branch condition block => do
    let condition ← bench.expression? condition
    let block ← block.mapM bench.statement?
    some (making .statement (Build.branch condition block))
  | .forEach name iterated block => do
    let iterated ← bench.expression? iterated
    let block ← block.mapM bench.statement?
    some (making .statement (Build.forEach name iterated block))
  | .expressionStatement expression => do
    let expression ← bench.expression? expression
    some (making .statement (Build.expressionStatement expression))
  | .resultStatement expression => do
    let expression ← bench.expression? expression
    some (making .statement (Build.resultStatement expression))
  | .program block => do
    let block ← block.mapM bench.statement?
    some (making .program (Build.program block))

/-- Leaves the place of a step empty. -/
def skip (bench : Workbench) : Workbench := { bench with pieces := bench.pieces ++ [none] }

/-- Runs a step, and files its piece at the next place. -/
def run (bench : Workbench) (step : BuildStep) : Option Product × Workbench :=
  match bench.plan? step with
  | none => (none, bench.skip)
  | some build =>
    let (product, ids) := build bench.ids
    (some product, { ids, pieces := bench.pieces ++ [product.piece?] })

end Workbench

end TreeLang
