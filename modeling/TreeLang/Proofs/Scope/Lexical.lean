import TreeLang.Library.Prelude
import TreeLang.Proofs.Tree.Outline

/-!
# Lexical scoping

Name resolution as a recursion over the syntax. What surrounds a part of a program is passed down:
the frames of the scopes around it, the path of the namespaces around it, and whether it is inside
of a function. What it declares is handed on to what follows in the same scope; of a scope that is
closed, only the declared paths are kept. The uses of names are listed in the order in which they
are written, each with what it refers to.
-/

namespace TreeLang

/-- The bindings of one scope, the latest first. -/
abbrev Bindings := List (String × NodeId)

/-- Declarations by their paths, the earliest first. -/
abbrev DeclaredPaths := List (List String × NodeId)

/-- What surrounds a part of a program. -/
structure Surroundings where
  /-- The frames around the innermost one, from the inside out. -/
  outer : List Bindings := []
  /-- The names of the namespaces around it. -/
  path : List String := []
  inFunction : Bool := false

/-- What the declarations before a part of a program have made known. -/
structure Known where
  /-- The innermost frame. -/
  frame : Bindings := []
  paths : DeclaredPaths := []

/-- An identifier, or a path of identifiers, with what it refers to. -/
structure Use where
  site : Expression
  target : Option NodeId

/-- The ids under which a use at an expression is found: an identifier has one of its own. -/
def Expression.useKeys : Expression → List NodeId
  | .identifier id used => [id, used.id]
  | site => [site.id]

namespace Use

/-- The ids under which a use is found. -/
def keys (use : Use) : List NodeId := use.site.useKeys

/-- Whether a use is an identifier that refers to nothing. -/
def isUnresolved : Use → Bool
  | ⟨.identifier _ _, none⟩ => true
  | _ => false

end Use

namespace Known

/-- The latest binding of a name in the innermost frame that has one. -/
def value? (known : Known) (outer : List Bindings) (name : String) : Option NodeId :=
  (known.frame :: outer).findSome? (List.lookup name)

/-- The first declaration at a path. -/
def declaration? (known : Known) (path : List String) : Option NodeId := known.paths.lookup path

/-- Binds a name in the innermost frame. -/
def bind (known : Known) (pattern : Pattern) : Known :=
  { known with frame := (pattern.name, pattern.id) :: known.frame }

/-- Declares a name in the namespaces around it, unless it is inside of a function. -/
def declarePath (known : Known) (within : Surroundings) (pattern : Pattern) : Known :=
  if within.inFunction then known
  else { known with paths := known.paths ++ [(within.path ++ [pattern.name], pattern.id)] }

/-- Binds a name and declares it in the namespaces around it. -/
def declare (known : Known) (within : Surroundings) (pattern : Pattern) : Known :=
  (known.bind pattern).declarePath within pattern

/-- Binds a parameter. -/
def bindParameter (known : Known) : Parameter → Known
  | .parameter _ _ localName _ _ => known.bind localName
  | .placeholder _ => known

/-- Declares a case of an enumeration. -/
def declareCase (within : Surroundings) (known : Known) : EnumerationCase → Known
  | .case _ name _ => known.declarePath within name
  | .placeholder _ => known

/-- A frame without names, inside of what is known. -/
def opened (known : Known) : Known := { known with frame := [] }

/-- What is known once a scope is closed: the frame from before, and all paths declared. -/
def closing (known inner : Known) : Known := { known with paths := inner.paths }

end Known

/-- The surroundings of a scope that is opened. -/
def Surroundings.inside (within : Surroundings) (known : Known) : Surroundings :=
  { within with outer := known.frame :: within.outer }

/-- The surroundings of what is declared in a namespace. -/
def Surroundings.below (within : Surroundings) (space : Pattern) : Surroundings :=
  { within with path := within.path ++ [space.name] }

/-! ## Uses in expressions -/

section Expressions

variable (value? : String → Option NodeId) (declaration? : List String → Option NodeId)

mutual

/-- The uses in an expression. A path of identifiers is looked up as a whole. -/
def Expression.uses : Expression → List Use
  | .binary _ left right _ => left.uses ++ right.uses
  | .identifier id used =>
    if used.isPlaceholder then [] else [⟨.identifier id used, value? used.name⟩]
  | .call _ callee arguments => callee.uses ++ Argument.usesAll arguments
  | .literal _ literal => literal.uses
  | .member id base name =>
    match (Expression.member id base name).memberPath with
    | some path => [⟨.member id base name, declaration? path⟩]
    | none => base.uses
  | .placeholder _ => []

/-- The uses in an argument. -/
def Argument.uses : Argument → List Use
  | .argument _ _ expression => expression.uses
  | .placeholder _ => []

/-- The uses in a literal. -/
def Literal.uses : Literal → List Use
  | .array _ items => Expression.usesAll items
  | .none _ | .boolean _ _ | .number _ _ | .string _ _ | .color _ _ => []

/-- The uses in a list of expressions. -/
def Expression.usesAll : List Expression → List Use
  | [] => []
  | expression :: rest => expression.uses ++ Expression.usesAll rest

/-- The uses in a list of arguments. -/
def Argument.usesAll : List Argument → List Use
  | [] => []
  | argument :: rest => argument.uses ++ Argument.usesAll rest

end

/-- The uses in the default value of a parameter. -/
def Parameter.uses : Parameter → List Use
  | .parameter _ _ _ _ (some value) => value.uses value? declaration?
  | .parameter _ _ _ _ none | .placeholder _ => []

end Expressions

/-- The uses in an expression, given what is known. -/
def Known.uses (known : Known) (within : Surroundings) (expression : Expression) : List Use :=
  expression.uses (known.value? within.outer) known.declaration?

/-! ## Scopes -/

mutual

/-- Resolves a statement: what is known after it, and the uses in it. A loop binds its pattern in a
new frame that holds for what it iterates over as well; a branch opens no frame. -/
def Statement.resolveIn : Statement → Surroundings → Known → Known × List Use
  | .declaration _ content, within, known => content.resolveIn within known
  | .branch _ condition block, within, known =>
    let (after, uses) := Statement.resolveAllIn block within known
    (after, known.uses within condition ++ uses)
  | .loop _ pattern iterated block, within, known =>
    let inner := known.opened.bind pattern
    let (after, uses) := Statement.resolveAllIn block (within.inside known) inner
    (known.closing after, inner.uses (within.inside known) iterated ++ uses)
  | .expression _ expression, within, known => (known, known.uses within expression)
  | .result _ expression, within, known => (known, known.uses within expression)
  | .placeholder _, _, known => (known, [])

/-- Resolves a declaration. A value is bound after its initializer, a function before its parameters
and its block, for which a frame is opened. A namespace opens a frame as well. A record is bound as
its constructor, unless its type is primitive, and nothing in it is resolved. -/
def Declaration.resolveIn : Declaration → Surroundings → Known → Known × List Use
  | .value _ name _ initializer, within, known =>
    (known.declare within name, (initializer.map (known.uses within)).getD [])
  | .function _ name _ _ parameters block, within, known =>
    let known := known.declare within name
    let inner := parameters.foldl Known.bindParameter known.opened
    let around := { within.inside known with inFunction := true }
    let (after, uses) := Statement.resolveAllIn block around inner
    (known.closing after,
      parameters.flatMap (Parameter.uses (inner.value? around.outer) inner.declaration?) ++ uses)
  | .enumeration _ name _ cases, within, known =>
    (cases.foldl (Known.declareCase (within.below name)) known, [])
  | .record _ name _ _, within, known =>
    (if name.name ∈ primitiveTypes then known else known.declare within name, [])
  | .space _ name declarations, within, known =>
    let around := (within.inside known).below name
    let (after, uses) := Declaration.resolveAllIn declarations around known.opened
    (known.closing after, uses)
  | .library _ _, _, known => (known, [])
  | .placeholder _, _, known => (known, [])

/-- Resolves the statements of a block, each with what those before it have made known. -/
def Statement.resolveAllIn : List Statement → Surroundings → Known → Known × List Use
  | [], _, known => (known, [])
  | statement :: rest, within, known =>
    let (next, uses) := statement.resolveIn within known
    let (after, others) := Statement.resolveAllIn rest within next
    (after, uses ++ others)

/-- Resolves declarations, each with what those before it have made known. -/
def Declaration.resolveAllIn : List Declaration → Surroundings → Known → Known × List Use
  | [], _, known => (known, [])
  | declaration :: rest, within, known =>
    let (next, uses) := declaration.resolveIn within known
    let (after, others) := Declaration.resolveAllIn rest within next
    (after, uses ++ others)

end

/-- What is known after a program, and the uses in it. -/
def Program.lexical (program : Program) : Known × List Use :=
  Statement.resolveAllIn program.block {} {}

/-! ## What is reached -/

mutual

/-- The identifiers and the paths of identifiers in an outline, in written order. Placeholders, the
insides of records and of written types, and the parts of a path are left out. -/
def Outline.mentions : Outline → List Expression
  | .node (.declaration (.record _ _ _ _)) _ => []
  | .node (.typeForm _) _ => []
  | .node (.expression (.identifier id used)) _ =>
    if used.isPlaceholder then [] else [.identifier id used]
  | .node (.expression (.member id base name)) children =>
    if (Expression.member id base name).memberPath.isSome then [.member id base name]
    else Outline.mentionsAll children
  | .node _ children => Outline.mentionsAll children

/-- The identifiers and the paths of identifiers in several outlines. -/
def Outline.mentionsAll : List Outline → List Expression
  | [] => []
  | outline :: rest => outline.mentions ++ Outline.mentionsAll rest

end

end TreeLang
