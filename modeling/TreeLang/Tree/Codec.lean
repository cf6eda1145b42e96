import TreeLang.Json.Fields
import TreeLang.Tree.Edit

/-!
# The JSON form of trees

Every variant is an object that names its kind. Lists that are empty and options that are absent
need not be written, and are written by the encoder all the same. Decoders recurse on a bound for
the depth of the value, and `depth` of the value itself is always enough.
-/

namespace TreeLang

open Json

/-! ## Leaves -/

/-- Decodes a pattern. -/
def Pattern.ofJson? (json : Json) : Option Pattern := do
  let fields ← record? ["id", "name"] json
  let id ← fields.required "id" nodeId?
  let name ← fields.required "name" text?
  some { id, name }

/-- Encodes a pattern. -/
def Pattern.toJson (pattern : Pattern) : Json :=
  obj [("id", ofNodeId pattern.id), ("name", str pattern.name)]

/-- Decodes an identifier. -/
def Identifier.ofJson? (json : Json) : Option Identifier := do
  let fields ← record? ["id", "string", "is_placeholder"] json
  let id ← fields.required "id" nodeId?
  let name ← fields.required "string" text?
  let isPlaceholder ← fields.defaulted "is_placeholder" flag? false
  some { id, name, isPlaceholder }

/-- Encodes an identifier. -/
def Identifier.toJson (identifier : Identifier) : Json :=
  obj [("id", ofNodeId identifier.id), ("string", str identifier.name),
    ("is_placeholder", bool identifier.isPlaceholder)]

/-- The word for an operator. -/
def Operator.word : Operator → String
  | .isEqualTo => "isEqualTo"
  | .isNotEqualTo => "isNotEqualTo"
  | .isLessThan => "isLessThan"
  | .isGreaterThan => "isGreaterThan"
  | .isLessThanOrEqualTo => "isLessThanOrEqualTo"
  | .isGreaterThanOrEqualTo => "isGreaterThanOrEqualTo"
  | .setEqualTo => "setEqualTo"

/-- All operators. -/
def Operator.all : List Operator :=
  [.isEqualTo, .isNotEqualTo, .isLessThan, .isGreaterThan, .isLessThanOrEqualTo,
    .isGreaterThanOrEqualTo, .setEqualTo]

/-- Decodes an operator, within an expression or on its own. -/
def Operator.ofJson? (nested : Bool) (json : Json) : Option Operator :=
  (plainCase? nested json).bind fun word =>
    Operator.all.find? fun operator => operator.word = word

/-! ## Decoding -/

/-- The kinds of types. -/
def TypeForm.kinds : List Kind :=
  [("typeIdentifier", ["id", "identifier", "generic_arguments"]),
    ("functionType", ["id", "return_type", "argument_types"]),
    ("placeholder", ["id"])]

/-- Decodes a type. -/
def TypeForm.ofJsonAt? : Nat → Bool → Json → Option TypeForm
  | 0, _, _ => none
  | fuel + 1, nested, json => do
    let (kind, fields) ← variant? TypeForm.kinds nested json
    let id ← fields.required "id" nodeId?
    match kind with
    | "typeIdentifier" => do
      let identifier ← fields.required "identifier" Identifier.ofJson?
      let arguments ←
        fields.defaulted "generic_arguments" (list? (TypeForm.ofJsonAt? fuel true)) []
      some (.named id identifier arguments)
    | "functionType" => do
      let result ← fields.required "return_type" (TypeForm.ofJsonAt? fuel true)
      let parameters ←
        fields.defaulted "argument_types" (list? (TypeForm.ofJsonAt? fuel true)) []
      some (.function id result parameters)
    | _ => some (.placeholder id)

/-- The kinds of expressions. -/
def Expression.kinds : List Kind :=
  [("binary", ["id", "left", "right", "op"]),
    ("identifier", ["id", "identifier"]),
    ("functionCall", ["id", "expression", "arguments"]),
    ("literal", ["id", "literal"]),
    ("member", ["id", "expression", "member_name"]),
    ("placeholder", ["id"])]

/-- The kinds of arguments. -/
def Argument.kinds : List Kind :=
  [("argument", ["id", "label", "expression"]), ("placeholder", ["id"])]

/-- The kinds of literals. -/
def Literal.kinds : List Kind :=
  [("none", ["id"]), ("boolean", ["id", "value"]), ("number", ["id", "value"]),
    ("string", ["id", "value"]), ("color", ["id", "value"]), ("array", ["id", "value"])]

mutual

/-- Decodes an expression. -/
def Expression.ofJsonAt? : Nat → Bool → Json → Option Expression
  | 0, _, _ => none
  | fuel + 1, nested, json => do
    let (kind, fields) ← variant? Expression.kinds nested json
    let id ← fields.required "id" nodeId?
    match kind with
    | "binary" => do
      let left ← fields.required "left" (Expression.ofJsonAt? fuel true)
      let right ← fields.required "right" (Expression.ofJsonAt? fuel true)
      let operator ← fields.required "op" (Operator.ofJson? true)
      some (.binary id left right operator)
    | "identifier" => do
      let identifier ← fields.required "identifier" Identifier.ofJson?
      some (.identifier id identifier)
    | "functionCall" => do
      let callee ← fields.required "expression" (Expression.ofJsonAt? fuel true)
      let arguments ← fields.defaulted "arguments" (list? (Argument.ofJsonAt? fuel)) []
      some (.call id callee arguments)
    | "literal" => do
      let literal ← fields.required "literal" (Literal.ofJsonAt? fuel)
      some (.literal id literal)
    | "member" => do
      let base ← fields.required "expression" (Expression.ofJsonAt? fuel true)
      let name ← fields.required "member_name" Identifier.ofJson?
      some (.member id base name)
    | _ => some (.placeholder id)

/-- Decodes an argument. -/
def Argument.ofJsonAt? : Nat → Json → Option Argument
  | 0, _ => none
  | fuel + 1, json => do
    let (kind, fields) ← variant? Argument.kinds true json
    let id ← fields.required "id" nodeId?
    match kind with
    | "argument" => do
      let label ← fields.optional "label" text?
      let expression ← fields.required "expression" (Expression.ofJsonAt? fuel true)
      some (.argument id label expression)
    | _ => some (.placeholder id)

/-- Decodes a literal. -/
def Literal.ofJsonAt? : Nat → Json → Option Literal
  | 0, _ => none
  | fuel + 1, json => do
    let (kind, fields) ← variant? Literal.kinds true json
    let id ← fields.required "id" nodeId?
    match kind with
    | "boolean" => (fields.required "value" flag?).map (.boolean id)
    | "number" => (fields.required "value" number?).map (.number id)
    | "string" => (fields.required "value" text?).map (.string id)
    | "color" => (fields.required "value" text?).map (.color id)
    | "array" =>
      (fields.required "value" (list? (Expression.ofJsonAt? fuel true))).map (.array id)
    | _ => some (.none id)

end

/-- The kinds of parameters. -/
def Parameter.kinds : List Kind :=
  [("parameter", ["id", "external_name", "local_name", "annotation", "default_value"]),
    ("placeholder", ["id"])]

/-- Decodes a parameter. -/
def Parameter.ofJsonAt? (fuel : Nat) (json : Json) : Option Parameter := do
  let (kind, fields) ← variant? Parameter.kinds true json
  let id ← fields.required "id" nodeId?
  match kind with
  | "parameter" => do
    let externalName ← fields.optional "external_name" text?
    let localName ← fields.required "local_name" Pattern.ofJson?
    let typeForm ← fields.required "annotation" (TypeForm.ofJsonAt? fuel true)
    let defaultValue ← fields.optional "default_value" (Expression.ofJsonAt? fuel true)
    some (.parameter id externalName localName typeForm defaultValue)
  | _ => some (.placeholder id)

/-- The kinds of type parameters. -/
def GenericParameter.kinds : List Kind :=
  [("parameter", ["id", "name"]), ("placeholder", ["id"])]

/-- Decodes a type parameter. -/
def GenericParameter.ofJson? (json : Json) : Option GenericParameter := do
  let (kind, fields) ← variant? GenericParameter.kinds true json
  let id ← fields.required "id" nodeId?
  match kind with
  | "parameter" => (fields.required "name" Pattern.ofJson?).map (.parameter id)
  | _ => some (.placeholder id)

/-- The kinds of cases. -/
def EnumerationCase.kinds : List Kind :=
  [("case", ["id", "name", "associated_value_types"]), ("placeholder", ["id"])]

/-- Decodes a case. -/
def EnumerationCase.ofJsonAt? (fuel : Nat) (json : Json) : Option EnumerationCase := do
  let (kind, fields) ← variant? EnumerationCase.kinds true json
  let id ← fields.required "id" nodeId?
  match kind with
  | "case" => do
    let name ← fields.required "name" Pattern.ofJson?
    let associatedTypes ←
      fields.defaulted "associated_value_types" (list? (TypeForm.ofJsonAt? fuel true)) []
    some (.case id name associatedTypes)
  | _ => some (.placeholder id)

/-- The kinds of statements. -/
def Statement.kinds : List Kind :=
  [("declaration", ["id", "content"]),
    ("branch", ["id", "condition", "block"]),
    ("loop", ["id", "pattern", "expression", "block"]),
    ("expression", ["id", "expression"]),
    ("return", ["id", "expression"]),
    ("placeholder", ["id"])]

/-- The kinds of declarations. -/
def Declaration.kinds : List Kind :=
  [("variable", ["id", "name", "annotation", "initializer"]),
    ("function", ["id", "name", "return_type", "generic_parameters", "parameters", "block"]),
    ("enumeration", ["id", "name", "generic_parameters", "cases"]),
    ("record", ["id", "name", "generic_parameters", "declarations"]),
    ("namespace", ["id", "name", "declarations"]),
    ("import", ["id", "name"]),
    ("placeholder", ["id"])]

mutual

/-- Decodes a statement. -/
def Statement.ofJsonAt? : Nat → Bool → Json → Option Statement
  | 0, _, _ => none
  | fuel + 1, nested, json => do
    let (kind, fields) ← variant? Statement.kinds nested json
    let id ← fields.required "id" nodeId?
    match kind with
    | "declaration" => do
      let content ← fields.required "content" (Declaration.ofJsonAt? fuel true)
      some (.declaration id content)
    | "branch" => do
      let condition ← fields.required "condition" (Expression.ofJsonAt? fuel true)
      let block ← fields.defaulted "block" (list? (Statement.ofJsonAt? fuel true)) []
      some (.branch id condition block)
    | "loop" => do
      let pattern ← fields.required "pattern" Pattern.ofJson?
      let iterated ← fields.required "expression" (Expression.ofJsonAt? fuel true)
      let block ← fields.defaulted "block" (list? (Statement.ofJsonAt? fuel true)) []
      some (.loop id pattern iterated block)
    | "expression" => do
      let expression ← fields.required "expression" (Expression.ofJsonAt? fuel true)
      some (.expression id expression)
    | "return" => do
      let expression ← fields.required "expression" (Expression.ofJsonAt? fuel true)
      some (.result id expression)
    | _ => some (.placeholder id)

/-- Decodes a declaration. -/
def Declaration.ofJsonAt? : Nat → Bool → Json → Option Declaration
  | 0, _, _ => none
  | fuel + 1, nested, json => do
    let (kind, fields) ← variant? Declaration.kinds nested json
    let id ← fields.required "id" nodeId?
    match kind with
    | "variable" => do
      let name ← fields.required "name" Pattern.ofJson?
      let typeForm ← fields.optional "annotation" (TypeForm.ofJsonAt? fuel true)
      let initializer ← fields.optional "initializer" (Expression.ofJsonAt? fuel true)
      some (.value id name typeForm initializer)
    | "function" => do
      let name ← fields.required "name" Pattern.ofJson?
      let result ← fields.required "return_type" (TypeForm.ofJsonAt? fuel true)
      let generics ← fields.defaulted "generic_parameters" (list? GenericParameter.ofJson?) []
      let parameters ← fields.defaulted "parameters" (list? (Parameter.ofJsonAt? fuel)) []
      let block ← fields.defaulted "block" (list? (Statement.ofJsonAt? fuel true)) []
      some (.function id name result generics parameters block)
    | "enumeration" => do
      let name ← fields.required "name" Pattern.ofJson?
      let generics ← fields.defaulted "generic_parameters" (list? GenericParameter.ofJson?) []
      let cases ← fields.defaulted "cases" (list? (EnumerationCase.ofJsonAt? fuel)) []
      some (.enumeration id name generics cases)
    | "record" => do
      let name ← fields.required "name" Pattern.ofJson?
      let generics ← fields.defaulted "generic_parameters" (list? GenericParameter.ofJson?) []
      let declarations ←
        fields.defaulted "declarations" (list? (Declaration.ofJsonAt? fuel true)) []
      some (.record id name generics declarations)
    | "namespace" => do
      let name ← fields.required "name" Pattern.ofJson?
      let declarations ←
        fields.defaulted "declarations" (list? (Declaration.ofJsonAt? fuel true)) []
      some (.space id name declarations)
    | "import" => do
      let name ← fields.required "name" Pattern.ofJson?
      some (.library id name)
    | _ => some (.placeholder id)

end

/-- Decodes a type that stands alone. -/
def TypeForm.ofJson? (json : Json) : Option TypeForm :=
  TypeForm.ofJsonAt? json.depth false json

/-- Decodes an expression that stands alone. -/
def Expression.ofJson? (json : Json) : Option Expression :=
  Expression.ofJsonAt? json.depth false json

/-- Decodes a statement that stands alone. -/
def Statement.ofJson? (json : Json) : Option Statement :=
  Statement.ofJsonAt? json.depth false json

/-- Decodes a declaration that stands alone. -/
def Declaration.ofJson? (json : Json) : Option Declaration :=
  Declaration.ofJsonAt? json.depth false json

/-- Decodes a program. -/
def Program.ofJson? (json : Json) : Option Program := do
  let fields ← record? ["id", "block"] json
  let id ← fields.required "id" nodeId?
  let block ← fields.required "block" (list? (Statement.ofJsonAt? json.depth false))
  some { id, block }

/-! ## Encoding -/

/-- A variant with its kind and id before its other fields. -/
def variantJson (kind : String) (id : NodeId) (fields : List (String × Json)) : Json :=
  obj (("kind", str kind) :: ("id", ofNodeId id) :: fields)

mutual

/-- Encodes a type. -/
def TypeForm.toJson : TypeForm → Json
  | .named id identifier arguments =>
    variantJson "typeIdentifier" id
      [("identifier", identifier.toJson), ("generic_arguments", arr (TypeForm.toJsons arguments))]
  | .function id result parameters =>
    variantJson "functionType" id
      [("return_type", result.toJson), ("argument_types", arr (TypeForm.toJsons parameters))]
  | .placeholder id => variantJson "placeholder" id []

/-- Encodes a list of types. -/
def TypeForm.toJsons : List TypeForm → List Json
  | [] => []
  | typeForm :: rest => typeForm.toJson :: TypeForm.toJsons rest

end

mutual

/-- Encodes an expression. -/
def Expression.toJson : Expression → Json
  | .binary id left right operator =>
    variantJson "binary" id
      [("left", left.toJson), ("right", right.toJson), ("op", str operator.word)]
  | .identifier id used => variantJson "identifier" id [("identifier", used.toJson)]
  | .call id callee arguments =>
    variantJson "functionCall" id
      [("expression", callee.toJson), ("arguments", arr (Argument.toJsons arguments))]
  | .literal id literal => variantJson "literal" id [("literal", literal.toJson)]
  | .member id base name =>
    variantJson "member" id [("expression", base.toJson), ("member_name", name.toJson)]
  | .placeholder id => variantJson "placeholder" id []

/-- Encodes an argument. -/
def Argument.toJson : Argument → Json
  | .argument id label expression =>
    variantJson "argument" id
      [("label", Json.optional str label), ("expression", expression.toJson)]
  | .placeholder id => variantJson "placeholder" id []

/-- Encodes a literal. -/
def Literal.toJson : Literal → Json
  | .none id => variantJson "none" id []
  | .boolean id value => variantJson "boolean" id [("value", bool value)]
  | .number id value => variantJson "number" id [("value", real value)]
  | .string id value => variantJson "string" id [("value", str value)]
  | .color id value => variantJson "color" id [("value", str value)]
  | .array id items => variantJson "array" id [("value", arr (Expression.toJsons items))]

/-- Encodes a list of expressions. -/
def Expression.toJsons : List Expression → List Json
  | [] => []
  | expression :: rest => expression.toJson :: Expression.toJsons rest

/-- Encodes a list of arguments. -/
def Argument.toJsons : List Argument → List Json
  | [] => []
  | argument :: rest => argument.toJson :: Argument.toJsons rest

end

/-- Encodes a parameter. -/
def Parameter.toJson : Parameter → Json
  | .parameter id externalName localName typeForm defaultValue =>
    variantJson "parameter" id
      [("external_name", Json.optional str externalName), ("local_name", localName.toJson),
        ("annotation", typeForm.toJson),
        ("default_value", Json.optional Expression.toJson defaultValue)]
  | .placeholder id => variantJson "placeholder" id []

/-- Encodes a type parameter. -/
def GenericParameter.toJson : GenericParameter → Json
  | .parameter id name => variantJson "parameter" id [("name", name.toJson)]
  | .placeholder id => variantJson "placeholder" id []

/-- Encodes a case. -/
def EnumerationCase.toJson : EnumerationCase → Json
  | .case id name associatedTypes =>
    variantJson "case" id
      [("name", name.toJson), ("associated_value_types", arr (TypeForm.toJsons associatedTypes))]
  | .placeholder id => variantJson "placeholder" id []

mutual

/-- Encodes a statement. -/
def Statement.toJson : Statement → Json
  | .declaration id content => variantJson "declaration" id [("content", content.toJson)]
  | .branch id condition block =>
    variantJson "branch" id
      [("condition", condition.toJson), ("block", arr (Statement.toJsons block))]
  | .loop id pattern iterated block =>
    variantJson "loop" id
      [("pattern", pattern.toJson), ("expression", iterated.toJson),
        ("block", arr (Statement.toJsons block))]
  | .expression id expression =>
    variantJson "expression" id [("expression", expression.toJson)]
  | .result id expression => variantJson "return" id [("expression", expression.toJson)]
  | .placeholder id => variantJson "placeholder" id []

/-- Encodes a declaration. -/
def Declaration.toJson : Declaration → Json
  | .value id name typeForm initializer =>
    variantJson "variable" id
      [("name", name.toJson), ("annotation", Json.optional TypeForm.toJson typeForm),
        ("initializer", Json.optional Expression.toJson initializer)]
  | .function id name result generics parameters block =>
    variantJson "function" id
      [("name", name.toJson), ("return_type", result.toJson),
        ("generic_parameters", Json.list GenericParameter.toJson generics),
        ("parameters", Json.list Parameter.toJson parameters),
        ("block", arr (Statement.toJsons block))]
  | .enumeration id name generics cases =>
    variantJson "enumeration" id
      [("name", name.toJson), ("generic_parameters", Json.list GenericParameter.toJson generics),
        ("cases", Json.list EnumerationCase.toJson cases)]
  | .record id name generics declarations =>
    variantJson "record" id
      [("name", name.toJson), ("generic_parameters", Json.list GenericParameter.toJson generics),
        ("declarations", arr (Declaration.toJsons declarations))]
  | .space id name declarations =>
    variantJson "namespace" id
      [("name", name.toJson), ("declarations", arr (Declaration.toJsons declarations))]
  | .library id name => variantJson "import" id [("name", name.toJson)]
  | .placeholder id => variantJson "placeholder" id []

/-- Encodes a block. -/
def Statement.toJsons : List Statement → List Json
  | [] => []
  | statement :: rest => statement.toJson :: Statement.toJsons rest

/-- Encodes a list of declarations. -/
def Declaration.toJsons : List Declaration → List Json
  | [] => []
  | declaration :: rest => declaration.toJson :: Declaration.toJsons rest

end

/-- Encodes a program. -/
def Program.toJson (program : Program) : Json :=
  obj [("id", ofNodeId program.id), ("block", arr (Statement.toJsons program.block))]

/-- Decodes a fragment of the sort that a word names. -/
def Fragment.ofJson? (sort : String) (json : Json) : Option Fragment :=
  match sort with
  | "statement" => (Statement.ofJson? json).map .statement
  | "declaration" => (Declaration.ofJson? json).map .declaration
  | "expression" => (Expression.ofJson? json).map .expression
  | _ => none

/-- Encodes a fragment. -/
def Fragment.toJson : Fragment → Json
  | .statement inner => inner.toJson
  | .declaration inner => inner.toJson
  | .expression inner => inner.toJson

end TreeLang
