import TreeLang.Json.Fields
import TreeLang.Term.Unifier

/-!
# The JSON form of terms

Nothing of a term may be left out but the label of an argument.
-/

namespace TreeLang

open Json

/-- The kinds of terms. -/
def Term.kinds : List Kind :=
  [("evar", ["name"]), ("cons", ["name", "parameters"]), ("gen", ["name"]),
    ("fun", ["arguments", "return_type"])]

mutual

/-- Decodes a term; the bound on its depth is first. -/
def Term.ofJsonAt? : Nat → Bool → Json → Option Term
  | 0, _, _ => none
  | fuel + 1, nested, json => do
    let (kind, fields) ← variant? Term.kinds nested json
    match kind with
    | "evar" => (fields.required "name" text?).map .evar
    | "cons" => do
      let name ← fields.required "name" text?
      let parameters ← fields.required "parameters" (list? (Term.ofJsonAt? fuel true))
      some (.cons name parameters)
    | "gen" => (fields.required "name" text?).map .gen
    | _ => do
      let arguments ← fields.required "arguments" (list? (Formal.ofJsonAt? fuel))
      let result ← fields.required "return_type" (Term.ofJsonAt? fuel true)
      some (.fn arguments result)

/-- Decodes an argument of a function type. -/
def Formal.ofJsonAt? : Nat → Json → Option Formal
  | 0, _ => none
  | fuel + 1, json => do
    let fields ← record? ["label", "ty"] json
    let label ← fields.optional "label" text?
    let type ← fields.required "ty" (Term.ofJsonAt? fuel true)
    some (.mk label type)

end

/-- Decodes a term. -/
def Term.ofJson? (json : Json) : Option Term := Term.ofJsonAt? json.depth false json

mutual

/-- Encodes a term. -/
def Term.toJson : Term → Json
  | .evar name => obj [("kind", str "evar"), ("name", str name)]
  | .cons name parameters =>
    obj [("kind", str "cons"), ("name", str name), ("parameters", arr (Term.toJsons parameters))]
  | .gen name => obj [("kind", str "gen"), ("name", str name)]
  | .fn arguments result =>
    obj [("kind", str "fun"), ("arguments", arr (Formal.toJsons arguments)),
      ("return_type", result.toJson)]

/-- Encodes a list of terms. -/
def Term.toJsons : List Term → List Json
  | [] => []
  | term :: rest => term.toJson :: Term.toJsons rest

/-- Encodes the arguments of a function type. -/
def Formal.toJsons : List Formal → List Json
  | [] => []
  | .mk label type :: rest =>
    obj [("label", Json.optional str label), ("ty", type.toJson)] :: Formal.toJsons rest

end

/-- Decodes a constraint. -/
def Constraint.ofJson? (json : Json) : Option Constraint := do
  let fields ← record? ["head", "tail"] json
  let head ← fields.required "head" Term.ofJson?
  let tail ← fields.required "tail" Term.ofJson?
  some { head, tail }

/-- Encodes a constraint. -/
def Constraint.toJson (c : Constraint) : Json :=
  obj [("head", c.head.toJson), ("tail", c.tail.toJson)]

end TreeLang
