import TreeLang.Evaluation
import TreeLang.Json.Writer
import TreeLang.Value.Codec

/-!
# Reports

A report on a program has a line for every pattern and expression that has a type or a value, in the
order of the program, then the identifiers that match no declaration and the errors. A report on a
node lists the names that are visible there. Both have a form as lines and one as a JSON document.
-/

namespace TreeLang

/-- What is said about one pattern or expression. -/
structure ReportLine where
  id : NodeId
  /-- The name of a pattern. -/
  name : Option String
  type : Option Term
  value : Option Value

namespace ReportLine

/-- What is known about a node. There is nothing to say about other nodes than patterns and
expressions. -/
def ofNode? (checked : Checked) (store : Store) (node : Node) : Option ReportLine :=
  let known : Option ReportLine := match node with
    | .pattern p => some ⟨p.id, some p.name, checked.patternType p.id, store.find p.id⟩
    | .expression e => some ⟨e.id, none, checked.typeOf e.id, store.find e.id⟩
    | _ => none
  known.filter fun line => line.type.isSome || line.value.isSome

/-- The line as text. -/
def text (line : ReportLine) : String :=
  line.id.text ++ (line.name.map (" " ++ ·)).getD "" ++
    ": " ++ (line.type.map Term.text).getD "_" ++
    (line.value.map fun value => " = " ++ value.text).getD ""

/-- The line as a JSON object. -/
def toJson (line : ReportLine) : Json :=
  .obj [("id", Json.ofNodeId line.id), ("name", Json.optional .str line.name),
    ("type", Json.optional (fun type => .str type.text) line.type),
    ("value", Json.optional Value.toJson line.value)]

end ReportLine

/-- All that is said about a program. -/
structure Report where
  lines : List ReportLine
  unresolved : List NodeId
  errors : List String

namespace Report

/-- Checks and evaluates a program and reports on it. -/
def ofProgram (program : Program) : Report :=
  let checked := program.check stepLimit
  let store := program.evaluateChecked checked
  let failure := match checked.solution with
    | .failed mismatch => [mismatch.message]
    | _ => []
  { lines := program.nodes.filterMap (ReportLine.ofNode? checked store)
    unresolved := checked.scope.unresolved
    errors := failure ++ checked.inference.errors.map InferenceError.message }

/-- The report as lines of text. -/
def texts (report : Report) : List String :=
  report.lines.map ReportLine.text ++
    report.unresolved.map (fun id => "warning: unresolved identifier " ++ id.text) ++
    report.errors.map ("error: " ++ ·)

/-- The report as a JSON document. -/
def toJson (report : Report) : Json :=
  .sorted (.obj [("nodes", Json.list ReportLine.toJson report.lines),
    ("unresolved", Json.list Json.ofNodeId report.unresolved),
    ("errors", Json.strings report.errors)])

end Report

/-- The names that are visible at a node. -/
structure ScopeReport where
  target : NodeId
  reached : Bool
  values : List (String × NodeId)
  types : List (String × NodeId)

namespace ScopeReport

/-- Resolves the names of a program up to a node and reports on it. -/
def ofProgram (target : NodeId) (program : Program) : ScopeReport :=
  let scope := program.resolve (some target)
  { target, reached := scope.reachedTarget
    values := scope.values.flattened, types := scope.types.flattened }

/-- The report as lines of text. -/
def texts (report : ScopeReport) : List String :=
  (if report.reached then []
    else ["warning: target " ++ report.target.text ++ " was not reached"]) ++
    ["values: " ++ ", ".intercalate (report.values.map Prod.fst),
      "types: " ++ ", ".intercalate (report.types.map Prod.fst)]

/-- Names with the patterns that they stand for. -/
def bindings (names : List (String × NodeId)) : Json :=
  Json.list (fun (name, pattern) =>
    .obj [("name", .str name), ("pattern", Json.ofNodeId pattern)]) names

/-- The report as a JSON document. -/
def toJson (report : ScopeReport) : Json :=
  .obj [("reached", .bool report.reached), ("target", Json.ofNodeId report.target),
    ("types", bindings report.types), ("values", bindings report.values)]

end ScopeReport

end TreeLang
