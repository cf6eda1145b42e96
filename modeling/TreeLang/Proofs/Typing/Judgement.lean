import TreeLang.Proofs.Term.Agreement
import TreeLang.Proofs.Term.Assignment
import TreeLang.Proofs.Typing.Growth
import TreeLang.Typing.Check

/-!
# What it is to be well typed

A typing gives terms to expressions and patterns, and says which two terms match. `Typing.HoldsAt`
is what a node of each sort asks of it. Inference gives one typing, where two terms match when they
are constrained to be equal, and checking another one, where they match when they agree.
-/

namespace TreeLang

open Term

/-- A node, with the name of the innermost function around it. -/
structure Site where
  function : Option Pattern
  node : Node

mutual

/-- The nodes of an outline that are walked, each with the function around it. -/
def Outline.sites (function : Option Pattern) : Outline → List Site
  | .node item children =>
    ⟨function, item⟩ ::
      if item.isClosed then [] else Outline.sitesAll (item.functionName.or function) children

/-- The nodes of several outlines that are walked, one outline after the other. -/
def Outline.sitesAll (function : Option Pattern) : List Outline → List Site
  | [] => []
  | outline :: rest => outline.sites function ++ Outline.sitesAll function rest

end

/-- The nodes of a program that are walked. -/
def Program.sites (program : Program) : List Site := program.outline.sites none

/-- Terms for expressions and for patterns, and when two terms match. -/
structure Typing where
  expression : NodeId → Option Term
  pattern : NodeId → Option Term
  Matches : Term → Term → Prop

namespace Typing

/-- What a literal asks of a typing: the type of its sort, and of the items of an array that they
match its element. -/
def HoldsAtLiteral (T : Typing) (id : NodeId) : Literal → Prop
  | .none _ => T.expression id = some .unit
  | .boolean _ _ => T.expression id = some .boolean
  | .number _ _ => T.expression id = some .number
  | .string _ _ => T.expression id = some .string
  | .color _ _ => T.expression id = some .color
  | .array _ items => ∃ element, T.expression id = some (.array element) ∧
    ∀ item ∈ items, ∀ term, T.expression item.id = some term → T.Matches element term

/-- What a call asks of a typing: when it has a term, its callee is a function with that result, and
every argument with a term matches the parameter that it is passed to. -/
def HoldsAtCall (T : Typing) (id : NodeId) (callee : Expression) (arguments : List Argument) :
    Prop :=
  ∀ result, T.expression id = some result →
    ∃ formals, T.expression callee.id = some (.fn formals result) ∧
      ∀ (position : Nat) argument label (given : Expression) formal,
        arguments[position]? = some (.argument argument label given) →
        Generator.formalFor formals position label = some formal →
        ∀ term, T.expression given.id = some term → T.Matches formal.type term

/-- What a node asks of a typing. Conditions match truth values; what a function returns matches its
declared result; a variable and a parameter match what they start from; what a loop runs over
matches an array of its pattern; what is compared matches, and a comparison is a truth value. -/
def HoldsAt (T : Typing) (site : Site) : Prop :=
  match site.node with
  | .statement (.branch _ condition _) =>
    ∀ term, T.expression condition.id = some term → T.Matches term .boolean
  | .statement (.loop _ pattern iterated _) =>
    ∃ element, T.pattern pattern.id = some element ∧
      ∀ term, T.expression iterated.id = some term → T.Matches term (.array element)
  | .statement (.result _ expression) =>
    ∀ name ∈ site.function, ∃ formals result, T.pattern name.id = some (.fn formals result) ∧
      ∀ term, T.expression expression.id = some term → T.Matches result term
  | .declaration (.value _ name (some form) (some initializer)) =>
    form.isPlaceholder = false → ∃ declared, T.pattern name.id = some declared ∧
      ∀ term, T.expression initializer.id = some term → T.Matches declared term
  | .parameter (.parameter _ _ localName _ (some value)) =>
    ∃ declared, T.pattern localName.id = some declared ∧
      ∀ term, T.expression value.id = some term → T.Matches declared term
  | .expression (.binary id left right operator) =>
    operator.isComparison → T.expression id = some .boolean ∧
      ∀ a b, T.expression left.id = some a → T.expression right.id = some b → T.Matches a b
  | .expression (.call id callee arguments) => T.HoldsAtCall id callee arguments
  | .expression (.literal id literal) => T.HoldsAtLiteral id literal
  | _ => True

/-- The terms of the second typing are those of the first one under an assignment, and what matched
matches still. -/
structure Becomes (T : Typing) (θ : Assignment) (T' : Typing) : Prop where
  expression : ∀ id, T'.expression id = (T.expression id).map (assign θ)
  pattern : ∀ id, T'.pattern id = (T.pattern id).map (assign θ)
  matches_of : ∀ a b, T.Matches a b → T'.Matches (a.assign θ) (b.assign θ)

end Typing

/-- The argument of a call is passed to the same parameter under an assignment. -/
theorem Generator.formalFor_map (f : Term → Term) (formals : List Formal) (position : Nat)
    (label : Option String) :
    formalFor (formals.map (Formal.mapType f)) position label =
      (formalFor formals position label).map (Formal.mapType f) := by
  cases label with
  | none => rw [formalFor, formalFor, List.getElem?_map]
  | some label =>
    rw [formalFor, formalFor, List.find?_map]
    rfl

namespace Typing.Becomes

variable {T T' : Typing} {θ : Assignment}

/-- An expression has the assigned term in the typing that comes of another one. -/
theorem expression_eq {id : NodeId} {term : Term} (h : T.Becomes θ T')
    (hid : T.expression id = some term) : T'.expression id = some (term.assign θ) := by
  rw [h.expression, hid, Option.map_some]

/-- A pattern has the assigned term in the typing that comes of another one. -/
theorem pattern_eq {id : NodeId} {term : Term} (h : T.Becomes θ T')
    (hid : T.pattern id = some term) : T'.pattern id = some (term.assign θ) := by
  rw [h.pattern, hid, Option.map_some]

/-- Every term of an expression was one before. -/
theorem exists_of_expression_eq {id : NodeId} {term : Term} (h : T.Becomes θ T')
    (hid : T'.expression id = some term) :
    ∃ before, T.expression id = some before ∧ term = before.assign θ := by
  rw [h.expression, Option.map_eq_some_iff] at hid
  obtain ⟨before, hbefore, rfl⟩ := hid
  exact ⟨before, hbefore, rfl⟩

/-- What matches a fixed term does so afterward. -/
theorem matches_right {id : NodeId} {expected : Term} (h : T.Becomes θ T')
    (hid : ∀ term, T.expression id = some term → T.Matches expected term) :
    ∀ term, T'.expression id = some term → T'.Matches (expected.assign θ) term := by
  intro term hterm
  obtain ⟨before, hbefore, rfl⟩ := h.exists_of_expression_eq hterm
  exact h.matches_of _ _ (hid before hbefore)

/-- What a term is expected to match is assigned as well. -/
theorem matches_left {id : NodeId} {expected : Term} (h : T.Becomes θ T')
    (hid : ∀ term, T.expression id = some term → T.Matches term expected) :
    ∀ term, T'.expression id = some term → T'.Matches term (expected.assign θ) := by
  intro term hterm
  obtain ⟨before, hbefore, rfl⟩ := h.exists_of_expression_eq hterm
  exact h.matches_of _ _ (hid before hbefore)

/-- A literal that is well typed stays so. -/
theorem holdsAtLiteral (h : T.Becomes θ T') {id : NodeId} {literal : Literal}
    (hliteral : T.HoldsAtLiteral id literal) : T'.HoldsAtLiteral id literal := by
  cases literal with
  | none | boolean | number | string | color => exact h.expression_eq hliteral
  | array _ items =>
    obtain ⟨element, hid, hitems⟩ := hliteral
    refine ⟨element.assign θ, (h.expression_eq hid).trans (by rw [array, assign_cons]; rfl), ?_⟩
    exact fun item hitem => h.matches_right (hitems item hitem)

/-- A call that is well typed stays so, since its arguments are matched with the same formals. -/
theorem holdsAtCall (h : T.Becomes θ T') {id : NodeId} {callee : Expression}
    {arguments : List Argument} (hcall : T.HoldsAtCall id callee arguments) :
    T'.HoldsAtCall id callee arguments := by
  intro result hresult
  obtain ⟨before, hbefore, rfl⟩ := h.exists_of_expression_eq hresult
  obtain ⟨formals, hcallee, harguments⟩ := hcall before hbefore
  refine ⟨formals.map (Formal.mapType (assign θ)), ?_, ?_⟩
  · rw [h.expression_eq hcallee, assign_fn]
  · intro position argument label given formal hgiven hformal
    rw [Generator.formalFor_map, Option.map_eq_some_iff] at hformal
    obtain ⟨formal, hformal, rfl⟩ := hformal
    exact h.matches_right (harguments position argument label given formal hgiven hformal)

/-- What a node asks of a typing holds of what the typing becomes. -/
theorem holdsAt (h : T.Becomes θ T') {site : Site} (hsite : T.HoldsAt site) :
    T'.HoldsAt site := by
  obtain ⟨function, node⟩ := site
  -- each node asks for terms of its own kind, and these are looked up again in the new typing
  cases node with
  | statement statement =>
    cases statement with
    | branch id condition block => exact h.matches_left hsite
    | loop id pattern iterated block =>
      obtain ⟨element, hpattern, hiterated⟩ := hsite
      refine ⟨element.assign θ, h.pattern_eq hpattern, fun term hterm => ?_⟩
      have hmatches := h.matches_left hiterated term hterm
      -- an array type becomes an array type
      rwa [array, assign_cons] at hmatches
    | result id expression =>
      intro name hname
      obtain ⟨formals, result, hpattern, hresult⟩ := hsite name hname
      refine ⟨formals.map (Formal.mapType (assign θ)), result.assign θ, ?_,
        h.matches_right hresult⟩
      rw [h.pattern_eq hpattern, assign_fn]
    | declaration | expression | placeholder => trivial
  | declaration declaration =>
    cases declaration with
    | value id name form initializer =>
      cases form with
      | none => trivial
      | some form =>
        cases initializer with
        | none => trivial
        | some initializer =>
          intro hform
          obtain ⟨declared, hpattern, hinitializer⟩ := hsite hform
          exact ⟨_, h.pattern_eq hpattern, h.matches_right hinitializer⟩
    | function | enumeration | record | space | library | placeholder => trivial
  | parameter parameter =>
    cases parameter with
    | placeholder id => trivial
    | parameter id externalName localName form defaultValue =>
      cases defaultValue with
      | none => trivial
      | some value =>
        obtain ⟨declared, hpattern, hvalue⟩ := hsite
        exact ⟨_, h.pattern_eq hpattern, h.matches_right hvalue⟩
  | expression expression =>
    cases expression with
    | binary id left right operator =>
      intro hcomparison
      obtain ⟨hid, hoperands⟩ := hsite hcomparison
      refine ⟨h.expression_eq hid, fun a' b' ha' hb' => ?_⟩
      -- the operands' terms in the new typing come from terms that matched in the old one
      obtain ⟨a, ha, rfl⟩ := h.exists_of_expression_eq ha'
      obtain ⟨b, hb, rfl⟩ := h.exists_of_expression_eq hb'
      exact h.matches_of a b (hoperands a b ha hb)
    | call id callee arguments => exact h.holdsAtCall hsite
    | literal id literal => exact h.holdsAtLiteral hsite
    | identifier | member | placeholder => trivial
  | program | pattern | identifier | typeForm | literal | generic | case | argument => trivial

end Typing.Becomes

/-- The typing of inference: two terms match when they are constrained to be equal. -/
def Inference.typing (inference : Inference) : Typing where
  expression id := inference.nodeTerms.find id
  pattern id := inference.patternTerms.find id
  Matches a b := ⟨a, b⟩ ∈ inference.constraints

/-- The typing of a checked program: two terms match when they agree. -/
def Checked.typing (checked : Checked) : Typing where
  expression := checked.typeOf
  pattern := checked.patternType
  Matches := Agrees

end TreeLang
