import TreeLang.Proofs.Tree.Drawing
import TreeLang.Tree.Script

/-!
# What the steps of a build script use and make

A step that is carried out finds its operands on the workbench. What it makes has the ids of these
pieces, and those that the step draws from the supply.
-/

namespace TreeLang

open Build (Makes Draws)

/-- The tree of a piece. -/
def Piece.outline : Piece → Outline
  | .typeForm a => a.outline
  | .expression e => e.outline
  | .parameter p => p.outline
  | .case c => c.outline
  | .declaration d => d.outline
  | .statement s => s.outline
  | .program p => p.outline

/-- The ids in what a step makes. -/
def Product.ids : Product → List NodeId
  | .id made => [made]
  | .pattern p => p.outline.ids
  | .identifier i => i.outline.ids
  | .piece p => p.outline.ids

/-- The places of the pieces that a literal is made from. -/
def LiteralShape.operands : LiteralShape → List Nat
  | .array items => items
  | .none | .boolean _ | .number _ | .string _ | .color _ => []

namespace BuildStep

/-- The places of the pieces that a step uses. -/
def operands : BuildStep → List Nat
  | .typeNamed _ arguments => arguments
  | .functionType parameters result => result :: parameters
  | .literal shape => shape.operands
  | .memberOf base _ => [base]
  | .call callee arguments => callee :: arguments.map Prod.snd
  | .binary left _ right => [left, right]
  | .variable _ typeForm initializer => typeForm.toList ++ initializer.toList
  | .parameter _ _ typeForm => [typeForm]
  | .function _ _ parameters result block => result :: (parameters ++ block)
  | .record _ _ declarations | .space _ declarations => declarations
  | .case _ types => types
  | .enumeration _ _ cases => cases
  | .declaration content => [content]
  | .branch condition block => condition :: block
  | .forEach _ iterated block => iterated :: block
  | .expressionStatement expression | .resultStatement expression => [expression]
  | .program block => block
  | .fresh | .pattern _ | .identifier _ | .placeholderIdentifier | .typePlaceholder | .ident _
  | .placeholderIdent | .member _ | .expressionPlaceholder | .library _ => []

/-- How many ids a step draws. -/
def allocations : BuildStep → Nat
  | .typeNamed _ _ | .literal _ | .ident _ | .placeholderIdent | .memberOf _ _ | .variable _ _ _
  | .parameter _ _ _ | .case _ _ | .space _ _ | .library _ | .forEach _ _ _ => 2
  | .member path => max 1 (2 * path.length)
  | .call _ arguments => arguments.length + 1
  | .function _ generics _ _ _ | .record _ generics _ | .enumeration _ generics _ =>
    2 * generics.length + 2
  | .fresh | .pattern _ | .identifier _ | .placeholderIdentifier | .functionType _ _
  | .typePlaceholder | .binary _ _ _ | .expressionPlaceholder | .declaration _ | .branch _ _
  | .expressionStatement _ | .resultStatement _ | .program _ => 1

end BuildStep

namespace Workbench

variable {α : Type} {bench : Workbench} {place : Nat} {places : List Nat}

/-- At a place there is a piece with an outline. -/
def Holds (bench : Workbench) (place : Nat) (outline : Outline) : Prop :=
  ∃ piece, bench.piece? place = some piece ∧ piece.outline = outline

/-- At some places there are pieces with some outlines. -/
def Supplies (bench : Workbench) : List Nat → List Outline → Prop := List.Forall₂ bench.Holds

/-- A type that is found on the bench stands there with its outline. -/
theorem holds_typeForm {a : TypeForm} (h : bench.typeForm? place = some a) :
    bench.Holds place a.outline := by
  unfold typeForm? at h
  split at h
  · next found => exact ⟨_, found, congrArg TypeForm.outline (Option.some.inj h)⟩
  · cases h

/-- An expression that is found on the bench stands there with its outline. -/
theorem holds_expression {e : Expression} (h : bench.expression? place = some e) :
    bench.Holds place e.outline := by
  unfold expression? at h
  split at h
  · next found => exact ⟨_, found, congrArg Expression.outline (Option.some.inj h)⟩
  · cases h

/-- A parameter that is found on the bench stands there with its outline. -/
theorem holds_parameter {p : Parameter} (h : bench.parameter? place = some p) :
    bench.Holds place p.outline := by
  unfold parameter? at h
  split at h
  · next found => exact ⟨_, found, congrArg Parameter.outline (Option.some.inj h)⟩
  · cases h

/-- A case that is found on the bench stands there with its outline. -/
theorem holds_case {c : EnumerationCase} (h : bench.case? place = some c) :
    bench.Holds place c.outline := by
  unfold case? at h
  split at h
  · next found => exact ⟨_, found, congrArg EnumerationCase.outline (Option.some.inj h)⟩
  · cases h

/-- A declaration that is found on the bench stands there with its outline. -/
theorem holds_declaration {d : Declaration} (h : bench.declaration? place = some d) :
    bench.Holds place d.outline := by
  unfold declaration? at h
  split at h
  · next found => exact ⟨_, found, congrArg Declaration.outline (Option.some.inj h)⟩
  · cases h

/-- A statement that is found on the bench stands there with its outline. -/
theorem holds_statement {s : Statement} (h : bench.statement? place = some s) :
    bench.Holds place s.outline := by
  unfold statement? at h
  split at h
  · next found => exact ⟨_, found, congrArg Statement.outline (Option.some.inj h)⟩
  · cases h

/-- What is taken from the members of a list is taken from one member after the other. -/
theorem forall₂_of_mapM_eq_some {β : Type} {get : β → Option α} {list : List β} {taken : List α}
    (h : list.mapM get = some taken) : List.Forall₂ (fun b a => get b = some a) list taken := by
  induction list generalizing taken with
  | nil =>
    cases h
    exact .nil
  | cons b rest ih =>
    rw [List.mapM_cons] at h
    obtain ⟨a, ha, h⟩ := Option.bind_eq_some_iff.1 h
    obtain ⟨as, has, h⟩ := Option.bind_eq_some_iff.1 h
    cases h
    exact .cons ha (ih has)

section Getting

variable {get : Nat → Option α} {outline : α → Outline}

/-- What is taken from some places one after the other is supplied by them. -/
theorem supplies_mapM (hget : ∀ {place a}, get place = some a → bench.Holds place (outline a))
    {taken : List α} (h : places.mapM get = some taken) :
    bench.Supplies places (taken.map outline) := by
  rw [Supplies, List.forall₂_map_right_iff]
  exact (forall₂_of_mapM_eq_some h).imp fun _ _ => hget

/-- A place that may be missing supplies what is found there. -/
theorem supplies_optional (hget : ∀ {place a}, get place = some a → bench.Holds place (outline a))
    {place : Option Nat} {taken : Option α} (h : optional? get place = some taken) :
    bench.Supplies place.toList (taken.map outline).toList := by
  cases place with
  | none =>
    cases h
    exact .nil
  | some place =>
    obtain ⟨a, ha, rfl⟩ := Option.map_eq_some_iff.1 h
    exact .cons (hget ha) .nil

end Getting

/-- The places of arguments supply their expressions, whatever the labels. -/
theorem supplies_arguments {given : List (Option String × Nat)}
    {taken : List (Option String × Expression)}
    (h : given.mapM (fun (label, place) => (bench.expression? place).map (label, ·)) =
      some taken) :
    bench.Supplies (given.map Prod.snd) (taken.map (·.2.outline)) := by
  rw [Supplies, List.forall₂_map_left_iff, List.forall₂_map_right_iff]
  refine (forall₂_of_mapM_eq_some h).imp fun argument found hfound => ?_
  obtain ⟨e, he, rfl⟩ := Option.map_eq_some_iff.1 hfound
  exact holds_expression he

/-- Places one after the other supply what each list of them supplies. -/
theorem Supplies.append {places' : List Nat} {given given' : List Outline}
    (h : bench.Supplies places given) (h' : bench.Supplies places' given') :
    bench.Supplies (places ++ places') (given ++ given') := List.rel_append h h'

/-- Places at which types are found supply these. -/
theorem supplies_typeForms {forms : List TypeForm} (h : places.mapM bench.typeForm? = some forms) :
    bench.Supplies places (TypeForm.outlines forms) := by
  rw [TypeForm.outlines_eq_map]
  exact supplies_mapM holds_typeForm h

/-- Places at which expressions are found supply these. -/
theorem supplies_expressions {items : List Expression}
    (h : places.mapM bench.expression? = some items) :
    bench.Supplies places (Expression.outlines items) := by
  rw [Expression.outlines_eq_map]
  exact supplies_mapM holds_expression h

/-- Places at which declarations are found supply these. -/
theorem supplies_declarations {declarations : List Declaration}
    (h : places.mapM bench.declaration? = some declarations) :
    bench.Supplies places (Declaration.outlines declarations) := by
  rw [Declaration.outlines_eq_map]
  exact supplies_mapM holds_declaration h

/-- Places at which statements are found supply a block of these. -/
theorem supplies_block {block : List Statement}
    (h : places.mapM bench.statement? = some block) :
    bench.Supplies places (Statement.outlines block) := by
  rw [Statement.outlines_eq_map]
  exact supplies_mapM holds_statement h

/-- A single place supplies what it holds. -/
theorem supplies_one {outline : Outline} (h : bench.Holds place outline) :
    bench.Supplies [place] [outline] := .cons h .nil

/-- What is made of a tree has its ids. -/
theorem draws_product {f : α → Product} {build : Build α} {outline : α → Outline} {count : Nat}
    {given : List Outline} (h : Makes build count (fun a => [outline a]) given)
    (hf : ∀ a, (f a).ids = (outline a).ids) :
    Draws (f <$> build) count Product.ids (given.flatMap Outline.ids) where
  supply_eq := h.supply_eq
  ids_perm ids := by
    have hids := h.ids_perm ids
    rw [List.flatMap_singleton, ← hf] at hids
    exact hids

/-- A literal is made from the items of an array, or from nothing. -/
theorem literal?_spec {shape : LiteralShape} {make : NodeId → Literal}
    (h : bench.literal? shape = some make) :
    ∃ given, bench.Supplies shape.operands given ∧
      Makes (Build.literal make) 2 (fun e => [e.outline]) given := by
  cases shape with
  | array items =>
    obtain ⟨expressions, hexpressions, rfl⟩ := Option.map_eq_some_iff.1 h
    exact ⟨_, supplies_expressions hexpressions,
      Build.makes_literal (fun _ => rfl) (fun _ => rfl)⟩
  | none | boolean | number | string | color =>
    cases h
    exact ⟨_, .nil, Build.makes_literal (fun _ => rfl) (fun _ => rfl)⟩

/-- A step that is carried out finds its operands, and makes what it makes from them and from the
ids that it draws. -/
theorem plan?_spec {step : BuildStep} {build : Build Product} (h : bench.plan? step = some build) :
    ∃ given, bench.Supplies step.operands given ∧
      Draws build step.allocations Product.ids (given.flatMap Outline.ids) := by
  cases step with
  -- An id, a pattern or an identifier is made from nothing.
  | fresh =>
    cases h
    exact ⟨_, .nil, fun _ => rfl, fun _ => .refl _⟩
  | pattern name =>
    cases h
    exact ⟨_, .nil, draws_product (Build.makes_pattern name) fun _ => rfl⟩
  | identifier name =>
    cases h
    exact ⟨_, .nil, draws_product (Build.makes_identifier name) fun _ => rfl⟩
  | placeholderIdentifier =>
    cases h
    exact ⟨_, .nil, draws_product Build.makes_placeholderIdentifier fun _ => rfl⟩
  -- Each other step gets its operands, in an order that may differ from that of their places, and
  -- then makes its piece as `Build` does.
  | typeNamed name arguments =>
    obtain ⟨forms, hforms, h⟩ := Option.bind_eq_some_iff.1 h
    cases h
    exact ⟨_, supplies_typeForms hforms,
      draws_product (Build.makes_typeNamed name forms) fun _ => rfl⟩
  | functionType parameters result =>
    obtain ⟨forms, hforms, h⟩ := Option.bind_eq_some_iff.1 h
    obtain ⟨form, hform, h⟩ := Option.bind_eq_some_iff.1 h
    cases h
    exact ⟨_, .cons (holds_typeForm hform) (supplies_typeForms hforms),
      draws_product (Build.makes_functionType forms form) fun _ => rfl⟩
  | typePlaceholder =>
    cases h
    exact ⟨_, .nil, draws_product Build.makes_typePlaceholder fun _ => rfl⟩
  | literal shape =>
    obtain ⟨make, hmake, h⟩ := Option.bind_eq_some_iff.1 h
    obtain ⟨given, hgiven, hmakes⟩ := literal?_spec hmake
    cases h
    exact ⟨_, hgiven, draws_product hmakes fun _ => rfl⟩
  | ident name =>
    cases h
    exact ⟨_, .nil, draws_product (Build.makes_ident name) fun _ => rfl⟩
  | placeholderIdent =>
    cases h
    exact ⟨_, .nil, draws_product Build.makes_placeholderIdent fun _ => rfl⟩
  | member path =>
    cases h
    exact ⟨_, .nil, draws_product (Build.makes_member path) fun _ => rfl⟩
  | memberOf base name =>
    obtain ⟨base, hbase, h⟩ := Option.bind_eq_some_iff.1 h
    cases h
    exact ⟨_, supplies_one (holds_expression hbase),
      draws_product (Build.makes_memberOf base name) fun _ => rfl⟩
  | call callee given =>
    obtain ⟨callee, hcallee, h⟩ := Option.bind_eq_some_iff.1 h
    obtain ⟨arguments, harguments, h⟩ := Option.bind_eq_some_iff.1 h
    -- an id is drawn for each argument, and as many are found as places are given
    have hlength := (forall₂_of_mapM_eq_some harguments).length_eq
    cases h
    refine ⟨_, .cons (holds_expression hcallee) (supplies_arguments harguments), ?_⟩
    rw [BuildStep.allocations, hlength]
    exact draws_product (Build.makes_call callee arguments) fun _ => rfl
  | binary left operator right =>
    obtain ⟨left, hleft, h⟩ := Option.bind_eq_some_iff.1 h
    obtain ⟨right, hright, h⟩ := Option.bind_eq_some_iff.1 h
    cases h
    exact ⟨_, .cons (holds_expression hleft) (supplies_one (holds_expression hright)),
      draws_product (Build.makes_binary left operator right) fun _ => rfl⟩
  | expressionPlaceholder =>
    cases h
    exact ⟨_, .nil, draws_product Build.makes_expressionPlaceholder fun _ => rfl⟩
  | «variable» name typeForm initializer =>
    obtain ⟨form, hform, h⟩ := Option.bind_eq_some_iff.1 h
    obtain ⟨initial, hinitial, h⟩ := Option.bind_eq_some_iff.1 h
    -- the type and the initializer may both be missing
    cases h
    exact ⟨_, (supplies_optional holds_typeForm hform).append
      (supplies_optional holds_expression hinitial),
      draws_product (Build.makes_variableNamed name form initial) fun _ => rfl⟩
  | parameter label name typeForm =>
    obtain ⟨form, hform, h⟩ := Option.bind_eq_some_iff.1 h
    cases h
    exact ⟨_, supplies_one (holds_typeForm hform),
      draws_product (Build.makes_parameter label name form) fun _ => rfl⟩
  | function name generics parameters result block =>
    obtain ⟨parameters, hparameters, h⟩ := Option.bind_eq_some_iff.1 h
    obtain ⟨form, hform, h⟩ := Option.bind_eq_some_iff.1 h
    obtain ⟨block, hblock, h⟩ := Option.bind_eq_some_iff.1 h
    cases h
    exact ⟨_, .cons (holds_typeForm hform)
      ((supplies_mapM holds_parameter hparameters).append (supplies_block hblock)),
      draws_product (Build.makes_function name generics parameters form block) fun _ => rfl⟩
  | record name generics declarations =>
    obtain ⟨declarations, hdeclarations, h⟩ := Option.bind_eq_some_iff.1 h
    cases h
    exact ⟨_, supplies_declarations hdeclarations,
      draws_product (Build.makes_record name generics declarations) fun _ => rfl⟩
  | case name types =>
    obtain ⟨forms, hforms, h⟩ := Option.bind_eq_some_iff.1 h
    cases h
    exact ⟨_, supplies_typeForms hforms,
      draws_product (Build.makes_case name forms) fun _ => rfl⟩
  | enumeration name generics cases =>
    obtain ⟨made, hmade, h⟩ := Option.bind_eq_some_iff.1 h
    cases h
    exact ⟨_, supplies_mapM holds_case hmade,
      draws_product (Build.makes_enumeration name generics made) fun _ => rfl⟩
  | space name declarations =>
    obtain ⟨declarations, hdeclarations, h⟩ := Option.bind_eq_some_iff.1 h
    cases h
    exact ⟨_, supplies_declarations hdeclarations,
      draws_product (Build.makes_space name declarations) fun _ => rfl⟩
  | library name =>
    cases h
    exact ⟨_, .nil, draws_product (Build.makes_library name) fun _ => rfl⟩
  | declaration content =>
    obtain ⟨content, hcontent, h⟩ := Option.bind_eq_some_iff.1 h
    cases h
    exact ⟨_, supplies_one (holds_declaration hcontent),
      draws_product (Build.makes_declaration content) fun _ => rfl⟩
  | branch condition block =>
    obtain ⟨condition, hcondition, h⟩ := Option.bind_eq_some_iff.1 h
    obtain ⟨block, hblock, h⟩ := Option.bind_eq_some_iff.1 h
    cases h
    exact ⟨_, .cons (holds_expression hcondition) (supplies_block hblock),
      draws_product (Build.makes_branch condition block) fun _ => rfl⟩
  | forEach name iterated block =>
    obtain ⟨iterated, hiterated, h⟩ := Option.bind_eq_some_iff.1 h
    obtain ⟨block, hblock, h⟩ := Option.bind_eq_some_iff.1 h
    cases h
    exact ⟨_, .cons (holds_expression hiterated) (supplies_block hblock),
      draws_product (Build.makes_forEach name iterated block) fun _ => rfl⟩
  | expressionStatement expression =>
    obtain ⟨expression, hexpression, h⟩ := Option.bind_eq_some_iff.1 h
    cases h
    exact ⟨_, supplies_one (holds_expression hexpression),
      draws_product (Build.makes_expressionStatement expression) fun _ => rfl⟩
  | resultStatement expression =>
    obtain ⟨expression, hexpression, h⟩ := Option.bind_eq_some_iff.1 h
    cases h
    exact ⟨_, supplies_one (holds_expression hexpression),
      draws_product (Build.makes_resultStatement expression) fun _ => rfl⟩
  | program block =>
    obtain ⟨block, hblock, h⟩ := Option.bind_eq_some_iff.1 h
    cases h
    exact ⟨_, supplies_block hblock,
      draws_product (Build.makes_program block) fun _ => rfl⟩

end Workbench

end TreeLang
