import TreeLang.Proofs.Typing.Settling

/-!
# Inference and name resolution in step

One induction over the syntax follows both walks. Before a part of a program all that is known to
name resolution is settled in the state of inference; after it, what the part has made known is
settled as well; and on the way each use finds what it refers to settled.
-/

namespace TreeLang

open Generator (visit)
open Outline (tourAll callsPreAll entered between)
open Inference (Settled Covers settled_congr)

/-- What both walks have come to after a part of a program: all that is known is settled, and the
uses are covered. -/
structure Inference.InStep (i : Inference) (calls : List (Call Generator)) (g : Generator)
    (result : Known × List Use) : Prop where
  known : result.1.All (i.Settled g)
  covers : i.Covers result.2 calls

variable {i : Inference} {g : Generator}

/-- What is settled before a loop and its pattern are settled after its first visit. -/
theorem Inference.Walk.settled_entered_loop {function : Option Pattern} {children : List Outline}
    {id : NodeId} {pattern : Pattern} {iterated : Expression} {block : List Statement}
    (w : i.Walk function (.statement (.loop id pattern iterated block)) children g)
    (target : NodeId) (h : target = pattern.id ∨ i.Settled g target) :
    i.Settled (entered (.statement (.loop id pattern iterated block)) g) target := by
  have hpattern : i.Settled (entered (.statement (.loop id pattern iterated block)) g) pattern.id :=
    w.pattern_eq rfl List.mem_cons_self fun _ => Generator.patternTerm_constrainKnown _ _ _
  rcases h with rfl | hsettled
  · exact hpattern
  · by_cases heq : target = pattern.id
    · exact heq ▸ hpattern
    · exact hsettled.trans ((Generator.patternTerm_setPattern _ _ _ _).trans (if_neg heq)).symm

/-- The initializer of a variable is walked before the variable is bound, if it is walked at all. -/
theorem Declaration.covers_value (id : NodeId) (name : Pattern) (form : Option TypeForm)
    (initializer : Option Expression) {within : Surroundings} (hwithin : within.All (i.Settled g))
    {known : Known} (hknown : known.All (i.Settled g)) :
    i.Covers ((Declaration.value id name form initializer).resolveIn within known).2
      ((Declaration.value id name form initializer).outline.callsPre visit g) := by
  refine .node nofun fun hwalked => ?_
  have hentered : entered (.declaration (.value id name form initializer)) g = g := by
    rw [entered, Generator.enter, Generator.enterDeclaration]
    split <;> rfl
  rw [hentered]
  cases form with
  | none => cases hwalked
  | some form =>
    cases initializer with
    | none => cases hwalked
    | some initializer =>
      refine .skip rfl (.skip form.mentions_outline (.single ?_))
      rw [form.tour_visit]
      exact initializer.covers (hknown.lookups hwithin)

mutual

/-- A statement is inferred in step with its resolution: what a use refers to is settled when the
use is visited. -/
theorem Statement.inStep : (statement : Statement) → {function : Option Pattern} →
    {g : Generator} → i.Walks function [statement.outline] g → {within : Surroundings} →
    within.All (i.Settled g) → {known : Known} → known.All (i.Settled g) →
    i.InStep (statement.outline.callsPre visit g) (statement.outline.tour visit g)
      (statement.resolveIn within known)
  | .declaration _ content, _, g, w, within, hwithin, known, hknown => by
    have hcontent := content.inStep (w.walk.walks_children rfl rfl) hwithin hknown
    refine ⟨hcontent.known.mono fun id h => w.walk.settled_of_between h, ?_⟩
    exact .node nofun fun _ => .single hcontent.covers
  | .branch _ condition block, _, g, w, within, hwithin, known, hknown => by
    have hcondition := settled_congr (i := i) (condition.patternTerm_tour g)
    have hchildren := w.walk.walks_children rfl rfl
    have hblock := Statement.inStepAll block hchildren.later (hcondition ▸ hwithin)
      (hcondition ▸ hknown)
    refine ⟨hblock.known.mono fun id h => w.walk.settled_of_between h, ?_⟩
    refine .node nofun fun _ => ?_
    rw [Outline.callsPreAll_cons]
    exact (condition.covers (hknown.lookups hwithin)).append hblock.covers
  | .loop id pattern iterated block, _, g, w, within, hwithin, known, hknown => by
    -- both walks know the pattern of the loop in what it runs over
    have hentered := w.walk.settled_entered_loop
    have hbefore := hknown.mono fun id h => hentered id (.inr h)
    have hinner := hbefore.opened.bind (hentered pattern.id (.inl rfl))
    have hinside := hbefore.inside (hwithin.mono fun id h => hentered id (.inr h))
    have hiterated := settled_congr (i := i) (iterated.patternTerm_tour
      (entered (.statement (.loop id pattern iterated block)) g))
    have hchildren := w.walk.walks_children rfl rfl
    have hblock := Statement.inStepAll block hchildren.later.later (hiterated ▸ hinside)
      (hiterated ▸ hinner)
    refine ⟨(hknown.mono fun id h => w.settled h).closing
      (hblock.known.mono fun id h => w.walk.settled_of_between h), ?_⟩
    refine .node nofun fun _ => .skip rfl ?_
    rw [Outline.callsPreAll_cons]
    exact (iterated.covers (hinner.lookups hinside)).append hblock.covers
  | .expression _ expression, _, g, w, within, hwithin, known, hknown
  | .result _ expression, _, g, w, within, hwithin, known, hknown => by
    refine ⟨hknown.mono fun id h => w.settled h, ?_⟩
    exact .node nofun fun _ => .single (expression.covers (hknown.lookups hwithin))
  | .placeholder _, _, g, w, within, hwithin, known, hknown => ⟨hknown, .of_mentions rfl⟩

/-- A declaration is inferred in step with its resolution. -/
theorem Declaration.inStep : (declaration : Declaration) → {function : Option Pattern} →
    {g : Generator} → i.Walks function [declaration.outline] g → {within : Surroundings} →
    within.All (i.Settled g) → {known : Known} → known.All (i.Settled g) →
    i.InStep (declaration.outline.callsPre visit g) (declaration.outline.tour visit g)
      (declaration.resolveIn within known)
  | .value id name form initializer, _, g, w, within, hwithin, known, hknown => by
    have hname := w.walk.settled_declares List.mem_cons_self
    refine ⟨(hknown.mono fun id h => w.settled h).declare within hname, ?_⟩
    exact Declaration.covers_value id name form initializer hwithin hknown
  | .function id name result generics parameters block, _, g, w, within, hwithin, known,
      hknown => by
    -- the name and the parameters have their terms from the first visit on, and the walk of the
    -- parameters changes none, so the block finds all that is known settled
    have hentered := w.walk.settled_entered_function rfl
    have hdeclared := (hknown.mono fun id h => hentered id (.inr (.inr h))).declare within
      (hentered name.id (.inl rfl))
    have hinner := hdeclared.opened.bindParameters fun _ _ _ _ _ hmem =>
      hentered _ (.inr (.inl (List.mem_flatMap.2 ⟨_, hmem, List.mem_singleton_self _⟩)))
    have haround : ({ within.inside (known.declare within name) with
        inFunction := true } : Surroundings).All _ :=
      hdeclared.inside (hwithin.mono fun id h => hentered id (.inr (.inr h)))
    have hsame := settled_congr (i := i) (Parameter.patternTerm_tourAll parameters
      (entered (.declaration (.function id name result generics parameters block)) g))
    have hblock := Statement.inStepAll block (w.walk.walks_block rfl) (hsame ▸ haround)
      (hsame ▸ hinner)
    have hpaths := hblock.known
    rw [← w.walk.between_eq rfl] at hpaths
    refine ⟨((hknown.mono fun id h => w.settled h).declare within
      (w.walk.settled_declares List.mem_cons_self)).closing
        (hpaths.mono fun id h => w.walk.settled_of_between h), ?_⟩
    refine .node nofun fun _ => .skip rfl (.skip result.mentions_outline (.skipAll
      (GenericParameter.mentionsAll_outlines generics) ?_))
    rw [GenericParameter.tourAll_visit, result.tour_visit, Outline.callsPreAll_append]
    exact (Parameter.coversAll parameters (hinner.lookups haround)).append hblock.covers
  | .enumeration _ name generics cases, _, g, w, within, hwithin, known, hknown => by
    -- the cases get terms on the first visit and are declared on the second; no use comes between
    refine ⟨(hknown.mono fun id h => w.settled h).declareCases _ fun id name forms hcase => ?_, ?_⟩
    · refine w.walk.settled_declares (List.mem_flatMap.2 ⟨_, hcase, List.mem_singleton_self _⟩)
    · exact .node nofun nofun
  | .record _ name generics declarations, _, g, w, within, hwithin, known, hknown => by
    -- neither walk looks into a record, and a primitive one declares nothing
    have hsettled := hknown.mono fun id h => w.settled h
    refine ⟨?_, .node nofun nofun⟩
    rw [Declaration.resolveIn]
    split
    · exact hsettled
    · exact hsettled.declare within (w.walk.settled_declares List.mem_cons_self)
  | .space _ name declarations, _, g, w, within, hwithin, known, hknown => by
    have hchildren := w.walk.walks_children rfl rfl
    have haround : ((within.inside known).below name).All (i.Settled g) := hknown.inside hwithin
    have hdeclarations := Declaration.inStepAll declarations hchildren.later haround hknown.opened
    refine ⟨(hknown.mono fun id h => w.settled h).closing
      (hdeclarations.known.mono fun id h => w.walk.settled_of_between h), ?_⟩
    exact .node nofun fun _ => .skip rfl hdeclarations.covers
  | .library _ _, _, g, w, within, hwithin, known, hknown
  | .placeholder _, _, g, w, within, hwithin, known, hknown => ⟨hknown, .of_mentions rfl⟩

/-- A block is inferred in step with its resolution, each statement with what those before it have
settled. -/
theorem Statement.inStepAll : (block : List Statement) → {function : Option Pattern} →
    {g : Generator} → i.Walks function (Statement.outlines block) g → {within : Surroundings} →
    within.All (i.Settled g) → {known : Known} → known.All (i.Settled g) →
    i.InStep (callsPreAll visit (Statement.outlines block) g)
      (tourAll visit (Statement.outlines block) g) (Statement.resolveAllIn block within known)
  | [], _, _, _, _, _, _, hknown => ⟨hknown, .nil⟩
  | statement :: rest, _, g, w, within, hwithin, known, hknown => by
    have hfirst := statement.inStep w.first hwithin hknown
    have hrest := Statement.inStepAll rest w.later (hwithin.mono fun id h => w.first.settled h)
      hfirst.known
    rw [Statement.outlines, Outline.callsPreAll_cons]
    exact ⟨hrest.known, hfirst.covers.append hrest.covers⟩

theorem Declaration.inStepAll : (declarations : List Declaration) → {function : Option Pattern} →
    {g : Generator} → i.Walks function (Declaration.outlines declarations) g →
    {within : Surroundings} → within.All (i.Settled g) → {known : Known} →
    known.All (i.Settled g) →
    i.InStep (callsPreAll visit (Declaration.outlines declarations) g)
      (tourAll visit (Declaration.outlines declarations) g)
      (Declaration.resolveAllIn declarations within known)
  | [], _, _, _, _, _, _, hknown => ⟨hknown, .nil⟩
  | declaration :: rest, _, g, w, within, hwithin, known, hknown => by
    have hfirst := declaration.inStep w.first hwithin hknown
    have hrest := Declaration.inStepAll rest w.later (hwithin.mono fun id h => w.first.settled h)
      hfirst.known
    rw [Declaration.outlines, Outline.callsPreAll_cons]
    exact ⟨hrest.known, hfirst.covers.append hrest.covers⟩

end

end TreeLang
