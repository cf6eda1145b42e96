import TreeLang.Proofs.Typing.Provenance

/-!
# The terms of inference are well scoped

Each visit keeps the invariant: the first one of a declaration goes into its enclosure and the
second one comes out of it again. So a tour of an outline ends in the enclosure that it has begun
in, and what is recorded by then is well scoped.
-/

namespace TreeLang

open Generator (visit)
open Outline (tourAll)

namespace Generator

variable {own : String → Prop} {walked : List Enclosure} {around chain : Enclosure}
  {g : Generator} {node : Node} {names : NameSupply}

/-! ## Expressions -/

namespace WellScoped

/-- A use has no generic parameters: they are replaced, and what it takes for them is its own. -/
theorem expressed_useTerm (h : g.WellScoped own walked chain) {id : NodeId}
    (hown : Owns own g (g.useTerm id).2) : (g.useTerm id).1.Expressed own := by
  rw [useTerm] at hown ⊢
  cases hterm : (g.scope.patternFor id).bind g.patternTerm with
  | none =>
    rw [hterm] at hown
    exact expressed_freshEvar hown
  | some term =>
    rw [hterm] at hown
    obtain ⟨pattern, -, hpattern⟩ := Option.bind_eq_some_iff.1 hterm
    obtain ⟨ρ, heq, -⟩ := term.exists_eq_instantiate g.names
    refine ⟨.inl ?_, ?_⟩
    · show (term.instantiate g.names).1.generics = []
      rw [heq]
      exact Term.generics_withVariables ρ term
    · intro x hx
      rcases Term.mem_evars_instantiate hx with hx | hissued
      · exact (h.pattern hpattern).taken x hx
      · exact hown x hissued

/-- A use gets its target's term with fresh variables in place of the generics, so that none is
left. -/
theorem typeUse (h : g.WellScoped own walked chain) {id : NodeId}
    (hown : Owns own g (g.typeUse id)) : (g.typeUse id).WellScoped own walked chain := by
  have hterm : (g.useTerm id).1.Expressed own := h.expressed_useTerm hown
  obtain ⟨⟨names, hnames⟩, -⟩ := useTerm_eq id g
  have hused : (g.useTerm id).2.WellScoped own walked chain := by
    rw [hnames]
    exact h.withNames names
  exact hused.setNode hterm id

/-- The constraints of a call's arguments are between terms without generics. -/
theorem constrainArguments (h : g.WellScoped own walked chain) {formals : List Formal}
    (hformals : ∀ f ∈ formals, f.type.Expressed own) (position : Nat) (arguments : List Argument) :
    (constrainArguments formals position arguments g).WellScoped own walked chain := by
  induction arguments generalizing position g with
  | nil => exact h
  | cons argument rest ih =>
    cases argument with
    | placeholder id => exact ih h _
    | argument id label expression =>
      refine ih (h.constrainKnown ?_ h.knownNode) _
      intro term hterm
      obtain ⟨f, hf, rfl⟩ := Option.map_eq_some_iff.1 hterm
      have hmem : f ∈ formals := by
        cases label with
        | none => exact List.mem_of_getElem? hf
        | some label => exact List.mem_of_find?_eq_some hf
      exact (hformals f hmem).declared

/-- The types of the arguments and of the result are parts of the type of the callee. -/
theorem typeCall (h : g.WellScoped own walked chain) (id : NodeId) (callee : Expression)
    (arguments : List Argument) : (g.typeCall id callee arguments).WellScoped own walked chain := by
  rw [Generator.typeCall]
  split
  · next formals result hcallee =>
    obtain ⟨hformals, hresult⟩ := Term.Declared.parts (h.node hcallee)
    exact (h.constrainArguments hformals 0 arguments).setNode hresult id
  · refine ⟨h.nodes, h.patterns, h.constraints, ?_, h.results, h.inside⟩
    intro call term hmem
    rcases List.mem_append.1 hmem with hmem | hmem
    · exact h.errors call term hmem
    · obtain ⟨rfl, hterm⟩ := InferenceError.notAFunction.inj (List.mem_singleton.1 hmem)
      exact h.node hterm.symm

/-- The constraints of an array's items are between terms without generics. -/
theorem constrainItems (h : g.WellScoped own walked chain) {element : Term}
    (helement : element.Expressed own) (items : List Expression) :
    (constrainItems element items g).WellScoped own walked chain := by
  induction items generalizing g with
  | nil => exact h
  | cons item rest ih =>
    refine ih (h.constrainKnown ?_ h.knownNode)
    intro term hterm
    rw [← Option.some.inj hterm]
    exact helement.declared

/-- A literal has a term without generics, over at most one fresh variable. -/
theorem literalTerm (h : g.WellScoped own walked chain) {literal : Literal}
    (hown : Owns own g (g.literalTerm literal).2) :
    (g.literalTerm literal).2.WellScoped own walked chain ∧
      (g.literalTerm literal).1.Expressed own := by
  cases literal with
  | array id items =>
    obtain ⟨hfresh, -⟩ := hown.split g.freshEvar.2 (gives_freshEvar g).advances.issued
      (advances_constrainItems g.freshEvar.1 items g.freshEvar.2).issued
    have helement := expressed_freshEvar hfresh
    exact ⟨(h.withNames _).constrainItems helement items, helement.array⟩
  | none | boolean | number | string | color => exact ⟨h, Term.declared_named _⟩

/-! ## Declarations -/

/-- Of a declaration that has a table of generic parameters, the table comes first. -/
theorem pushGenerics (h : g.WellScoped own walked around) (declaration : Declaration)
    (hframes : Opening.frames ⟨declaration, g.names⟩ =
      [(nameGenerics declaration.genericPatterns g.names).2.1]) :
    (g.pushGenerics declaration).2.WellScoped own walked (⟨declaration, g.names⟩ :: around) := by
  refine ⟨h.nodes, h.patterns, h.constraints, h.errors, h.results, ?_⟩
  show _ :: g.generics = _
  rw [Enclosure.frames, List.flatMap_cons, hframes, List.singleton_append, h.inside,
    Enclosure.frames]

/-- Leaving a declaration returns to the enclosure around it. -/
theorem popGenerics {o : Opening} {frame : Table String String}
    (h : g.WellScoped own walked (o :: around)) (hframes : o.frames = [frame]) :
    g.popGenerics.WellScoped own walked around := by
  refine h.withGenerics ?_
  rw [h.inside, Enclosure.frames, List.flatMap_cons, hframes, List.singleton_append, List.tail_cons,
    Enclosure.frames]

/-- The type that a record or an enumeration introduces mentions its own generic parameters only. -/
theorem declared_ownType (declaration : Declaration)
    (hnames : Opening.ownNames ⟨declaration, g.names⟩ =
      Opening.uniqueNames ⟨declaration, g.names⟩) (name : String) :
    (Term.cons name (g.pushGenerics declaration).1).Declared own
      (· = ⟨declaration, g.names⟩ :: around) := by
  refine Term.declared_eq_iff.2 ⟨?_, ?_⟩
  · intro unique hunique
    rw [Term.generics, Term.genericsList_eq_flatMap] at hunique
    refine .inr ?_
    rw [hnames]
    exact hunique
  · rw [evars_cons_pushGenerics]
    exact nofun

/-- The first visit of a declaration opens its enclosure, which is one of those walked. -/
theorem enterDeclaration (h : g.WellScoped own walked around) (declaration : Declaration)
    (hwalked : ⟨declaration, g.names⟩ :: around ∈ walked)
    (hown : Owns own (g.pushGenerics declaration).2 (g.enterDeclaration declaration {}).2) :
    (g.enterDeclaration declaration {}).2.WellScoped own walked
      (⟨declaration, g.names⟩ :: around) := by
  cases declaration with
  | function id name result generics parameters block =>
    -- the enclosure is open from here on, and the types of the parameters and the result are from
    -- it
    have hpushed := h.pushGenerics (.function id name result generics parameters block) rfl
    obtain ⟨hparameters, hresult⟩ := hown.split _
      (gives_parameterFormals parameters _).advances.issued
      (gives_typeTerm result _).advances.issued
    obtain ⟨hdone, hformals⟩ := hpushed.parameterFormals hwalked
      (List.subset_append_left _ _) (List.subset_append_right _ _) hparameters
    have hterm := hdone.declared_typeTerm (List.mem_append_right _ List.mem_cons_self) hresult
    refine ((hdone.typeTerm result).withResults ?_).setTyped hwalked
      (List.mem_append_left _ List.mem_cons_self) (Term.declared_fn hformals hterm)
    -- the result is on the list now, and those before it are as they were
    intro term hmem
    rcases List.mem_cons.1 hmem with rfl | hmem
    · exact hterm.of_mem hwalked
    · exact (hdone.typeTerm result).results term hmem
  | record id name generics declarations =>
    have hpushed := h.pushGenerics (.record id name generics declarations) rfl
    obtain ⟨hdone, hformals⟩ := hpushed.memberFormals hwalked (List.Subset.refl _)
      (List.Subset.trans (List.subset_cons_self _ _) (List.subset_append_left _ _)) hown
    exact hdone.setTyped hwalked (List.mem_append_left _ List.mem_cons_self)
      (Term.declared_fn hformals
        (declared_ownType (.record id name generics declarations) rfl name.name))
  | enumeration id name generics cases =>
    have hpushed := h.pushGenerics (.enumeration id name generics cases) rfl
    exact hpushed.typeCases hwalked
      (declared_ownType (.enumeration id name generics cases) rfl name.name)
      (evars_cons_pushGenerics (.enumeration id name generics cases) g name.name)
      (List.Subset.refl _) (List.subset_append_left _ _) hown
  | value id name form initializer =>
    rw [Generator.enterDeclaration]
    split <;> exact h.reframe rfl
  | space | library | placeholder => exact h.reframe rfl

/-- The second visit of a declaration writes the patterns that it types and closes its enclosure. -/
theorem leaveDeclaration (declaration : Declaration)
    (h : g.WellScoped own walked (⟨declaration, names⟩ :: around))
    (hwalked : ⟨declaration, names⟩ :: around ∈ walked)
    (hown : Owns own g (g.leaveDeclaration declaration)) :
    (g.leaveDeclaration declaration).WellScoped own walked around := by
  cases declaration with
  | function id name result generics parameters block =>
    refine (h.popGenerics rfl).withResults ?_
    intro term hmem
    exact h.results term (List.mem_of_mem_tail hmem)
  | record | enumeration => exact h.popGenerics rfl
  | value id name form initializer =>
    cases form with
    | none => exact h.reframe rfl
    | some form =>
      cases initializer with
      | none => exact h.reframe rfl
      | some initializer =>
        -- the written type is typed only now, and its variables are own ones
        have hissued : (Generator.typeTerm form g).2.names.issued ≤
            (g.leaveDeclaration (.value id name (some form) (some initializer))).names.issued :=
          (advances_constrainKnown
            (g := (Generator.typeTerm form g).2.setPattern name.id _) _ _).issued
        have hterm := h.declared_typeTerm (List.mem_singleton.2 rfl)
          (hown.split _ (gives_typeTerm form g).advances.issued hissued).1
        have hid : name.id ∈
            (Declaration.value id name (some form) (some initializer)).typedPatterns :=
          List.mem_append_left _ List.mem_cons_self
        have hset := (h.typeTerm form).setTyped hwalked hid hterm
        refine (hset.constrainKnown ?_ hset.knownNode).reframe rfl
        intro term heq
        rw [← Option.some.inj heq]
        exact hterm.of_mem hwalked
  | space | library | placeholder => exact h.reframe rfl

/-! ## Visits -/

/-- The first visit of a node goes into its enclosure. -/
theorem enter (h : g.WellScoped own walked around)
    (hwalked : ∀ o ∈ node.openings g.names, o :: around ∈ walked)
    (hown : ∀ x, g.TakesVariable node {} x → own x) :
    (g.enter node {}).2.WellScoped own walked (node.openings g.names ++ around) := by
  -- only declarations open an enclosure
  cases node with
  | declaration declaration =>
    exact h.enterDeclaration declaration (hwalked _ List.mem_cons_self) hown
  | statement statement =>
    cases statement with
    | loop id pattern iterated block =>
      have hfresh : Owns own g g.freshEvar.2 := hown
      exact (h.withNames _).setPattern (expressed_freshEvar hfresh).declared
    | declaration | branch | expression | result | placeholder => exact h
  | parameter parameter =>
    cases parameter with
    | placeholder id => exact h
    | parameter id externalName localName form defaultValue => cases defaultValue <;> exact h
  -- a use takes variables for the generics of what it refers to
  | expression expression =>
    cases expression with
    | identifier id used => exact h.typeUse hown
    | member id base name => exact h.typeUse hown
    | placeholder id =>
      have hfresh : Owns own g g.freshEvar.2 := hown
      exact (h.withNames _).setNode (expressed_freshEvar hfresh) id
    | binary | call | literal => exact h
  | program | pattern | identifier | typeForm | literal | generic | case | argument => exact h

/-- A statement's second visit constrains terms of nodes, of its pattern and of the innermost
result. -/
theorem leaveStatement (h : g.WellScoped own walked around) (statement : Statement) :
    (g.leaveStatement statement).WellScoped own walked around := by
  cases statement with
  | branch id condition block =>
    refine h.constrainKnown h.knownNode ?_
    intro term hterm
    rw [← Option.some.inj hterm]
    exact Term.declared_named _
  | loop id pattern iterated block =>
    refine h.constrainKnown h.knownNode ?_
    intro term hterm
    obtain ⟨element, helement, rfl⟩ := Option.map_eq_some_iff.1 hterm
    exact (h.knownPattern element helement).array
  | result id expression =>
    refine h.constrainKnown ?_ h.knownNode
    intro term hterm
    exact h.results term (List.mem_of_mem_head? hterm)
  | declaration | expression | placeholder => exact h

/-- An expression's second visit constrains terms of nodes and gives its own. -/
theorem leaveExpression (h : g.WellScoped own walked around) (expression : Expression)
    (hown : Owns own g (g.leaveExpression expression)) :
    (g.leaveExpression expression).WellScoped own walked around := by
  cases expression with
  | binary id left right operator =>
    rw [Generator.leaveExpression]
    split
    · exact (h.constrainKnown h.knownNode h.knownNode).setNode (Term.declared_named _) id
    · exact h
  | call id callee arguments => exact h.typeCall id callee arguments
  | literal id literal =>
    obtain ⟨hdone, hterm⟩ := h.literalTerm hown
    exact (hdone.setNode hterm literal.id).setNode hterm id
  | identifier | member | placeholder => exact h

/-- The second visit of a node comes out of its enclosure. -/
theorem leave (h : g.WellScoped own walked (node.openings names ++ around))
    (hwalked : ∀ o ∈ node.openings names, o :: around ∈ walked)
    (hown : ∀ x, g.TakesVariable node { isRevisit := true } x → own x) :
    (g.leave node).WellScoped own walked around := by
  cases node with
  | declaration declaration =>
    exact h.leaveDeclaration declaration (hwalked _ List.mem_cons_self) hown
  | statement statement => exact h.leaveStatement statement
  | parameter parameter =>
    cases parameter with
    | placeholder id => exact h
    | parameter id externalName localName form defaultValue =>
      cases defaultValue with
      | none => exact h
      | some value => exact h.constrainKnown h.knownPattern h.knownNode
  | expression expression => exact h.leaveExpression expression hown
  | program | pattern | identifier | typeForm | literal | generic | case | argument => exact h

/-- A node that is not visited again has no generic parameters. -/
theorem stay {g₀ : Generator} (h : g.WellScoped own walked (node.openings names ++ around))
    (honce : (visit node {} g₀).1.needsRevisit = false) : g.WellScoped own walked around := by
  have hframes : (node.openings names).flatMap Opening.frames = [] := by
    cases node with
    | declaration declaration =>
      cases declaration with
      | function | record | enumeration => cases honce
      | value | space | library | placeholder => rfl
    | program | statement | expression | pattern | identifier | typeForm | literal | parameter
    | generic | case | argument => rfl
  refine h.reframe ?_
  rw [Enclosure.frames, List.flatMap_append, hframes, List.nil_append, Enclosure.frames]

end WellScoped

/-! ## Runs -/

/-- The calls take own variables only. -/
def OwnCalls (own : String → Prop) (calls : List (Call Generator)) : Prop :=
  ∀ call ∈ calls, ∀ x, call.state.TakesVariable call.node { isRevisit := call.again } x → own x

/-- A list of walks keeps the invariant when each of them does. -/
theorem wellScoped_tourAll {outlines : List Outline}
    (ih : ∀ c ∈ outlines, ∀ g, WellScoped own walked chain g →
      OwnCalls own (c.callsPre visit g) → c.enclosures chain g ⊆ walked →
      (c.tour visit g).WellScoped own walked chain)
    (h : g.WellScoped own walked chain)
    (hcalls : OwnCalls own (Outline.callsPreAll visit outlines g))
    (hwalked : Outline.enclosuresAll chain outlines g ⊆ walked) :
    (tourAll visit outlines g).WellScoped own walked chain := by
  induction outlines generalizing g with
  | nil => exact h
  | cons c rest ihrest =>
    obtain ⟨hc, hrest⟩ := List.forall_mem_cons.1 ih
    rw [Outline.callsPreAll_cons] at hcalls
    obtain ⟨hcall, hcalls⟩ := List.forall_mem_append.1 hcalls
    rw [Outline.enclosuresAll, List.append_subset] at hwalked
    exact ihrest hrest (hc g h hcall hwalked.1) hcalls hwalked.2

/-- A tour that takes own variables and comes to walked enclosures only keeps the invariant. -/
theorem wellScoped_tour (outline : Outline) (h : g.WellScoped own walked around)
    (hcalls : OwnCalls own (outline.callsPre visit g))
    (hwalked : outline.enclosures around g ⊆ walked) :
    (outline.tour visit g).WellScoped own walked around := by
  -- by induction on the outline, with the enclosures around a node as its place
  induction outline generalizing g around with
  | node item children ih =>
    rw [Outline.callsPre_node] at hcalls
    obtain ⟨hfirst, hcalls⟩ := List.forall_mem_cons.1 hcalls
    obtain ⟨hbelow, hagain⟩ := List.forall_mem_append.1 hcalls
    rw [Outline.enclosures, List.append_subset] at hwalked
    have hopened : ∀ o ∈ item.openings g.names, o :: around ∈ walked := by
      intro o ho
      exact hwalked.1 (List.mem_map_of_mem ho)
    have hentered : (visit item {} g).2.WellScoped own walked (item.openings g.names ++ around) :=
      h.enter hopened hfirst
    -- between the two visits, the children are walked in the node's own enclosure
    have hbetween : WellScoped own walked (item.openings g.names ++ around)
        (if (visit item {} g).1.ignoreChildren then (visit item {} g).2
          else tourAll visit children (visit item {} g).2) := by
      rw [Outline.callsBelow] at hbelow
      split
      · exact hentered
      · next hignore =>
        rw [if_neg hignore] at hbelow
        rw [if_neg hignore] at hwalked
        exact wellScoped_tourAll (fun c hc g h hcalls hwalked => ih c hc h hcalls hwalked) hentered
          hbelow hwalked.2
    simp only [Outline.tour]
    by_cases hrevisit : (visit item {} g).1.needsRevisit
    · rw [if_pos hrevisit]
      rw [if_pos hrevisit,
        (Outline.threaded_callsBelow item (fun c _ => c.threaded_callsPre) g).2] at hagain
      exact hbetween.leave hopened (hagain _ List.mem_cons_self)
    · rw [if_neg hrevisit]
      exact hbetween.stay (Bool.eq_false_iff.2 hrevisit)

end Generator

/-! ## Programs -/

/-- The term of the callee of a call that cannot be typed. -/
def InferenceError.terms : InferenceError → List Term
  | .notAFunction _ callee => callee.toList

/-- The terms that inference records. -/
def Inference.terms (inference : Inference) : List Term :=
  inference.nodeTerms.map Prod.snd ++ (inference.patternTerms.map Prod.snd ++
    (inference.constraints.flatMap (fun c => [c.head, c.tail]) ++
      inference.errors.flatMap InferenceError.terms))

/-- What the terms that inference records for a program may mention. -/
structure Program.InfersWellScoped (program : Program) (scope : Scope) : Prop where
  /-- Terms of expressions have no generic parameters. -/
  expressions : ∀ id term, (id, term) ∈ (program.infer scope).nodeTerms → term.generics = []
  /-- Variables are ones that the run has taken from its supply. -/
  taken : ∀ term ∈ (program.infer scope).terms, ∀ x ∈ term.evars, program.IssuesVariable scope x
  /-- Generic parameters in the term of a pattern are mentioned by the declaration that gives the
  pattern its term, and they belong to this declaration or to one around it. -/
  patterns : ∀ id term, (id, term) ∈ (program.infer scope).patternTerms → term.generics ≠ [] →
    ∃ chain ∈ program.enclosures scope, chain.Types id ∧
      ∀ unique ∈ term.generics, chain.Mentions unique ∧ chain.Owns unique
  /-- Generic parameters in a constraint are mentioned by a declaration, on each side by one, and
  they belong to this declaration or to one around it. -/
  constraints : ∀ c ∈ (program.infer scope).constraints, ∀ side ∈ [c.head, c.tail],
    side.generics ≠ [] → ∃ chain ∈ program.enclosures scope,
      ∀ unique ∈ side.generics, chain.Mentions unique ∧ chain.Owns unique

/-- What a walk leaves is well scoped, with regard to the variables and the enclosures of this
walk. -/
theorem Program.wellScoped_walk (program : Program) (scope : Scope) :
    (program.walk visit { scope }).WellScoped (program.IssuesVariable scope)
      (program.enclosures scope) [] := by
  have hstart : Generator.WellScoped (program.IssuesVariable scope) (program.enclosures scope) []
      { scope } := ⟨nofun, nofun, nofun, nofun, nofun, rfl⟩
  have hlog : program.inferenceVisits scope =
      (program.outline.callsPre visit { scope }).map Call.seen :=
    Outline.log_eq_map_seen Generator.visit_neverStops program.outline { scope }
  have hcalls : Generator.OwnCalls (program.IssuesVariable scope)
      (program.outline.callsPre visit { scope }) := by
    intro call hcall x hx
    refine ⟨call.seen, ?_, hx⟩
    rw [hlog]
    exact List.mem_map_of_mem hcall
  rw [program.walk_eq_tour Generator.visit_neverStops]
  exact Generator.wellScoped_tour program.outline hstart hcalls (List.Subset.refl _)

/-- **The terms of inference are well scoped.** In the terms of expressions there are variables
only. Every variable is one that the run has taken from its supply. And a generic parameter in the
term of a pattern or in a constraint belongs to a declaration around the one that mentions it, or to
this one. -/
theorem Program.infer_wellScoped (program : Program) (scope : Scope) :
    program.InfersWellScoped scope := by
  have h := program.wellScoped_walk scope
  -- the invariant at the end of the run says it of each list of terms
  refine ⟨?_, ?_, ?_, ?_⟩
  · intro id term hmem
    exact (h.nodes id term hmem).generics_eq
  · intro term hmem
    rw [Inference.terms, List.mem_append, List.mem_append, List.mem_append] at hmem
    rcases hmem with hnode | hpattern | hconstraint | herror
    · obtain ⟨⟨id, _⟩, hentry, rfl⟩ := List.mem_map.1 hnode
      exact (h.nodes id _ hentry).taken
    · obtain ⟨⟨id, _⟩, hentry, rfl⟩ := List.mem_map.1 hpattern
      exact (h.patterns id _ hentry).taken
    · obtain ⟨c, hc, hside⟩ := List.mem_flatMap.1 hconstraint
      rcases List.mem_pair.1 hside with rfl | rfl
      · exact (h.constraints c hc).1.taken
      · exact (h.constraints c hc).2.taken
    · obtain ⟨⟨call, callee⟩, he, hcallee⟩ := List.mem_flatMap.1 herror
      obtain rfl : callee = some term := Option.mem_toList.1 hcallee
      exact (h.errors call term he).taken
  · intro id term hmem hgenerics
    obtain ⟨chain, ⟨hwalked, htypes⟩, howns⟩ := (h.patterns id term hmem).exists_owns hgenerics
    exact ⟨chain, hwalked, htypes, howns⟩
  · intro c hc side hside hgenerics
    obtain ⟨hhead, htail⟩ := h.constraints c hc
    rcases List.mem_pair.1 hside with rfl | rfl
    · exact hhead.exists_owns hgenerics
    · exact htail.exists_owns hgenerics

/-- The declaration `g` in `f`: its generic parameter is named after the nine variables of `f`. -/
example : ((nestedGenerics "T" "U").enclosures ((nestedGenerics "T" "U").resolve none)).map
    (fun chain => chain.map Opening.uniqueNames) = [[["T1"]], [["U11"], ["T1"]]] := by
  decide +kernel

end TreeLang
