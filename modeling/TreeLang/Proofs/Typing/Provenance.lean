import TreeLang.Proofs.Term.Freshness
import TreeLang.Proofs.Typing.Enclosing
import TreeLang.Proofs.Typing.Parameters

/-!
# Where the names in recorded terms come from

Whatever inference records, its variables are ones that the run has taken from the supply, and its
generic parameters belong to declarations around the one that mentions them. No generic parameter
gets into the term of an expression: uses replace them, and everything else is built from uses.

The invariant of the walk is relative to the variables and the enclosures of the whole run. A visit
that takes a variable or comes to a declaration is one of the run, so the invariant need not grow.
-/

namespace TreeLang

open Generator (visit)
open Outline (tourAll)

/-! ## Variables of a run -/

/-- The supply from which a visit takes type variables. On the first visit of a declaration the
generic parameters get their names before. -/
def Generator.supply (g : Generator) (node : Node) (control : Control) : NameSupply :=
  match node with
  | .declaration d => if control.isRevisit then g.names else (g.pushGenerics d).2.names
  | _ => g.names

/-- A visit takes a type variable from the supply. -/
def Generator.TakesVariable (g : Generator) (node : Node) (control : Control) (x : String) : Prop :=
  (g.supply node control).Issues (visit node control g).2.names x

/-- The run of inference on a program takes a type variable from its supply. -/
def Program.IssuesVariable (program : Program) (scope : Scope) (x : String) : Prop :=
  ∃ visited ∈ program.inferenceVisits scope, visited.2.2.TakesVariable visited.1 visited.2.1 x

/-! ## Terms -/

/-- The variables of a term are own ones, and if it has generic parameters, then all of them are
mentioned in one of the enclosures. -/
structure Term.Declared (own : String → Prop) (among : Enclosure → Prop) (term : Term) : Prop where
  placed : term.generics = [] ∨
    ∃ chain, among chain ∧ ∀ unique ∈ term.generics, chain.Mentions unique
  taken : ∀ x ∈ term.evars, own x

/-- The variables of a term are own ones, and it has no generic parameters. -/
abbrev Term.Expressed (own : String → Prop) (term : Term) : Prop := term.Declared own fun _ => False

namespace Term

variable {own : String → Prop} {among among' : Enclosure → Prop} {chain : Enclosure}
  {term other : Term}

/-- A term that is declared by some enclosures is declared by more of them. -/
theorem Declared.mono (h : term.Declared own among) (hmono : ∀ chain, among chain → among' chain) :
    term.Declared own among' := by
  refine ⟨?_, h.taken⟩
  rcases h.placed with hnone | ⟨chain, hchain, hmentions⟩
  · exact .inl hnone
  · exact .inr ⟨chain, hmono chain hchain, hmentions⟩

/-- Terms of nodes have no generics left. -/
theorem Expressed.generics_eq (h : term.Expressed own) : term.generics = [] := by
  rcases h.placed with hnone | ⟨chain, hchain, -⟩
  · exact hnone
  · cases hchain

/-- A term without generics is declared by any enclosures, whichever they are. -/
theorem Expressed.declared (h : term.Expressed own) : term.Declared own among :=
  h.mono fun _ => False.elim

/-- What is mentioned belongs to a declaration around. -/
theorem Declared.exists_owns (h : term.Declared own among) (hgenerics : term.generics ≠ []) :
    ∃ chain, among chain ∧
      ∀ unique ∈ term.generics, chain.Mentions unique ∧ chain.Owns unique := by
  obtain ⟨chain, hchain, hmentions⟩ := h.placed.resolve_left hgenerics
  refine ⟨chain, hchain, ?_⟩
  intro unique hunique
  have hmention := hmentions unique hunique
  exact ⟨hmention, Enclosure.owns_of_mentions hmention⟩

/-- What mentions no more than another term. -/
theorem Declared.of_subset (h : term.Declared own among)
    (hgenerics : other.generics ⊆ term.generics)
    (hvariables : other.evars ⊆ term.evars) : other.Declared own among := by
  refine ⟨?_, fun x hx => h.taken x (hvariables hx)⟩
  rcases h.placed with hnone | ⟨chain, hchain, hmentions⟩
  · rw [hnone] at hgenerics
    exact .inl (List.subset_nil.1 hgenerics)
  · exact .inr ⟨chain, hchain, fun unique hunique => hmentions unique (hgenerics hunique)⟩

/-- A variable of the run is a declared term by itself. -/
theorem declared_evar {x : String} (h : own x) : (evar x).Declared own among := by
  refine ⟨.inl rfl, ?_⟩
  intro y hy
  rw [mem_evars_evar.1 hy]
  exact h

/-- A named type has neither variables nor generics. -/
theorem declared_named (name : String) : (named name).Declared own among := ⟨.inl rfl, nofun⟩

/-- An array is declared where its items are. -/
theorem Declared.array (h : term.Declared own among) : (array term).Declared own among := by
  refine h.of_subset ?_ ?_
  · rw [Term.array, generics, genericsList_eq_flatMap, List.flatMap_singleton]
    exact List.Subset.refl _
  · intro x hx
    obtain ⟨p, hp, hx⟩ := mem_evars_cons.1 hx
    rw [← List.mem_singleton.1 hp]
    exact hx

/-- Within one enclosure what a term mentions is what it has generic parameters for. -/
theorem declared_eq_iff : term.Declared own (· = chain) ↔
    (∀ unique ∈ term.generics, chain.Mentions unique) ∧ ∀ x ∈ term.evars, own x := by
  constructor
  · intro h
    refine ⟨?_, h.taken⟩
    rcases h.placed with hnone | ⟨_, rfl, hmentions⟩
    · rw [hnone]
      exact nofun
    · exact hmentions
  · rintro ⟨hmentions, hvariables⟩
    exact ⟨.inr ⟨chain, rfl, hmentions⟩, hvariables⟩

/-- A term declared by one enclosure is declared by the enclosures it is among. -/
theorem Declared.of_mem {walked : List Enclosure} (h : term.Declared own (· = chain))
    (hchain : chain ∈ walked) : term.Declared own (· ∈ walked) := by
  refine h.mono ?_
  rintro _ rfl
  exact hchain

/-- The generics of a function type belong to one enclosure when those of its parts do. -/
theorem declared_fn {formals : List Formal}
    (hformals : ∀ f ∈ formals, f.type.Declared own (· = chain))
    (hresult : term.Declared own (· = chain)) : (fn formals term).Declared own (· = chain) := by
  refine declared_eq_iff.2 ⟨?_, ?_⟩
  · intro unique hunique
    rw [generics, genericsFormals_eq_flatMap, List.mem_append] at hunique
    rcases hunique with hunique | hunique
    · obtain ⟨f, hf, hunique⟩ := List.mem_flatMap.1 hunique
      exact (declared_eq_iff.1 (hformals f hf)).1 unique hunique
    · exact (declared_eq_iff.1 hresult).1 unique hunique
  · intro x hx
    rcases mem_evars_fn.1 hx with ⟨f, hf, hx⟩ | hx
    · exact (hformals f hf).taken x hx
    · exact hresult.taken x hx

/-- The parts of a function type mention no more than it does. -/
theorem Declared.parts {formals : List Formal} (h : (fn formals term).Declared own among) :
    (∀ f ∈ formals, f.type.Declared own among) ∧ term.Declared own among := by
  refine ⟨fun f hf => h.of_subset ?_ ?_, h.of_subset ?_ ?_⟩
  · intro unique hunique
    rw [generics, genericsFormals_eq_flatMap]
    exact List.mem_append_left _ (List.mem_flatMap.2 ⟨f, hf, hunique⟩)
  · intro x hx
    exact mem_evars_fn.2 (.inl ⟨f, hf, hx⟩)
  · intro unique hunique
    exact List.mem_append_right _ hunique
  · intro x hx
    exact mem_evars_fn.2 (.inr hx)

end Term

namespace Generator

/-! ## The invariant -/

/-- What is recorded mentions own variables, and generic parameters of the walked enclosures only
where declarations have them. Written names are read in the enclosure that the walk is in. -/
structure WellScoped (own : String → Prop) (walked : List Enclosure) (chain : Enclosure)
    (g : Generator) : Prop where
  nodes : ∀ id term, (id, term) ∈ g.inference.nodeTerms → term.Expressed own
  patterns : ∀ id term, (id, term) ∈ g.inference.patternTerms →
    term.Declared own fun chain => chain ∈ walked ∧ chain.Types id
  constraints : ∀ c ∈ g.inference.constraints,
    c.head.Declared own (· ∈ walked) ∧ c.tail.Declared own (· ∈ walked)
  errors : ∀ call term, .notAFunction call (some term) ∈ g.inference.errors → term.Expressed own
  results : ∀ term ∈ g.results, term.Declared own (· ∈ walked)
  inside : g.generics = chain.frames

/-- The variables that the supply gives out from one state to another are own ones. -/
def Owns (own : String → Prop) (g g' : Generator) : Prop := ∀ x, g.names.Issues g'.names x → own x

variable {own : String → Prop} {walked : List Enclosure} {around chain : Enclosure} {o : Opening}
  {g g₁ g₂ : Generator} {id : NodeId} {term : Term}

/-- What is given out up to a later state is given out first up to one in between. -/
theorem Owns.split (h : Owns own g g₂) (g₁ : Generator) (hfirst : g.names.issued ≤ g₁.names.issued)
    (hsecond : g₁.names.issued ≤ g₂.names.issued) : Owns own g g₁ ∧ Owns own g₁ g₂ := by
  constructor
  · intro x hx
    exact h x (hx.mono_right hsecond)
  · intro x hx
    exact h x (hx.mono_left hfirst)

/-- A fresh variable is one of the run's own and a term without generics. -/
theorem expressed_freshEvar (hown : Owns own g g.freshEvar.2) : g.freshEvar.1.Expressed own :=
  Term.declared_evar (hown _ g.names.issues_evar)

namespace WellScoped

/-- The invariant holds of every node's term. -/
theorem node (h : g.WellScoped own walked chain) (hterm : g.nodeTerm id = some term) :
    term.Expressed own :=
  h.nodes id term (Table.mem_of_find hterm)

/-- The invariant holds of every pattern's term, with an enclosure that types the pattern. -/
theorem pattern (h : g.WellScoped own walked chain) (hterm : g.patternTerm id = some term) :
    term.Declared own fun chain => chain ∈ walked ∧ chain.Types id :=
  h.patterns id term (Table.mem_of_find hterm)

/-- A side of a constraint that is the term of an expression. -/
theorem knownNode (h : g.WellScoped own walked chain) :
    ∀ term, g.nodeTerm id = some term → term.Declared own (· ∈ walked) := by
  intro term hterm
  exact (h.node hterm).declared

/-- A side of a constraint that is the term of a pattern. -/
theorem knownPattern (h : g.WellScoped own walked chain) :
    ∀ term, g.patternTerm id = some term → term.Declared own (· ∈ walked) := by
  intro term hterm
  exact (h.pattern hterm).mono fun _ hchain => hchain.1

/-- A change of the supply. -/
theorem withNames (h : g.WellScoped own walked chain) (names : NameSupply) :
    WellScoped own walked chain { g with names } :=
  ⟨h.nodes, h.patterns, h.constraints, h.errors, h.results, h.inside⟩

/-- Enclosures with the same tables are alike. -/
theorem reframe (h : g.WellScoped own walked chain) (hframes : chain.frames = around.frames) :
    g.WellScoped own walked around :=
  ⟨h.nodes, h.patterns, h.constraints, h.errors, h.results, h.inside.trans hframes⟩

/-- A change of the enclosure, together with the tables that names are read in. -/
theorem withGenerics (h : g.WellScoped own walked chain) {generics : List (Table String String)}
    (hinside : generics = around.frames) : WellScoped own walked around { g with generics } :=
  ⟨h.nodes, h.patterns, h.constraints, h.errors, h.results, hinside⟩

/-- Another list of function results keeps the invariant when its terms are declared. -/
theorem withResults (h : g.WellScoped own walked chain) {results : List Term}
    (hresults : ∀ term ∈ results, term.Declared own (· ∈ walked)) :
    WellScoped own walked chain { g with results } :=
  ⟨h.nodes, h.patterns, h.constraints, h.errors, hresults, h.inside⟩

/-- A node may get any term without generics. -/
theorem setNode (h : g.WellScoped own walked chain) (hterm : term.Expressed own) (id : NodeId) :
    (g.setNode id term).WellScoped own walked chain := by
  refine ⟨?_, h.patterns, h.constraints, h.errors, h.results, h.inside⟩
  intro other term' hmem
  rcases Table.mem_of_mem_put hmem with heq | hmem
  · cases heq
    exact hterm
  · exact h.nodes other term' hmem

/-- A pattern may get any term of an enclosure that types it. -/
theorem setPattern (h : g.WellScoped own walked chain)
    (hterm : term.Declared own fun chain => chain ∈ walked ∧ chain.Types id) :
    (g.setPattern id term).WellScoped own walked chain := by
  refine ⟨h.nodes, ?_, h.constraints, h.errors, h.results, h.inside⟩
  intro other term' hmem
  rcases Table.mem_of_mem_put hmem with heq | hmem
  · cases heq
    exact hterm
  · exact h.patterns other term' hmem

/-- A constraint between declared terms keeps the invariant, and so does none. -/
theorem constrainKnown (h : g.WellScoped own walked chain) {head tail : Option Term}
    (hhead : ∀ term, head = some term → term.Declared own (· ∈ walked))
    (htail : ∀ term, tail = some term → term.Declared own (· ∈ walked)) :
    (g.constrainKnown head tail).WellScoped own walked chain := by
  cases head with
  | none => exact h
  | some head =>
    cases tail with
    | none => exact h
    | some tail =>
      refine ⟨h.nodes, h.patterns, ?_, h.errors, h.results, h.inside⟩
      intro c hc
      rcases List.mem_append.1 hc with hc | hc
      · exact h.constraints c hc
      · rw [List.mem_singleton.1 hc]
        exact ⟨hhead head rfl, htail tail rfl⟩

/-! ## Written types -/

/-- A written type changes the supply of names and nothing that the invariant speaks of. -/
theorem typeTerm (h : g.WellScoped own walked chain) (form : TypeForm) :
    (typeTerm form g).2.WellScoped own walked chain := by
  obtain ⟨names, hnames⟩ := typeTerm_eq form g
  rw [hnames]
  exact h.withNames names

theorem typeTerms (h : g.WellScoped own walked chain) (forms : List TypeForm) :
    (typeTerms forms g).2.WellScoped own walked chain := by
  obtain ⟨names, hnames⟩ := typeTerms_eq forms g
  rw [hnames]
  exact h.withNames names

/-- The frames of generics answer as the enclosure's own look-up does: the innermost declaration
that has the name. -/
theorem genericInScope_eq (h : g.WellScoped own walked chain) (name : String) :
    g.genericInScope name = chain.lookUp name := by
  rw [genericInScope, h.inside, Enclosure.lookUp]

/-- The term of a type that is written in the innermost declaration. -/
theorem declared_typeTerm (h : g.WellScoped own walked (o :: around)) {form : TypeForm}
    (hform : form ∈ o.declaration.forms) (hown : Owns own g (Generator.typeTerm form g).2) :
    (Generator.typeTerm form g).1.Declared own (· = o :: around) := by
  refine Term.declared_eq_iff.2 ⟨?_, ?_⟩
  · intro unique hunique
    obtain ⟨name, hname, hfound⟩ := exists_written_of_mem_generics_typeTerm form g hunique
    rw [h.genericInScope_eq] at hfound
    exact .inl ⟨form, hform, name, hname, hfound⟩
  · intro x hx
    exact hown x ((gives_typeTerm form g).issues x hx)

/-- The types that a declaration writes have variables of the run and generics of the enclosures
around it. -/
theorem declared_typeTerms (h : g.WellScoped own walked (o :: around)) {forms : List TypeForm}
    (hforms : forms ⊆ o.declaration.forms) (hown : Owns own g (Generator.typeTerms forms g).2) :
    ∀ term ∈ (Generator.typeTerms forms g).1, term.Declared own (· = o :: around) := by
  intro term hterm
  refine Term.declared_eq_iff.2 ⟨?_, ?_⟩
  · intro unique hunique
    obtain ⟨name, hname, hfound⟩ := exists_written_of_mem_generics_typeTerms forms g
      (List.mem_flatMap.2 ⟨term, hterm, hunique⟩)
    rw [TypeForm.writtenAll_eq_flatMap] at hname
    obtain ⟨form, hform, hname⟩ := List.mem_flatMap.1 hname
    rw [h.genericInScope_eq] at hfound
    exact .inl ⟨form, hforms hform, name, hname, hfound⟩
  · intro x hx
    exact hown x ((gives_typeTerms forms g).issues x (List.mem_flatMap.2 ⟨term, hterm, hx⟩))

/-! ## Declarations -/

/-- A pattern of the innermost declaration gets a term that mentions what this declaration does. -/
theorem setTyped (h : g.WellScoped own walked (o :: around)) (hwalked : o :: around ∈ walked)
    (hid : id ∈ o.declaration.typedPatterns) (hterm : term.Declared own (· = o :: around)) :
    (g.setPattern id term).WellScoped own walked (o :: around) := by
  refine h.setPattern (hterm.mono ?_)
  rintro _ rfl
  exact ⟨hwalked, hid⟩

/-- The parameters of a declaration keep the invariant, and their types belong to its enclosure. -/
theorem parameterFormals (h : g.WellScoped own walked (o :: around))
    (hwalked : o :: around ∈ walked) {parameters : List Parameter}
    (hforms : parameters.flatMap Parameter.forms ⊆ o.declaration.forms)
    (htyped : parameters.flatMap Parameter.declares ⊆ o.declaration.typedPatterns)
    (hown : Owns own g (parameterFormals parameters g).2) :
    (parameterFormals parameters g).2.WellScoped own walked (o :: around) ∧
      ∀ f ∈ (Generator.parameterFormals parameters g).1, f.type.Declared own (· = o :: around) := by
  induction parameters generalizing g with
  | nil => exact ⟨h, nofun⟩
  | cons parameter rest ih =>
    rw [List.flatMap_cons, List.append_subset] at hforms htyped
    cases parameter with
    | placeholder _ => exact ih h hforms.2 htyped.2 hown
    | parameter _ externalName localName form defaultValue =>
      have hform : form ∈ o.declaration.forms := hforms.1 List.mem_cons_self
      have hid : localName.id ∈ o.declaration.typedPatterns := htyped.1 List.mem_cons_self
      obtain ⟨hfirst, hrest⟩ := hown.split (Generator.typeTerm form g).2
        (gives_typeTerm form g).advances.issued (gives_parameterFormals rest
          ((Generator.typeTerm form g).2.setPattern localName.id _)).advances.issued
      have hterm := h.declared_typeTerm hform hfirst
      obtain ⟨hdone, hformals⟩ :=
        ih ((h.typeTerm form).setTyped hwalked hid hterm) hforms.2 htyped.2 hrest
      exact ⟨hdone, List.forall_mem_cons.2 ⟨hterm, hformals⟩⟩

/-- The members of a declaration keep the invariant, and their types belong to its enclosure. -/
theorem memberFormals (h : g.WellScoped own walked (o :: around))
    (hwalked : o :: around ∈ walked) {declarations : List Declaration}
    (hforms : declarations.flatMap Declaration.memberForms ⊆ o.declaration.forms)
    (htyped : (declarations.filterMap Declaration.name).map Pattern.id ⊆
      o.declaration.typedPatterns)
    (hown : Owns own g (memberFormals declarations g).2) :
    (memberFormals declarations g).2.WellScoped own walked (o :: around) ∧
      ∀ f ∈ (Generator.memberFormals declarations g).1, f.type.Declared own (· = o :: around) := by
  -- by induction on the members, of which only values with a type are typed
  induction declarations generalizing g with
  | nil => exact ⟨h, nofun⟩
  | cons declaration rest ih =>
    rw [List.flatMap_cons, List.append_subset] at hforms
    have hrest : (rest.filterMap Declaration.name).map Pattern.id ⊆ o.declaration.typedPatterns :=
      List.Subset.trans
        (List.map_subset _ (List.filterMap_subset _ (List.subset_cons_self _ _))) htyped
    cases declaration with
    | value _ name form initializer =>
      cases form with
      | none => exact ih h hforms.2 hrest hown
      | some form =>
        have hform : form ∈ o.declaration.forms := hforms.1 List.mem_cons_self
        have hid : name.id ∈ o.declaration.typedPatterns := htyped List.mem_cons_self
        -- the variables given out for this member are own ones, and so are those for the rest
        obtain ⟨hfirst, hlater⟩ := hown.split (Generator.typeTerm form g).2
          (gives_typeTerm form g).advances.issued (gives_memberFormals rest
            ((Generator.typeTerm form g).2.setPattern name.id _)).advances.issued
        have hterm := h.declared_typeTerm hform hfirst
        obtain ⟨hdone, hformals⟩ :=
          ih ((h.typeTerm form).setTyped hwalked hid hterm) hforms.2 hrest hlater
        exact ⟨hdone, List.forall_mem_cons.2 ⟨hterm, hformals⟩⟩
    | function | enumeration | record | space | library | placeholder =>
      exact ih h hforms.2 hrest hown

/-- The cases of an enumeration keep the invariant: each is a function from types of the enclosure
to the enumeration. -/
theorem typeCases (h : g.WellScoped own walked (o :: around)) (hwalked : o :: around ∈ walked)
    {enumeration : Term} (henumeration : enumeration.Declared own (· = o :: around))
    (hclosed : enumeration.evars = []) {cases : List EnumerationCase}
    (hforms : cases.flatMap EnumerationCase.forms ⊆ o.declaration.forms)
    (htyped : cases.flatMap EnumerationCase.declares ⊆ o.declaration.typedPatterns)
    (hown : Owns own g (typeCases enumeration cases g)) :
    (typeCases enumeration cases g).WellScoped own walked (o :: around) := by
  -- by induction on the cases: one without associated types is of the enumeration itself
  induction cases generalizing g with
  | nil => exact h
  | cons case rest ih =>
    rw [List.flatMap_cons, List.append_subset] at hforms htyped
    cases case with
    | placeholder _ => exact ih h hforms.2 htyped.2 hown
    | case _ name forms =>
      have hid : name.id ∈ o.declaration.typedPatterns := htyped.1 List.mem_cons_self
      cases forms with
      | nil => exact ih (h.setTyped hwalked hid henumeration) hforms.2 htyped.2 hown
      | cons form forms =>
        -- the variables given out for this case are own ones, and so are those for the rest
        obtain ⟨hfirst, hrest⟩ := hown.split (Generator.typeTerms (form :: forms) g).2
          (gives_typeTerms (form :: forms) g).advances.issued
          (advances_typeCases enumeration hclosed rest
            ((Generator.typeTerms (form :: forms) g).2.setPattern name.id _)).issued
        have hterms := h.declared_typeTerms hforms.1 hfirst
        have hcase : (Term.fn ((Generator.typeTerms (form :: forms) g).1.map (Formal.mk none))
            enumeration).Declared own (· = o :: around) := by
          refine Term.declared_fn ?_ henumeration
          intro f hf
          obtain ⟨term, hterm, rfl⟩ := List.mem_map.1 hf
          exact hterms term hterm
        exact ih ((h.typeTerms (form :: forms)).setTyped hwalked hid hcase) hforms.2 htyped.2 hrest

end WellScoped

end Generator

end TreeLang
