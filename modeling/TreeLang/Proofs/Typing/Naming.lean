import TreeLang.Proofs.Term.Generics
import TreeLang.Proofs.Typing.Growth

/-!
# Which variables inference uses where

The term of a pattern is made from a written type, so its variables are new when it is recorded. A
variable that a use has taken before is therefore in no term that a pattern gets later.
`Generator.Advances` is this relation between two states.
-/

namespace TreeLang

namespace Generator

/-- The second state has given out more names than the first one, and the terms that patterns have
got have variables among these only. -/
structure Advances (g g' : Generator) : Prop where
  scope : g'.scope = g.scope
  issued : g.names.issued ≤ g'.names.issued
  patterns : ∀ id term, g'.patternTerm id = some term →
    g.patternTerm id = some term ∨ ∀ x ∈ term.evars, g.names.Issues g'.names x

/-- The second state advances the first one, and has given out some variables. -/
structure Gives (xs : List String) (g g' : Generator) : Prop where
  advances : g.Advances g'
  issues : ∀ x ∈ xs, g.names.Issues g'.names x

variable {xs ys : List String} {g g₁ g₂ : Generator}

namespace Advances

/-- A state has advanced from itself, with nothing given out. -/
theorem refl (g : Generator) : g.Advances g := ⟨rfl, Nat.le_refl _, fun _ _ h => .inl h⟩

/-- Patterns that are new in the second step have terms over the second step's variables, which the
first step has not taken. -/
theorem trans (h : g.Advances g₁) (h₁ : g₁.Advances g₂) : g.Advances g₂ where
  scope := h₁.scope.trans h.scope
  issued := Nat.le_trans h.issued h₁.issued
  patterns id term hterm := by
    rcases h₁.patterns id term hterm with hterm | hnew
    · rcases h.patterns id term hterm with hterm | hnew
      · exact .inl hterm
      · exact .inr fun x hx => (hnew x hx).mono_right h₁.issued
    · exact .inr fun x hx => (hnew x hx).mono_left h.issued

/-- A change of neither scope nor pattern terms that gives out names. -/
theorem of_eq (hscope : g₁.scope = g.scope)
    (hpatterns : g₁.inference.patternTerms = g.inference.patternTerms)
    (hissued : g.names.issued ≤ g₁.names.issued) : g.Advances g₁ :=
  ⟨hscope, hissued, fun id term h => .inl (by rwa [patternTerm, ← hpatterns])⟩

end Advances

namespace Gives

/-- No variable is given out by a step that only advances. -/
theorem nil (h : g.Advances g₁) : Gives [] g g₁ := ⟨h, nofun⟩

/-- A step that gives out some variables gives out any of them. -/
theorem subset (h : Gives xs g g₁) (hsubset : ys ⊆ xs) : Gives ys g g₁ :=
  ⟨h.advances, fun x hx => h.issues x (hsubset hx)⟩

/-- Two steps one after the other give out the variables of both. -/
theorem append (h : Gives xs g g₁) (h₁ : Gives ys g₁ g₂) : Gives (xs ++ ys) g g₂ where
  advances := h.advances.trans h₁.advances
  issues x hx := by
    rcases List.mem_append.1 hx with hx | hx
    · exact (h.issues x hx).mono_right h₁.advances.issued
    · exact (h₁.issues x hx).mono_left h.advances.issued

/-- What came before a step that gives out variables may be any advance. -/
theorem after (h : g.Advances g₁) (h₁ : Gives xs g₁ g₂) : Gives xs g g₂ := (nil h).append h₁

/-- The result types of the functions around give out nothing. -/
theorem withResults (h : Gives xs g g₁) (results : List Term) : Gives xs g { g₁ with results } := by
  have hresults : g₁.Advances { g₁ with results } := .of_eq rfl rfl (Nat.le_refl _)
  exact (h.append (nil hresults)).subset (List.subset_append_left _ _)

/-- A pattern may get a term of which the variables are new. -/
theorem setPattern {term : Term} (h : Gives xs g g₁) (hterm : term.evars ⊆ xs) (id : NodeId) :
    Gives xs g (g₁.setPattern id term) where
  advances := by
    refine ⟨h.advances.scope, h.advances.issued, fun other term' hother => ?_⟩
    rw [patternTerm_setPattern] at hother
    by_cases heq : other = id
    · rw [if_pos heq] at hother
      obtain rfl : term = term' := Option.some.inj hother
      exact .inr fun x hx => h.issues x (hterm hx)
    · rw [if_neg heq] at hother
      exact h.advances.patterns other term' hother
  issues := h.issues

end Gives

/-- Node terms play no part in which variables have been given out. -/
theorem advances_setNode (id : NodeId) (term : Term) : g.Advances (g.setNode id term) :=
  .of_eq rfl rfl (Nat.le_refl _)

/-- Constraints play no part in which variables have been given out. -/
theorem advances_constrainKnown (head tail : Option Term) :
    g.Advances (g.constrainKnown head tail) := by
  cases head with
  | none => exact .refl g
  | some head =>
    cases tail with
    | none => exact .refl g
    | some tail => exact .of_eq rfl rfl (Nat.le_refl _)

/-- A fresh variable is given out by the step that makes it. -/
theorem gives_freshEvar (g : Generator) : Gives g.freshEvar.1.evars g g.freshEvar.2 where
  advances := .of_eq rfl rfl (Nat.le_succ _)
  issues x hx := by
    rw [Term.mem_evars_evar.1 hx]
    exact g.names.issues_evar

/-! ## Written types -/

/-- The variables of a function type are those of its arguments and of its result. -/
theorem evars_fn_subset (formals : List Formal) (result : Term) :
    (Term.fn formals result).evars ⊆ (formals.flatMap fun f => f.type.evars) ++ result.evars := by
  intro x hx
  rcases Term.mem_evars_fn.1 hx with ⟨f, hf, hx⟩ | hx
  · exact List.mem_append_left _ (List.mem_flatMap.2 ⟨f, hf, hx⟩)
  · exact List.mem_append_right _ hx

/-- A function type written without labels has the variables of its parameter types and its
result. -/
theorem evars_fn_unlabelled_subset (terms : List Term) (result : Term) :
    (Term.fn (terms.map (Formal.mk none)) result).evars ⊆
      terms.flatMap Term.evars ++ result.evars := by
  have hsubset := evars_fn_subset (terms.map (Formal.mk none)) result
  rwa [List.flatMap_map] at hsubset

mutual

/-- The variables of a written type's term are given out while it is typed: a placeholder's is
fresh, and names have none. -/
theorem gives_typeTerm (form : TypeForm) (g : Generator) :
    Gives (typeTerm form g).1.evars g (typeTerm form g).2 := by
  cases form with
  | named id identifier arguments =>
    rw [typeTerm]
    cases g.genericInScope identifier.name with
    | some unique => exact .nil (.refl g)
    | none =>
      refine (gives_typeTerms arguments g).subset fun x hx => ?_
      rw [Term.mem_evars_cons] at hx
      exact List.mem_flatMap.2 hx
  | function id result parameters =>
    have hparameters := gives_typeTerms parameters g
    have hresult := gives_typeTerm result (typeTerms parameters g).2
    rw [typeTerm]
    exact (hparameters.append hresult).subset (evars_fn_unlabelled_subset _ _)
  | placeholder id => exact gives_freshEvar g

theorem gives_typeTerms (forms : List TypeForm) (g : Generator) :
    Gives ((typeTerms forms g).1.flatMap Term.evars) g (typeTerms forms g).2 := by
  cases forms with
  | nil => exact .nil (.refl g)
  | cons form rest =>
    rw [typeTerms, List.flatMap_cons]
    exact (gives_typeTerm form g).append (gives_typeTerms rest (typeTerm form g).2)

end

/-! ## Declarations -/

/-- Generic parameters get names, and their terms have no variables. -/
theorem nameGenerics_spec (patterns : List Pattern) (names : NameSupply) :
    names.issued ≤ (nameGenerics patterns names).2.2.issued ∧
      (nameGenerics patterns names).1.flatMap Term.evars = [] := by
  induction patterns generalizing names with
  | nil => exact ⟨Nat.le_refl _, rfl⟩
  | cons pattern rest ih =>
    obtain ⟨hissued, hterms⟩ := ih (names.genericName pattern.name).2
    refine ⟨Nat.le_trans (Nat.le_succ _) hissued, ?_⟩
    rw [nameGenerics, List.flatMap_cons, Term.evars_gen, List.nil_append]
    exact hterms

/-- A declaration's generic parameters get names, and no pattern gets a term. -/
theorem advances_pushGenerics (declaration : Declaration) (g : Generator) :
    g.Advances (g.pushGenerics declaration).2 :=
  .of_eq rfl rfl (nameGenerics_spec declaration.genericPatterns g.names).1

/-- A type of which the parameters are the generic ones of its declaration has no variables. -/
theorem evars_cons_pushGenerics (declaration : Declaration) (g : Generator) (name : String) :
    (Term.cons name (g.pushGenerics declaration).1).evars = [] :=
  (Term.evarsList_eq_flatMap _).trans (nameGenerics_spec declaration.genericPatterns g.names).2

/-- Every parameter's pattern gets the term of its written type, whose variables are given out
there. -/
theorem gives_parameterFormals (parameters : List Parameter) (g : Generator) :
    Gives ((parameterFormals parameters g).1.flatMap fun f => f.type.evars) g
      (parameterFormals parameters g).2 := by
  induction parameters generalizing g with
  | nil => exact .nil (.refl g)
  | cons parameter rest ih =>
    cases parameter with
    | placeholder id => exact ih g
    | parameter id externalName localName form defaultValue =>
      have htype := (gives_typeTerm form g).setPattern (List.Subset.refl _) localName.id
      exact htype.append (ih _)

/-- Every member's pattern gets the term of its written type, whose variables are given out
there. -/
theorem gives_memberFormals (declarations : List Declaration) (g : Generator) :
    Gives ((memberFormals declarations g).1.flatMap fun f => f.type.evars) g
      (memberFormals declarations g).2 := by
  induction declarations generalizing g with
  | nil => exact .nil (.refl g)
  | cons declaration rest ih =>
    cases declaration with
    | value id name form initializer =>
      cases form with
      | none => exact ih g
      | some form =>
        have htype := (gives_typeTerm form g).setPattern (List.Subset.refl _) name.id
        exact htype.append (ih _)
    | function | enumeration | record | space | library | placeholder => exact ih g

/-- A case's pattern gets a function from its associated types to the enumeration, which has no
variables of its own. -/
theorem advances_typeCases (enumeration : Term) (henumeration : enumeration.evars = [])
    (cases : List EnumerationCase) (g : Generator) :
    g.Advances (typeCases enumeration cases g) := by
  induction cases generalizing g with
  | nil => exact .refl g
  | cons case rest ih =>
    cases case with
    | placeholder id => exact ih g
    | case id name forms =>
      -- a case without values has the type of the enumeration, the others are functions to it
      cases forms with
      | nil =>
        have hsubset : enumeration.evars ⊆ [] := List.subset_nil.2 henumeration
        exact ((Gives.nil (.refl g)).setPattern hsubset name.id).advances.trans (ih _)
      | cons form forms =>
        have hterms := gives_typeTerms (form :: forms) g
        have hsubset := evars_fn_unlabelled_subset (typeTerms (form :: forms) g).1 enumeration
        rw [henumeration, List.append_nil] at hsubset
        exact (hterms.setPattern hsubset name.id).advances.trans (ih _)

/-! ## Expressions -/

/-- A use takes names for the generic parameters of what it refers to, or one if that has no
term. -/
theorem advances_useTerm (id : NodeId) (g : Generator) : g.Advances (g.useTerm id).2 := by
  rw [useTerm]
  cases (g.scope.patternFor id).bind g.patternTerm with
  | some term => exact .of_eq rfl rfl (term.isInstance_instantiate g.names).1
  | none => exact (gives_freshEvar g).advances

/-- A use takes fresh variables for its target's generics, and no pattern gets a term. -/
theorem advances_typeUse (id : NodeId) (g : Generator) : g.Advances (g.typeUse id) :=
  (advances_useTerm id g).trans (advances_setNode _ _)

/-- The constraints of a call's arguments give out nothing. -/
theorem advances_constrainArguments (formals : List Formal) (position : Nat)
    (arguments : List Argument) (g : Generator) :
    g.Advances (constrainArguments formals position arguments g) := by
  induction arguments generalizing position g with
  | nil => exact .refl g
  | cons argument rest ih =>
    cases argument with
    | placeholder id => exact ih _ g
    | argument id label expression => exact (advances_constrainKnown _ _).trans (ih _ _)

/-- The constraints of an array's items give out nothing. -/
theorem advances_constrainItems (element : Term) (items : List Expression) (g : Generator) :
    g.Advances (constrainItems element items g) := by
  induction items generalizing g with
  | nil => exact .refl g
  | cons item rest ih => exact (advances_constrainKnown _ _).trans (ih _)

/-- A literal's term takes at most one fresh variable, that of an array's items. -/
theorem advances_literalTerm (literal : Literal) (g : Generator) :
    g.Advances (g.literalTerm literal).2 := by
  cases literal with
  | array id items =>
    exact (gives_freshEvar g).advances.trans (advances_constrainItems _ items _)
  | none | boolean | number | string | color => exact .refl g

/-- A call has the result of its callee's function type, and no pattern gets a term. -/
theorem advances_typeCall (id : NodeId) (callee : Expression) (arguments : List Argument)
    (g : Generator) : g.Advances (g.typeCall id callee arguments) := by
  rcases typeCall_eq_or id callee arguments g with ⟨formals, result, -, heq⟩ | ⟨error, heq⟩
  · rw [heq]
    exact (advances_constrainArguments formals 0 arguments g).trans (advances_setNode _ _)
  · rw [heq]
    exact .of_eq rfl rfl (Nat.le_refl _)

/-! ## Visits -/

/-- The first visit of a declaration advances, one kind of declaration at a time. -/
theorem advances_enterDeclaration (declaration : Declaration) (control : Control) (g : Generator) :
    g.Advances (g.enterDeclaration declaration control).2 := by
  cases declaration with
  | function id name result generics parameters block =>
    -- the generics are named first, then the parameters and the result are typed, and their
    -- function type goes to the name
    have hpush := advances_pushGenerics (.function id name result generics parameters block) g
    have hparameters := gives_parameterFormals parameters
      (g.pushGenerics (.function id name result generics parameters block)).2
    have hresult := (Gives.after hpush hparameters).append (gives_typeTerm result _)
    exact ((hresult.withResults _).setPattern (evars_fn_subset _ _) name.id).advances
  | record id name generics declarations =>
    have hpush := advances_pushGenerics (.record id name generics declarations) g
    have hmembers := Gives.after hpush (gives_memberFormals declarations
      (g.pushGenerics (.record id name generics declarations)).2)
    have hsubset := evars_fn_subset (memberFormals declarations
      (g.pushGenerics (.record id name generics declarations)).2).1
      (.cons name.name (g.pushGenerics (.record id name generics declarations)).1)
    -- the record's own type has its generics for parameters, and no variables
    rw [evars_cons_pushGenerics, List.append_nil] at hsubset
    exact (hmembers.setPattern hsubset name.id).advances
  | enumeration id name generics cases =>
    have hpush := advances_pushGenerics (.enumeration id name generics cases) g
    exact hpush.trans
      (advances_typeCases _ (evars_cons_pushGenerics (.enumeration id name generics cases) g _)
        cases _)
  | value id name form initializer =>
    rw [enterDeclaration]
    split <;> exact .refl g
  | space | library | placeholder => exact .refl g

/-- Every first visit advances. -/
theorem advances_enter (node : Node) (control : Control) (g : Generator) :
    g.Advances (g.enter node control).2 := by
  cases node with
  | declaration declaration => exact advances_enterDeclaration declaration control g
  | statement statement =>
    cases statement with
    | loop id pattern iterated block =>
      exact ((gives_freshEvar g).setPattern (List.Subset.refl _) pattern.id).advances
    | declaration | branch | expression | result | placeholder => exact .refl g
  | parameter parameter =>
    cases parameter with
    | placeholder id => exact .refl g
    | parameter id externalName localName form defaultValue =>
      cases defaultValue <;> exact .refl g
  | expression expression =>
    cases expression with
    | identifier id used => exact advances_typeUse id g
    | member id base name => exact advances_typeUse id g
    | placeholder id => exact (gives_freshEvar g).advances.trans (advances_setNode _ _)
    | binary | call | literal => exact .refl g
  | program | pattern | identifier | typeForm | literal | generic | case | argument =>
    exact .refl g

/-- Every second visit advances. -/
theorem advances_leave (node : Node) (g : Generator) : g.Advances (g.leave node) := by
  -- constraints and node terms give out nothing, which leaves the written types, calls and literals
  cases node with
  | declaration declaration =>
    cases declaration with
    | function | record | enumeration => exact .of_eq rfl rfl (Nat.le_refl _)
    | value id name form initializer =>
      cases form with
      | none => exact .refl g
      | some form =>
        cases initializer with
        | none => exact .refl g
        | some initializer =>
          have htype := (gives_typeTerm form g).setPattern (List.Subset.refl _) name.id
          exact htype.advances.trans (advances_constrainKnown _ _)
    | space | library | placeholder => exact .refl g
  | statement statement =>
    cases statement with
    | branch | loop | result => exact advances_constrainKnown _ _
    | declaration | expression | placeholder => exact .refl g
  | parameter parameter =>
    cases parameter with
    | placeholder id => exact .refl g
    | parameter id externalName localName form defaultValue =>
      cases defaultValue with
      | none => exact .refl g
      | some value => exact advances_constrainKnown _ _
  | expression expression =>
    cases expression with
    | binary id left right operator =>
      rw [leave, leaveExpression]
      split
      · exact (advances_constrainKnown _ _).trans (advances_setNode _ _)
      · exact .refl g
    | call id callee arguments => exact advances_typeCall id callee arguments g
    | literal id literal =>
      exact ((advances_literalTerm literal g).trans (advances_setNode _ _)).trans
        (advances_setNode _ _)
    | identifier | member | placeholder => exact .refl g
  | program | pattern | identifier | typeForm | literal | generic | case | argument =>
    exact .refl g

/-- Every visit gives out names, and only new variables to patterns. -/
theorem advances_visit (node : Node) (control : Control) (g : Generator) :
    g.Advances (visit node control g).2 := by
  rw [visit]
  split
  · exact advances_leave node g
  · exact advances_enter node control g

end Generator

end TreeLang
