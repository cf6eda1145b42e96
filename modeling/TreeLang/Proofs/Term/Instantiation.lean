import TreeLang.Proofs.Term.Basic
import TreeLang.Term.Fresh

/-!
# Uses of generic declarations

A use of a declaration has fresh variables for all its generic parameters, so no generic parameter
is left in the term of an expression.
-/

namespace TreeLang

/-- No generic parameter occurs in the term. -/
inductive Term.Instantiated : Term → Prop
  | evar (name : String) : Instantiated (.evar name)
  | cons (name : String) {parameters : List Term} (h : ∀ p ∈ parameters, Instantiated p) :
    Instantiated (.cons name parameters)
  | fn {arguments : List Formal} {result : Term} (hs : ∀ f ∈ arguments, Instantiated f.type)
    (h : Instantiated result) : Instantiated (.fn arguments result)

/-- Generic parameters are only replaced by variables. -/
def Renaming.ByVariables (r : Renaming) : Prop :=
  ∀ name term, r.chosen.find name = some term → ∃ x, term = .evar x

namespace Term

variable {r : Renaming}

/-- A term without generic parameters is none of them. -/
theorem Instantiated.ne_gen {term : Term} (h : term.Instantiated) (name : String) :
    term ≠ gen name := by
  rintro rfl
  cases h

/-- A type without parameters has no generic ones. -/
theorem instantiated_named (name : String) : (named name).Instantiated := .cons name nofun

/-- An array has no generic parameters when its elements have none. -/
theorem instantiated_array {element : Term} (h : element.Instantiated) :
    (array element).Instantiated :=
  .cons _ (List.forall_mem_singleton.2 h)

/-- What is chosen for a parameter is a variable, and so are the choices after that. -/
theorem variableFor_instantiated (hr : r.ByVariables) (name : String) :
    (r.variableFor name).1.Instantiated ∧ (r.variableFor name).2.ByVariables := by
  rw [Renaming.variableFor]
  cases hfound : r.chosen.find name with
  | some term =>
    obtain ⟨x, rfl⟩ := hr name term hfound
    exact ⟨.evar x, hr⟩
  | none =>
    -- a parameter that is new gets a variable, and the others keep theirs
    refine ⟨.evar _, fun other term hother => ?_⟩
    by_cases heq : other = name
    · rw [heq, Table.find_put_self] at hother
      exact ⟨_, (Option.some.inj hother).symm⟩
    · rw [Table.find_put_of_ne heq] at hother
      exact hr other term hother

/-- The terms of a list lose their generic parameters when each of them does. -/
theorem replaceGenericsList_instantiated {terms : List Term}
    (h : ∀ term ∈ terms, ∀ r : Renaming, r.ByVariables →
      (term.replaceGenerics r).1.Instantiated ∧ (term.replaceGenerics r).2.ByVariables)
    (hr : r.ByVariables) :
    (∀ term ∈ (replaceGenericsList terms r).1, term.Instantiated) ∧
      (replaceGenericsList terms r).2.ByVariables := by
  induction terms generalizing r with
  | nil => exact ⟨nofun, hr⟩
  | cons term rest ih =>
    obtain ⟨hterm, hrest⟩ := List.forall_mem_cons.1 h
    obtain ⟨hfirst, hr⟩ := hterm r hr
    obtain ⟨hothers, hr⟩ := ih hrest hr
    exact ⟨List.forall_mem_cons.2 ⟨hfirst, hothers⟩, hr⟩

/-- The arguments of a list lose their generic parameters when each of them does. -/
theorem replaceGenericsFormals_instantiated {formals : List Formal}
    (h : ∀ f ∈ formals, ∀ r : Renaming, r.ByVariables →
      (f.type.replaceGenerics r).1.Instantiated ∧ (f.type.replaceGenerics r).2.ByVariables)
    (hr : r.ByVariables) :
    (∀ f ∈ (replaceGenericsFormals formals r).1, f.type.Instantiated) ∧
      (replaceGenericsFormals formals r).2.ByVariables := by
  induction formals generalizing r with
  | nil => exact ⟨nofun, hr⟩
  | cons formal rest ih =>
    obtain ⟨label, type⟩ := formal
    obtain ⟨htype, hrest⟩ := List.forall_mem_cons.1 h
    obtain ⟨hfirst, hr⟩ := htype r hr
    obtain ⟨hothers, hr⟩ := ih hrest hr
    exact ⟨List.forall_mem_cons.2 ⟨hfirst, hothers⟩, hr⟩

/-- No generic parameter is left where all were replaced by variables. -/
theorem replaceGenerics_instantiated (term : Term) (hr : r.ByVariables) :
    (term.replaceGenerics r).1.Instantiated ∧ (term.replaceGenerics r).2.ByVariables := by
  induction term generalizing r with
  | evar name => exact ⟨.evar name, hr⟩
  | gen name => exact variableFor_instantiated hr name
  | cons name parameters ih =>
    obtain ⟨hparameters, hr⟩ :=
      replaceGenericsList_instantiated (fun p hp r hr => ih p hp hr) hr
    exact ⟨.cons name hparameters, hr⟩
  | fn arguments result ihs ih =>
    obtain ⟨harguments, hr⟩ :=
      replaceGenericsFormals_instantiated (fun f hf r hr => ihs f hf hr) hr
    obtain ⟨hresult, hr⟩ := ih hr
    exact ⟨.fn harguments hresult, hr⟩

/-- No generic parameter is left at a use. -/
theorem instantiate_instantiated (term : Term) (names : NameSupply) :
    (term.instantiate names).1.Instantiated :=
  (replaceGenerics_instantiated term (r := { names }) nofun).1

end Term

end TreeLang
