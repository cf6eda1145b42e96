import TreeLang.Proofs.Term.Basic
import TreeLang.Term.Fresh

/-!
# Generic parameters and fresh variables

A use of a generic declaration has its term with variables in the place of the generic parameters:
one and the same variable for all occurrences of a parameter, different variables for different
parameters, and all of them new from the supply.
-/

namespace TreeLang

/-- The name of a type variable that the supply gives out between two of its states. -/
def NameSupply.Issues (before after : NameSupply) (x : String) : Prop :=
  ∃ n, before.issued < n ∧ n ≤ after.issued ∧ x = toString n

namespace NameSupply

variable {names names₁ names₂ : NameSupply} {x : String}

/-- A name that is given out after a later number is given out after an earlier one. -/
theorem Issues.mono_left (h : Issues names₁ names₂ x) (hle : names.issued ≤ names₁.issued) :
    Issues names names₂ x := by
  obtain ⟨n, hlt, hn, rfl⟩ := h
  exact ⟨n, by omega, hn, rfl⟩

/-- A name that is given out before an earlier number is given out before a later one. -/
theorem Issues.mono_right (h : Issues names names₁ x) (hle : names₁.issued ≤ names₂.issued) :
    Issues names names₂ x := by
  obtain ⟨n, hlt, hn, rfl⟩ := h
  exact ⟨n, hlt, by omega, rfl⟩

/-- Different numbers give different names. -/
theorem toString_injective {n m : Nat} (h : toString n = toString m) : n = m := by
  have hdigits : Nat.toDigits 10 n = Nat.toDigits 10 m := String.ofList_injective h
  have hn : Nat.ofDigitChars 10 (Nat.toDigits 10 n) 0 = n := Nat.ofDigitChars_ten_toDigits
  rw [← hn, hdigits, Nat.ofDigitChars_ten_toDigits]

/-- A name that has been given out is not given out again. -/
theorem Issues.not_of_le {names₃ : NameSupply} (h : Issues names names₁ x)
    (hle : names₁.issued ≤ names₂.issued) : ¬ Issues names₂ names₃ x := by
  obtain ⟨n, hlt, hn, rfl⟩ := h
  rintro ⟨m, hm, -, heq⟩
  have hsame : n = m := toString_injective heq
  omega

/-- A fresh variable is given out by the supply that it is drawn from. -/
theorem issues_evar (names : NameSupply) :
    Issues names names.evar.2 (toString (names.issued + 1)) :=
  ⟨names.issued + 1, by omega, Nat.le_refl _, rfl⟩

end NameSupply

namespace Term

mutual

/-- The names of the generic parameters in a term, from left to right. -/
def generics : Term → List String
  | evar _ => []
  | gen name => [name]
  | cons _ parameters => genericsList parameters
  | fn arguments result => genericsFormals arguments ++ generics result

/-- The names of the generic parameters in a list of terms. -/
def genericsList : List Term → List String
  | [] => []
  | term :: rest => generics term ++ genericsList rest

/-- The names of the generic parameters in a list of arguments. -/
def genericsFormals : List Formal → List String
  | [] => []
  | .mk _ type :: rest => generics type ++ genericsFormals rest

end

/-- The generic parameters of several terms are those of each. -/
theorem genericsList_eq_flatMap (terms : List Term) :
    genericsList terms = terms.flatMap generics := by
  induction terms with
  | nil => rfl
  | cons term rest ih => rw [genericsList, ih, List.flatMap_cons]

/-- The generic parameters of formals are those of their types. -/
theorem genericsFormals_eq_flatMap (formals : List Formal) :
    genericsFormals formals = formals.flatMap fun f => generics f.type := by
  induction formals with
  | nil => rfl
  | cons formal rest ih => cases formal; rw [genericsFormals, ih, List.flatMap_cons, Formal.type]

/-- The term with a variable in the place of each generic parameter. -/
def withVariables (ρ : String → String) (term : Term) : Term :=
  term.replaceOutermost fun
    | gen name => some (evar (ρ name))
    | _ => none

section Variables

variable {ρ : String → String} {name : String}

/-- A variable is no generic parameter, so it stays. -/
@[simp] theorem withVariables_evar : (evar name).withVariables ρ = evar name := rfl

/-- A generic parameter becomes its variable. -/
@[simp] theorem withVariables_gen : (gen name).withVariables ρ = evar (ρ name) := rfl

/-- The generic parameters in a type become variables in its parameters. -/
@[simp] theorem withVariables_cons {parameters : List Term} :
    (cons name parameters).withVariables ρ = cons name (parameters.map (withVariables ρ)) := by
  simp only [withVariables, replaceOutermost, replaceOutermostList_eq_map]
  rfl

/-- The generic parameters in a function type become variables in its arguments and its result. -/
@[simp] theorem withVariables_fn {arguments : List Formal} {result : Term} :
    (fn arguments result).withVariables ρ =
      fn (arguments.map (Formal.mapType (withVariables ρ))) (result.withVariables ρ) := by
  simp only [withVariables, replaceOutermost, replaceOutermostFormals_eq_map]
  rfl

/-- The variables of such a term are those of the term itself, and those for its parameters. -/
theorem mem_evars_withVariables {x : String} {term : Term}
    (h : x ∈ (term.withVariables ρ).evars) : x ∈ term.evars ∨ ∃ n ∈ term.generics, x = ρ n := by
  induction term with
  | evar name => exact .inl h
  | gen name => exact .inr ⟨name, List.mem_singleton.2 rfl, mem_evars_evar.1 h⟩
  | cons name parameters ih =>
    rw [withVariables_cons, mem_evars_cons] at h
    obtain ⟨_, hmem, hx⟩ := h
    obtain ⟨p, hp, rfl⟩ := List.mem_map.1 hmem
    rw [mem_evars_cons, generics, genericsList_eq_flatMap]
    rcases ih p hp hx with hx | ⟨n, hn, hx⟩
    · exact .inl ⟨p, hp, hx⟩
    · exact .inr ⟨n, List.mem_flatMap.2 ⟨p, hp, hn⟩, hx⟩
  | fn arguments result ihs ih =>
    rw [withVariables_fn, mem_evars_fn] at h
    rw [mem_evars_fn, generics, genericsFormals_eq_flatMap]
    rcases h with ⟨_, hmem, hx⟩ | hx
    · obtain ⟨f, hf, rfl⟩ := List.mem_map.1 hmem
      rcases ihs f hf hx with hx | ⟨n, hn, hx⟩
      · exact .inl (.inl ⟨f, hf, hx⟩)
      · exact .inr ⟨n, List.mem_append_left _ (List.mem_flatMap.2 ⟨f, hf, hn⟩), hx⟩
    · rcases ih hx with hx | ⟨n, hn, hx⟩
      · exact .inl (.inr hx)
      · exact .inr ⟨n, List.mem_append_right _ hn, hx⟩

end Variables

end Term

/-! ## Renamings -/

namespace Renaming

/-- The choices of a renaming: every parameter has a variable of its own, given out by the supply
since some state of it. -/
structure Issued (start : NameSupply) (r : Renaming) : Prop where
  le : start.issued ≤ r.names.issued
  chosen : ∀ name term, r.chosen.find name = some term →
    ∃ x, start.Issues r.names x ∧ term = .evar x
  injective : ∀ name name' term, r.chosen.find name = some term →
    r.chosen.find name' = some term → name = name'

/-- The second renaming has made the choices of the first one and maybe more. -/
def Extends (r r' : Renaming) : Prop :=
  ∀ name term, r.chosen.find name = some term → r'.chosen.find name = some term

/-- The variables are those that the renaming has chosen. -/
def Agrees (r : Renaming) (ρ : String → String) : Prop :=
  ∀ name x, r.chosen.find name = some (.evar x) → ρ name = x

/-- The variable that a renaming has chosen for a parameter. -/
def choice (r : Renaming) (name : String) : String :=
  (((r.chosen.find name).map Term.evars).bind List.head?).getD name

variable {start : NameSupply} {r r' : Renaming} {ρ : String → String}

/-- A renaming has made its own choices. -/
theorem Extends.refl (r : Renaming) : r.Extends r := fun _ _ h => h

/-- Choices that are kept by two steps are kept by both. -/
theorem Extends.trans {r'' : Renaming} (h : r.Extends r') (h' : r'.Extends r'') : r.Extends r'' :=
  fun name term hterm => h' name term (h name term hterm)

/-- Variables that a later renaming has chosen are those of an earlier one. -/
theorem Agrees.before (h : r'.Agrees ρ) (hextends : r.Extends r') : r.Agrees ρ :=
  fun name x hx => h name x (hextends name (.evar x) hx)

/-- The choices of a renaming are what it has chosen. -/
theorem agrees_choice (r : Renaming) : r.Agrees r.choice := by
  intro name x hfind
  rw [choice, hfind]
  rfl

/-- The renaming before anything is replaced. -/
theorem Issued.initial (names : NameSupply) : Issued names { names } :=
  ⟨Nat.le_refl _, nofun, nofun⟩

/-- A parameter gets a variable of its own. -/
theorem Issued.put (h : r.Issued start) (name : String) :
    Issued start { names := r.names.evar.2, chosen := r.chosen.put name r.names.evar.1 } where
  le := Nat.le_succ_of_le h.le
  chosen other term hterm := by
    by_cases heq : other = name
    · rw [heq, Table.find_put_self] at hterm
      cases hterm
      exact ⟨_, r.names.issues_evar.mono_left h.le, rfl⟩
    · rw [Table.find_put_of_ne heq] at hterm
      obtain ⟨x, hx, rfl⟩ := h.chosen other term hterm
      exact ⟨x, hx.mono_right (Nat.le_succ _), rfl⟩
  injective first second term hfirst hsecond := by
    -- the new variable is none of those that were chosen before
    have hfresh : ∀ other, r.chosen.find other ≠ some r.names.evar.1 := by
      intro other hother
      obtain ⟨x, hx, heq⟩ := h.chosen other _ hother
      cases heq
      exact hx.not_of_le (Nat.le_refl _) r.names.issues_evar
    by_cases hname : first = name <;> by_cases hname' : second = name
    · rw [hname, hname']
    · rw [hname, Table.find_put_self] at hfirst
      rw [Table.find_put_of_ne hname', ← hfirst] at hsecond
      exact absurd hsecond (hfresh second)
    · rw [hname', Table.find_put_self] at hsecond
      rw [Table.find_put_of_ne hname, ← hsecond] at hfirst
      exact absurd hfirst (hfresh first)
    · rw [Table.find_put_of_ne hname] at hfirst
      rw [Table.find_put_of_ne hname'] at hsecond
      exact h.injective first second term hfirst hsecond

/-- What replacing the parameters in some syntax comes to: with the variables that are chosen in the
end, it is the replacement that is given. -/
structure Replaces {α : Type} (start : NameSupply) (r : Renaming) (generics : List String)
    (replaced : (String → String) → α) (result : α × Renaming) : Prop where
  issued : result.2.Issued start
  kept : r.Extends result.2
  chosen : ∀ name ∈ generics, (result.2.chosen.find name).isSome
  eq : ∀ ρ, result.2.Agrees ρ → result.1 = replaced ρ

end Renaming

namespace Term

open Renaming (Replaces Issued)

variable {start : NameSupply} {r : Renaming}

/-- Choosing a variable replaces a single parameter. -/
theorem replaces_variableFor (hr : r.Issued start) (name : String) :
    Replaces start r [name] (fun ρ => evar (ρ name)) (r.variableFor name) := by
  rw [Renaming.variableFor]
  cases hfound : r.chosen.find name with
  | some term =>
    obtain ⟨x, -, rfl⟩ := hr.chosen name term hfound
    have hchosen : (r.chosen.find name).isSome := by rw [hfound]; rfl
    refine ⟨hr, .refl r, List.forall_mem_singleton.2 hchosen, fun ρ hρ => ?_⟩
    rw [hρ name x hfound]
  | none =>
    refine ⟨hr.put name, fun other term hother => ?_, List.forall_mem_singleton.2 ?_, ?_⟩
    · have hne : other ≠ name := by
        rintro rfl
        cases hfound.symm.trans hother
      exact (Table.find_put_of_ne hne _ _).trans hother
    · exact (congrArg Option.isSome (Table.find_put_self _ _ _)).trans rfl
    · intro ρ hρ
      rw [hρ name _ (Table.find_put_self _ _ _)]
      rfl

/-- Where two parts are replaced one after the other, their parameters have variables in the end. -/
theorem chosen_append {α β : Type} {r : Renaming} {first second : List String}
    {f : (String → String) → α} {g : (String → String) → β} {result : α × Renaming}
    {result' : β × Renaming} (h : Replaces start r first f result)
    (h' : Replaces start result.2 second g result') :
    ∀ name ∈ first ++ second, (result'.2.chosen.find name).isSome := by
  refine List.forall_mem_append.2 ⟨fun name hname => ?_, h'.chosen⟩
  obtain ⟨term, hterm⟩ := Option.isSome_iff_exists.1 (h.chosen name hname)
  rw [h'.kept name term hterm]
  rfl

/-- Replacing in several terms replaces in each, with the choices that were made before. -/
theorem replaces_list {terms : List Term}
    (h : ∀ term ∈ terms, ∀ r : Renaming, r.Issued start →
      Replaces start r term.generics (fun ρ => term.withVariables ρ) (term.replaceGenerics r))
    (hr : r.Issued start) :
    Replaces start r (terms.flatMap generics) (fun ρ => terms.map (withVariables ρ))
      (replaceGenericsList terms r) := by
  induction terms generalizing r with
  | nil => exact ⟨hr, .refl r, nofun, fun _ _ => rfl⟩
  | cons term rest ih =>
    obtain ⟨hterm, hrest⟩ := List.forall_mem_cons.1 h
    have hfirst := hterm r hr
    have hothers := ih hrest hfirst.issued
    have hchosen := chosen_append hfirst hothers
    rw [List.flatMap_cons]
    refine ⟨hothers.issued, hfirst.kept.trans hothers.kept, hchosen, ?_⟩
    intro ρ hρ
    rw [List.map_cons, ← hothers.eq ρ hρ, ← hfirst.eq ρ (hρ.before hothers.kept)]
    rfl

/-- Replacing in formals replaces in their types, with the choices that were made before. -/
theorem replaces_formals {formals : List Formal}
    (h : ∀ f ∈ formals, ∀ r : Renaming, r.Issued start →
      Replaces start r f.type.generics (fun ρ => f.type.withVariables ρ) (f.type.replaceGenerics r))
    (hr : r.Issued start) :
    Replaces start r (formals.flatMap fun f => f.type.generics)
      (fun ρ => formals.map (Formal.mapType (withVariables ρ)))
      (replaceGenericsFormals formals r) := by
  induction formals generalizing r with
  | nil => exact ⟨hr, .refl r, nofun, fun _ _ => rfl⟩
  | cons formal rest ih =>
    obtain ⟨label, type⟩ := formal
    obtain ⟨htype, hrest⟩ := List.forall_mem_cons.1 h
    have hfirst := htype r hr
    have hothers := ih hrest hfirst.issued
    have hchosen := chosen_append hfirst hothers
    rw [List.flatMap_cons]
    refine ⟨hothers.issued, hfirst.kept.trans hothers.kept, hchosen, ?_⟩
    intro ρ hρ
    rw [List.map_cons, ← hothers.eq ρ hρ, Formal.mapType, ← hfirst.eq ρ (hρ.before hothers.kept)]
    rfl

/-- Replacing the parameters in a term puts the variables in their places that are chosen in the
end. -/
theorem replaces_generics (term : Term) (hr : r.Issued start) :
    Replaces start r term.generics (fun ρ => term.withVariables ρ) (term.replaceGenerics r) := by
  induction term generalizing r with
  | evar name => exact ⟨hr, .refl r, nofun, fun _ _ => rfl⟩
  | gen name => exact replaces_variableFor hr name
  | cons name parameters ih =>
    have hparameters := replaces_list (fun p hp r hr => ih p hp hr) hr
    rw [generics, genericsList_eq_flatMap]
    refine ⟨hparameters.issued, hparameters.kept, hparameters.chosen, fun ρ hρ => ?_⟩
    rw [withVariables_cons, ← hparameters.eq ρ hρ]
    rfl
  | fn arguments result ihs ih =>
    have harguments := replaces_formals (fun f hf r hr => ihs f hf hr) hr
    have hresult := ih harguments.issued
    have hchosen := chosen_append harguments hresult
    rw [generics, genericsFormals_eq_flatMap]
    refine ⟨hresult.issued, harguments.kept.trans hresult.kept, hchosen, fun ρ hρ => ?_⟩
    rw [withVariables_fn, ← hresult.eq ρ hρ, ← harguments.eq ρ (hρ.before hresult.kept)]
    rfl

/-- The term is another one with variables of some kind in the place of its generic parameters, a
different one for each of them. -/
def IsInstance (issues : String → Prop) (term result : Term) : Prop :=
  ∃ ρ : String → String, (∀ name ∈ term.generics, issues (ρ name)) ∧
    (∀ name ∈ term.generics, ∀ name' ∈ term.generics, ρ name = ρ name' → name = name') ∧
    result = term.withVariables ρ

/-- A use replaces the generic parameters by variables that it takes from the supply. -/
theorem isInstance_instantiate (term : Term) (names : NameSupply) :
    names.issued ≤ (term.instantiate names).2.issued ∧
      IsInstance (names.Issues (term.instantiate names).2) term (term.instantiate names).1 := by
  have h := replaces_generics term (.initial names)
  have heq : term.instantiate names = ((term.replaceGenerics { names }).1,
      (term.replaceGenerics { names }).2.names) := rfl
  rw [heq]
  generalize term.replaceGenerics { names } = result at h
  have hchosen : ∀ name ∈ term.generics, ∃ x, names.Issues result.2.names x ∧
      result.2.chosen.find name = some (evar x) := by
    intro name hname
    obtain ⟨chosen, hfind⟩ := Option.isSome_iff_exists.1 (h.chosen name hname)
    obtain ⟨x, hx, rfl⟩ := h.issued.chosen name chosen hfind
    exact ⟨x, hx, hfind⟩
  have hagrees := result.2.agrees_choice
  refine ⟨h.issued.le, result.2.choice, fun name hname => ?_,
    fun name hname name' hname' hsame => ?_, h.eq _ hagrees⟩
  · obtain ⟨x, hx, hfind⟩ := hchosen name hname
    rw [hagrees name x hfind]
    exact hx
  · obtain ⟨x, -, hfind⟩ := hchosen name hname
    obtain ⟨y, -, hfind'⟩ := hchosen name' hname'
    rw [hagrees name x hfind, hagrees name' y hfind'] at hsame
    subst hsame
    exact h.issued.injective name name' _ hfind hfind'

end Term

end TreeLang
