import Mathlib.Data.List.Forall2
import TreeLang.Term.Substitution

/-!
# Recursion on terms

The functions on terms recurse through lists of parameters and of arguments. Here each of them is
read as a map over these lists, so that a proof about terms is one induction with the hypothesis for
every parameter and every argument.
-/

namespace TreeLang

/-- The argument with its type changed; the label stays. -/
def Formal.mapType (f : Term → Term) (formal : Formal) : Formal := .mk formal.label (f formal.type)

/-- Mapping a formal maps its type. -/
@[simp] theorem Formal.mapType_type (f : Term → Term) (formal : Formal) :
    (formal.mapType f).type = f formal.type := rfl

namespace Term

/-- Induction on a term with a hypothesis for each parameter and each argument. -/
@[elab_as_elim, induction_eliminator]
theorem induction {motive : Term → Prop}
    (evar : ∀ name, motive (.evar name))
    (gen : ∀ name, motive (.gen name))
    (cons : ∀ name parameters, (∀ p ∈ parameters, motive p) → motive (.cons name parameters))
    (fn : ∀ arguments result, (∀ f ∈ arguments, motive f.type) → motive result →
      motive (.fn arguments result))
    (term : Term) : motive term :=
  @Term.rec motive (fun formal => motive formal.type) (fun terms => ∀ p ∈ terms, motive p)
    (fun formals => ∀ f ∈ formals, motive f.type)
    evar cons gen (fun arguments result ihs ih => fn arguments result ihs ih) (fun _ _ ih => ih)
    nofun (fun _ _ ih ihs => List.forall_mem_cons.2 ⟨ih, ihs⟩)
    nofun (fun _ _ ih ihs => List.forall_mem_cons.2 ⟨ih, ihs⟩) term

/-! ## Variables -/

/-- The variables of several terms are those of each. -/
theorem evarsList_eq_flatMap (terms : List Term) : evarsList terms = terms.flatMap evars := by
  induction terms with
  | nil => rfl
  | cons term rest ih => rw [evarsList, ih, List.flatMap_cons]

/-- The variables of formals are those of their types. -/
theorem evarsFormals_eq_flatMap (formals : List Formal) :
    evarsFormals formals = formals.flatMap fun f => evars f.type := by
  induction formals with
  | nil => rfl
  | cons formal rest ih => cases formal; rw [evarsFormals, ih, List.flatMap_cons, Formal.type]

/-- A variable is the only one in itself. -/
@[simp] theorem mem_evars_evar {x name : String} : x ∈ (evar name).evars ↔ x = name := by
  simp [evars]

/-- A generic parameter is no variable. -/
@[simp] theorem evars_gen (name : String) : (gen name).evars = [] := rfl

/-- The variables of a type are those of its parameters. -/
@[simp] theorem mem_evars_cons {x name : String} {parameters : List Term} :
    x ∈ (cons name parameters).evars ↔ ∃ p ∈ parameters, x ∈ p.evars := by
  simp [evars, evarsList_eq_flatMap]

/-- The variables of a function type are those of its arguments and of its result. -/
@[simp] theorem mem_evars_fn {x : String} {arguments : List Formal} {result : Term} :
    x ∈ (fn arguments result).evars ↔ (∃ f ∈ arguments, x ∈ f.type.evars) ∨ x ∈ result.evars := by
  simp [evars, evarsFormals_eq_flatMap]

/-! ## Replacement -/

/-- Replacing in several terms replaces in each. -/
theorem replaceOutermostList_eq_map (new : Term → Option Term) (terms : List Term) :
    replaceOutermostList new terms = terms.map (replaceOutermost new) := by
  induction terms with
  | nil => rfl
  | cons term rest ih => rw [replaceOutermostList, ih, List.map_cons]

/-- Replacing in formals replaces in their types. -/
theorem replaceOutermostFormals_eq_map (new : Term → Option Term) (formals : List Formal) :
    replaceOutermostFormals new formals = formals.map (Formal.mapType (replaceOutermost new)) := by
  induction formals with
  | nil => rfl
  | cons formal rest ih => cases formal; rw [replaceOutermostFormals, ih, List.map_cons]; rfl

end Term

end TreeLang
