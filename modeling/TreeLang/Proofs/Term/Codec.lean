import TreeLang.Proofs.Json.Fields
import TreeLang.Term.Codec

/-!
# Terms are read back

The decoder recurses on a bound for the depth, so what it gives back is shown by induction on that
bound, with a case for each sort of term.
-/

namespace TreeLang

open Json

/-- The sorts of terms are written with different names. -/
theorem Term.kindsApart : KindsApart Term.kinds := by decide

/-- The JSON form of one argument of a function type. -/
def Formal.toJson : Formal → Json
  | .mk label type => obj [("label", Json.optional str label), ("ty", type.toJson)]

/-- Terms are written one after the other as a list. -/
theorem Term.arr_toJsons (terms : List Term) :
    arr (Term.toJsons terms) = list Term.toJson terms :=
  arr_eq_list rfl (fun _ _ => rfl) terms

/-- Formals are written one after the other as a list. -/
theorem Formal.arr_toJsons (formals : List Formal) :
    arr (Formal.toJsons formals) = list Formal.toJson formals :=
  arr_eq_list rfl (fun formal _ => by cases formal; rfl) formals

/-- Terms and the arguments of function types are read back, down to a depth. -/
structure Term.ReadsBack (n : Nat) : Prop where
  term : ∀ nested, Json.ReadsBack n Term.toJson (Term.ofJsonAt? n nested)
  formal : Json.ReadsBack n Formal.toJson (Formal.ofJsonAt? n)

variable {n : Nat}

/-- A term is read back when its parts are, one level less deep. -/
theorem Term.ReadsBack.term_succ (h : Term.ReadsBack n) (nested : Bool) :
    Json.ReadsBack (n + 1) Term.toJson (Term.ofJsonAt? (n + 1) nested) := by
  intro term hdepth
  cases term with
  | evar name =>
    rw [Term.ofJsonAt?, Term.toJson, variant?_obj Term.kindsApart rfl]
    simp [Fields.required]
  | cons name parameters =>
    rw [Term.toJson, Term.arr_toJsons] at hdepth ⊢
    obtain ⟨-, -, hparameters⟩ := depth_obj_le_succ.1 hdepth
    rw [Term.ofJsonAt?, variant?_obj Term.kindsApart rfl]
    simp [Fields.required, (h.term true).list _ hparameters]
  | gen name =>
    rw [Term.ofJsonAt?, Term.toJson, variant?_obj Term.kindsApart rfl]
    simp [Fields.required]
  | fn arguments result =>
    rw [Term.toJson, Formal.arr_toJsons] at hdepth ⊢
    obtain ⟨-, harguments, hresult⟩ := depth_obj_le_succ.1 hdepth
    rw [Term.ofJsonAt?, variant?_obj Term.kindsApart rfl]
    simp [Fields.required, h.formal.list _ harguments, h.term true _ hresult]

/-- A formal is read back when its type is, one level less deep. -/
theorem Term.ReadsBack.formal_succ (h : Term.ReadsBack n) :
    Json.ReadsBack (n + 1) Formal.toJson (Formal.ofJsonAt? (n + 1)) := by
  intro formal hdepth
  obtain ⟨label, type⟩ := formal
  rw [Formal.toJson] at hdepth ⊢
  obtain ⟨hlabel, htype⟩ := depth_obj_le_succ.1 hdepth
  rw [Formal.ofJsonAt?, record?_obj (by simp)]
  simp [readsBack_str.optional str_ne_null hlabel, Fields.required, h.term true _ htype]

/-- Terms and formals are read back down to any depth. -/
theorem Term.readsBack (n : Nat) : Term.ReadsBack n := by
  induction n with
  | zero => exact ⟨fun nested => .zero, .zero⟩
  | succ n ih => exact ⟨ih.term_succ, ih.formal_succ⟩

/-- Terms are read back. -/
theorem Term.ofJson?_toJson (term : Term) : Term.ofJson? term.toJson = some term :=
  (Term.readsBack _).term false term (Nat.le_refl _)

/-- Constraints are read back. -/
theorem Constraint.ofJson?_toJson (c : Constraint) : Constraint.ofJson? c.toJson = some c := by
  rw [Constraint.toJson, Constraint.ofJson?, record?_obj (by simp)]
  simp [Fields.required, Term.ofJson?_toJson]

end TreeLang
