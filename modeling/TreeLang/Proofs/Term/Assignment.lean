import TreeLang.Proofs.Term.Basic

/-!
# Assignments

An assignment gives a term to every type variable, all at once. Two terms are alike when they differ
in the labels of function arguments at most. A variable inside a larger term is assigned less than
the whole term, whatever the assignment, so the two are never assigned alike terms.
-/

namespace TreeLang

/-- A term for every type variable. -/
abbrev Assignment := String → Term

namespace Term

/-- The term with each variable replaced by what is assigned to it. -/
def assign (θ : Assignment) (term : Term) : Term :=
  term.replaceOutermost fun
    | evar name => some (θ name)
    | _ => none

variable {θ η : Assignment} {x name : String} {a b : Term}

/-- A variable gets the term that is assigned to it. -/
@[simp] theorem assign_evar : (evar name).assign θ = θ name := rfl

/-- Nothing is assigned to a generic parameter. -/
@[simp] theorem assign_gen : (gen name).assign θ = gen name := rfl

/-- An assignment goes into the parameters of a type. -/
@[simp] theorem assign_cons {parameters : List Term} :
    (cons name parameters).assign θ = cons name (parameters.map (assign θ)) := by
  simp only [assign, replaceOutermost, replaceOutermostList_eq_map]
  rfl

/-- An assignment goes into the arguments and the result of a function type, and leaves labels
alone. -/
@[simp] theorem assign_fn {arguments : List Formal} {result : Term} :
    (fn arguments result).assign θ =
      fn (arguments.map (Formal.mapType (assign θ))) (result.assign θ) := by
  simp only [assign, replaceOutermost, replaceOutermostFormals_eq_map]
  rfl

/-- Only what is assigned to the variables of a term matters. -/
theorem assign_congr {term : Term} (h : ∀ x ∈ term.evars, θ x = η x) :
    term.assign θ = term.assign η := by
  induction term with
  | evar name => simpa using h
  | gen name => rfl
  | cons name parameters ih =>
    simp only [mem_evars_cons] at h
    simp only [assign_cons, cons.injEq, true_and]
    exact List.map_congr_left fun p hp => ih p hp fun x hx => h x ⟨p, hp, hx⟩
  | fn arguments result ihs ih =>
    simp only [mem_evars_fn] at h
    simp only [assign_fn, fn.injEq]
    refine ⟨List.map_congr_left fun f hf => ?_, ih fun x hx => h x (.inr hx)⟩
    rw [Formal.mapType, Formal.mapType, ihs f hf fun x hx => h x (.inl ⟨f, hf, hx⟩)]

/-- Assigning each variable to itself changes nothing. -/
@[simp] theorem assign_evar_self (term : Term) : term.assign evar = term := by
  induction term with
  | evar name => rfl
  | gen name => rfl
  | cons name parameters ih =>
    rw [assign_cons, List.map_congr_left ih, List.map_id']
  | fn arguments result ihs ih =>
    have hid : ∀ f ∈ arguments, f.mapType (assign evar) = f := by
      rintro ⟨label, type⟩ hf
      rw [Formal.mapType, ihs _ hf]
      rfl
    rw [assign_fn, ih, List.map_congr_left hid, List.map_id']

/-- One assignment after another assigns to each variable what the second one makes of the first. -/
theorem assign_assign (term : Term) :
    (term.assign θ).assign η = term.assign fun x => (θ x).assign η := by
  induction term with
  | evar name => rfl
  | gen name => rfl
  | cons name parameters ih =>
    simp only [assign_cons, List.map_map, cons.injEq, true_and]
    exact List.map_congr_left ih
  | fn arguments result ihs ih =>
    simp only [assign_fn, List.map_map, fn.injEq, ih, and_true]
    refine List.map_congr_left fun f hf => ?_
    simp only [Function.comp_apply, Formal.mapType, ← ihs f hf]
    rfl

/-- The variables after an assignment are those of what is assigned to the variables before. -/
theorem mem_evars_assign {term : Term} :
    x ∈ (term.assign θ).evars ↔ ∃ y ∈ term.evars, x ∈ (θ y).evars := by
  induction term with
  | evar name => simp
  | gen name => simp
  | cons name parameters ih =>
    simp only [assign_cons, mem_evars_cons, List.mem_map]
    grind
  | fn arguments result ihs ih =>
    simp only [assign_fn, mem_evars_fn, List.mem_map, ih]
    grind [Formal.mapType_type]

/-! ## Terms without labels -/

mutual

/-- The term without the labels of its function arguments. -/
def unlabelled : Term → Term
  | evar name => evar name
  | gen name => gen name
  | cons name parameters => cons name (unlabelledList parameters)
  | fn arguments result => fn (unlabelledFormals arguments) (unlabelled result)

/-- Each term of a list without labels. -/
def unlabelledList : List Term → List Term
  | [] => []
  | term :: rest => unlabelled term :: unlabelledList rest

/-- Each argument of a list without labels. -/
def unlabelledFormals : List Formal → List Formal
  | [] => []
  | .mk _ type :: rest => .mk none (unlabelled type) :: unlabelledFormals rest

end

/-- Labels are taken from each term of a list. -/
theorem unlabelledList_eq_map (terms : List Term) :
    unlabelledList terms = terms.map unlabelled := by
  induction terms with
  | nil => rfl
  | cons term rest ih => rw [unlabelledList, ih, List.map_cons]

/-- Labels are taken from formals and from their types. -/
theorem unlabelledFormals_eq_map (formals : List Formal) :
    unlabelledFormals formals = formals.map fun f => .mk none f.type.unlabelled := by
  induction formals with
  | nil => rfl
  | cons formal rest ih => cases formal; rw [unlabelledFormals, ih, List.map_cons]; rfl

/-- Two terms are alike when they are equal up to the labels of function arguments. -/
def Alike (a b : Term) : Prop := a.unlabelled = b.unlabelled

instance : DecidableRel Alike :=
  fun a b => inferInstanceAs (Decidable (a.unlabelled = b.unlabelled))

/-- A term is like itself. -/
theorem Alike.refl (a : Term) : Alike a a := rfl

/-- Likeness goes both ways. -/
theorem Alike.symm (h : Alike a b) : Alike b a := Eq.symm h

/-- Terms that are like a third one are alike. -/
theorem Alike.trans {c : Term} (hab : Alike a b) (hbc : Alike b c) : Alike a c := Eq.trans hab hbc

/-- Types are alike when they have one name and their parameters are alike, one for one. -/
theorem alike_cons_iff {as bs : List Term} {m n : String} :
    Alike (cons m as) (cons n bs) ↔ m = n ∧ List.Forall₂ Alike as bs := by
  simp only [Alike, unlabelled, unlabelledList_eq_map, cons.injEq]
  rw [← List.forall₂_eq_eq_eq, List.forall₂_map_left_iff, List.forall₂_map_right_iff]
  rfl

/-- Function types are alike when the types of their arguments are, one for one and whatever the
labels, and their results. -/
theorem alike_fn_iff {as bs : List Formal} :
    Alike (fn as a) (fn bs b) ↔
      List.Forall₂ (fun f g => Alike f.type g.type) as bs ∧ Alike a b := by
  simp only [Alike, unlabelled, unlabelledFormals_eq_map, fn.injEq]
  rw [← List.forall₂_eq_eq_eq, List.forall₂_map_left_iff, List.forall₂_map_right_iff]
  simp only [Formal.mk.injEq, true_and]

/-- Alike assignments make alike terms of one term. -/
theorem alike_assign {term : Term} (h : ∀ x ∈ term.evars, Alike (θ x) (η x)) :
    Alike (term.assign θ) (term.assign η) := by
  induction term with
  | evar name => simpa using h
  | gen name => exact Alike.refl _
  | cons name parameters ih =>
    simp only [mem_evars_cons] at h
    rw [assign_cons, assign_cons, alike_cons_iff, List.forall₂_map_left_iff,
      List.forall₂_map_right_iff, List.forall₂_same]
    exact ⟨rfl, fun p hp => ih p hp fun x hx => h x ⟨p, hp, hx⟩⟩
  | fn arguments result ihs ih =>
    simp only [mem_evars_fn] at h
    rw [assign_fn, assign_fn, alike_fn_iff, List.forall₂_map_left_iff,
      List.forall₂_map_right_iff, List.forall₂_same]
    exact ⟨fun f hf => ihs f hf fun x hx => h x (.inl ⟨f, hf, hx⟩), ih fun x hx => h x (.inr hx)⟩

/-! ## Size -/

mutual

/-- The number of nodes of a term; labels do not count. -/
def size : Term → Nat
  | evar _ => 1
  | gen _ => 1
  | cons _ parameters => 1 + sizeList parameters
  | fn arguments result => 1 + (sizeFormals arguments + size result)

/-- The number of nodes of a list of terms. -/
def sizeList : List Term → Nat
  | [] => 0
  | term :: rest => size term + sizeList rest

/-- The number of nodes of the types of a list of arguments. -/
def sizeFormals : List Formal → Nat
  | [] => 0
  | .mk _ type :: rest => size type + sizeFormals rest

end

/-- No term is without size. -/
theorem size_pos (term : Term) : 0 < term.size := by
  cases term <;> simp only [size] <;> omega

/-- A term of a list is not larger than the list. -/
theorem size_le_sizeList {terms : List Term} {p : Term} (hp : p ∈ terms) :
    p.size ≤ sizeList terms := by
  induction terms with
  | nil => cases hp
  | cons term rest ih =>
    rw [sizeList]
    rcases List.mem_cons.1 hp with rfl | hp
    · omega
    · have := ih hp
      omega

/-- The size of formals is that of their types. -/
theorem sizeFormals_eq (formals : List Formal) :
    sizeFormals formals = sizeList (formals.map Formal.type) := by
  induction formals with
  | nil => rfl
  | cons formal rest ih => cases formal; rw [sizeFormals, ih]; rfl

/-- Lists of terms that are of one size, one for one, are of one size. -/
theorem sizeList_congr {as bs : List Term} (h : List.Forall₂ (fun a b => a.size = b.size) as bs) :
    sizeList as = sizeList bs := by
  induction h with
  | nil => rfl
  | cons hab _ ih => rw [sizeList, sizeList, hab, ih]

/-- Labels do not count for the size. -/
@[simp] theorem size_unlabelled (term : Term) : term.unlabelled.size = term.size := by
  induction term with
  | evar name => rfl
  | gen name => rfl
  | cons name parameters ih =>
    rw [unlabelled, size, size, unlabelledList_eq_map, sizeList_congr]
    rw [List.forall₂_map_left_iff, List.forall₂_same]
    exact ih
  | fn arguments result ihs ih =>
    rw [unlabelled, size, size, ih, sizeFormals_eq, sizeFormals_eq, unlabelledFormals_eq_map,
      List.map_map, sizeList_congr]
    rw [List.forall₂_map_left_iff, List.forall₂_map_right_iff, List.forall₂_same]
    exact ihs

/-- Terms that are alike are of one size. -/
theorem Alike.size_eq (h : Alike a b) : a.size = b.size := by
  rw [← size_unlabelled a, ← size_unlabelled b, show a.unlabelled = b.unlabelled from h]

/-- A variable inside a larger term is inside a part of it that is assigned less than the whole. -/
theorem exists_part_of_mem_evars {term : Term} (hx : x ∈ term.evars) (hne : term ≠ evar x) :
    ∃ part : Term, x ∈ part.evars ∧ ∀ θ, (part.assign θ).size < (term.assign θ).size := by
  cases term with
  | evar name => exact absurd (by rw [mem_evars_evar.1 hx]) hne
  | gen name => cases hx
  | cons name parameters =>
    obtain ⟨p, hp, hx⟩ := mem_evars_cons.1 hx
    refine ⟨p, hx, fun θ => ?_⟩
    have := size_le_sizeList (List.mem_map_of_mem (f := assign θ) hp)
    rw [assign_cons, size]
    omega
  | fn arguments result =>
    rcases mem_evars_fn.1 hx with ⟨f, hf, hx⟩ | hx
    · refine ⟨f.type, hx, fun θ => ?_⟩
      have := size_le_sizeList (List.mem_map_of_mem (f := assign θ ∘ Formal.type) hf)
      rw [assign_fn, size, sizeFormals_eq, List.map_map]
      simp only [Function.comp_def, Formal.mapType_type] at this ⊢
      omega
    · refine ⟨result, hx, fun θ => ?_⟩
      rw [assign_fn, size]
      omega

/-- What is assigned to a variable is no larger than what is assigned to a term around it. -/
theorem size_le_size_assign {term : Term} (hx : x ∈ term.evars) :
    (θ x).size ≤ (term.assign θ).size := by
  by_cases hne : term = evar x
  · exact Nat.le_of_eq (by rw [hne, assign_evar])
  · -- the recursion goes to the part, which is assigned less
    obtain ⟨part, hpart, hlt⟩ := exists_part_of_mem_evars hx hne
    have := size_le_size_assign hpart
    have := hlt θ
    omega
termination_by (term.assign θ).size
decreasing_by exact hlt θ

/-- A variable and a larger term around it are never assigned alike terms. -/
theorem not_alike_assign_of_mem_evars {term : Term} (hx : x ∈ term.evars) (hne : term ≠ evar x) :
    ¬ Alike (θ x) (term.assign θ) := by
  intro halike
  obtain ⟨part, hpart, hlt⟩ := exists_part_of_mem_evars hx hne
  have hle := size_le_size_assign (θ := θ) hpart
  have heq := halike.size_eq
  have := hlt θ
  omega

end Term

end TreeLang
