import TreeLang.Proofs.Unification.Invariant
import TreeLang.Typing.Check

/-!
# Unification without an end

A variable may be constrained to a term that contains it. The binding then does not take the
variable out of the constraints left: they are unfolded, and the unfolded ones split into the first
ones again. Where the term contains the variable twice, there are never fewer of them.
-/

namespace TreeLang

open Term

/-- Unfolding the term once and splitting it gives back, twice or more often, the constraint between
the variable and the term. The term contains no other variable. -/
structure Term.Breeds (x : String) (t : Term) : Prop where
  only : ∀ y ∈ t.evars, y = x
  splits : ∃ copies, 2 ≤ copies ∧
    Constraint.Splits ⟨t, t.assign (single x t)⟩ (List.replicate copies ⟨evar x, t⟩)

namespace Term.Breeds

variable {x : String} {t : Term}

/-- A type whose parameters are all the variable. -/
theorem of_cons (name x : String) {copies : Nat} (h : 2 ≤ copies) :
    Breeds x (cons name (List.replicate copies (evar x))) := by
  refine ⟨?_, copies, h, ?_⟩
  · intro y hy
    obtain ⟨p, hp, hy⟩ := mem_evars_cons.1 hy
    rw [List.eq_of_mem_replicate hp, mem_evars_evar] at hy
    exact hy
  · have hparts : List.replicate copies ⟨evar x, cons name (List.replicate copies (evar x))⟩ =
        Constraint.ofTerms (List.replicate copies (evar x))
          (List.replicate copies (cons name (List.replicate copies (evar x)))) := by
      rw [Constraint.ofTerms_eq_zipWith, List.zipWith_replicate, Nat.min_self]
    rw [hparts]
    convert Constraint.Splits.types name _ using 2
    · simp [single]
    · simp

/-- A function from the variable to itself. -/
theorem of_fn (label : Option String) (x : String) :
    Breeds x (fn [.mk label (evar x)] (evar x)) := by
  refine ⟨by simp [Formal.type], 2, Nat.le_refl 2, ?_⟩
  generalize ht : fn [.mk label (evar x)] (evar x) = t
  have hassign : t.assign (single x t) = fn [.mk label t] t := by
    subst ht
    simp [single, Formal.mapType, Formal.label, Formal.type]
  rw [hassign]
  nth_rewrite 1 [← ht]
  exact @Constraint.Splits.functions [.mk label (evar x)] [.mk label t] rfl (evar x) t

/-- A term that breeds a variable contains it properly. -/
theorem ne_evar (h : Breeds x t) : t ≠ evar x := by
  obtain ⟨copies, -, hsplits⟩ := h.splits
  rintro rfl
  cases hsplits

/-- A term that breeds a variable contains it. -/
theorem mem_evars (h : Breeds x t) : x ∈ t.evars := by
  obtain ⟨copies, hcopies, hsplits⟩ := h.splits
  have hmem : (⟨evar x, t⟩ : Constraint) ∈ List.replicate copies ⟨evar x, t⟩ :=
    List.mem_replicate.2 ⟨by omega, rfl⟩
  exact (hsplits.mem_evars hmem).1 (by simp)

/-- The constraint between a variable and a term that breeds it is where the variable gets bound. -/
theorem learns (h : Breeds x t) : (⟨evar x, t⟩ : Constraint).Learns x t := by
  refine ⟨.inl rfl, h.ne_evar, ?_⟩
  rintro name rfl
  exact List.not_mem_nil h.mem_evars

/-- Unfolding makes a larger term of it. -/
theorem ne_assign (h : Breeds x t) : t ≠ t.assign (single x t) := by
  intro heq
  refine not_alike_assign_of_mem_evars (θ := single x t) h.mem_evars h.ne_evar ?_
  rw [← heq, single, if_pos rfl]
  exact rfl

/-- The binding of the variable to the term, made over any others, unfolds the variable once. -/
theorem apply_insert (h : Breeds x t) {s : Substitution} (hs : s.Keyed) {term : Term}
    (hterm : ∀ y ∈ term.evars, y = x) :
    (s.insert (evar x) t).apply term = term.assign (single x t) := by
  have hkeyed := hs.insert x t
  -- while the variable is being expanded it is left as it is
  have hstays : (s.insert (evar x) t).applyExcept [evar x] t = t := by
    rw [Substitution.applyExcept, hkeyed.applyWithin_eq_assign]
    refine (assign_congr fun y hy => ?_).trans (assign_evar_self t)
    rw [h.only y hy]
    cases (s.insert (evar x) t).pairs.length with
    | zero => rfl
    | succ d => simp [Substitution.applyWithin, replaceOutermost]
  rw [hkeyed.apply_eq_assign]
  refine assign_congr fun y hy => ?_
  have hlookup : (s.insert (evar x) t).lookup (evar x) = some t := by
    simp [Substitution.lookup_insert]
  rw [hterm y hy, Substitution.apply_eq_applyExcept,
    Substitution.applyExcept_evar List.not_mem_nil hlookup, hstays, single, if_pos rfl]

end Term.Breeds

namespace Work

/-- Work does not end among states that each lead to another of them. -/
theorem run_eq_unfinished {I : Work → Prop} (hstep : ∀ w, I w → ∃ w', Step w w' ∧ I w')
    {w : Work} (hw : I w) (n : Nat) : w.run n = .unfinished := by
  obtain ⟨w', hww', hw'⟩ := hstep w hw
  induction n generalizing w w' with
  | zero => exact hww'.run_zero
  | succ n ih =>
    obtain ⟨w'', hw'w'', hw''⟩ := hstep w' hw'
    rw [hww'.run_succ]
    exact ih hw' w'' hw'w'' hw''

/-- Work that leads to work without an end has none. -/
theorem Reaches.run_eq_unfinished {w w' : Work} (h : Reaches w w')
    (hw' : ∀ n, w'.run n = .unfinished) (n : Nat) : w.run n = .unfinished := by
  by_contra hn
  obtain ⟨k, hk⟩ := h.exists_run_add_eq
  have heq := run_add_of_finished hn k
  rw [hk, hw'] at heq
  exact hn heq.symm

/-- Only unfolded constraints and the constraint between the variable and the term are left: one of
the former, or two of the latter. -/
inductive Circling (x : String) (t : Term) : Work → Prop
  | intro {s : Substitution} (keyed : s.Keyed) (unfolded folded : Nat)
    (h : 1 ≤ unfolded ∨ 2 ≤ folded) :
    Circling x t ⟨s, List.replicate unfolded ⟨t, t.assign (single x t)⟩ ++
      List.replicate folded ⟨evar x, t⟩⟩

/-- There is a step around the circle from everywhere on it. -/
theorem Circling.exists_step {x : String} {t : Term} (ht : Breeds x t) {w : Work}
    (hw : Circling x t w) : ∃ w', Step w w' ∧ Circling x t w' := by
  obtain ⟨copies, hcopies, hsplits⟩ := ht.splits
  obtain @⟨s, keyed, unfolded, folded, hleft⟩ := hw
  cases unfolded with
  | succ unfolded =>
    have hstep := Step.split s hsplits ht.ne_assign
      (List.replicate unfolded ⟨t, t.assign (single x t)⟩ ++ List.replicate folded ⟨evar x, t⟩)
    rw [List.append_assoc, List.replicate_append_replicate] at hstep
    exact ⟨_, hstep, .intro keyed _ _ (.inr (by omega))⟩
  | zero =>
    obtain ⟨folded, rfl⟩ : ∃ n, folded = n + 2 := ⟨folded - 2, by omega⟩
    refine ⟨_, .bind s ht.learns _, ?_⟩
    have hunfold : Constraint.apply (s.insert (evar x) t) ⟨evar x, t⟩ =
        ⟨t, t.assign (single x t)⟩ := by
      rw [Constraint.apply, ht.apply_insert keyed (by simp), ht.apply_insert keyed ht.only,
        assign_evar, single, if_pos rfl]
    have hnext := Circling.intro (x := x) (t := t) (keyed.insert x t) (folded + 1) 0
      (.inl (by omega))
    simpa [hunfold, List.replicate_succ] using hnext

end Work

/-- Unification does not end on two or more constraints of a variable to a term that breeds it. -/
theorem solve_replicate_eq_unfinished {x : String} {t : Term} (ht : Breeds x t) {copies : Nat}
    (hcopies : 2 ≤ copies) (steps : Nat) :
    solve steps (List.replicate copies ⟨evar x, t⟩) = .unfinished :=
  Work.run_eq_unfinished (fun _ => Work.Circling.exists_step ht)
    (.intro Substitution.keyed_empty 0 copies (.inr hcopies)) steps

/-- A function of one argument that returns its argument once and itself twice:
`func f(x: _) -> _ { return x; return f; return f }`. -/
def unendingProgram : Program where
  id := .ofNat 0
  block := [.declaration (.ofNat 1) (.function (.ofNat 2) ⟨.ofNat 3, "f"⟩
    (.placeholder (.ofNat 4)) []
    [.parameter (.ofNat 5) none ⟨.ofNat 6, "x"⟩ (.placeholder (.ofNat 7)) none]
    [.result (.ofNat 8) (.identifier (.ofNat 9) ⟨.ofNat 10, "x", false⟩),
      .result (.ofNat 11) (.identifier (.ofNat 12) ⟨.ofNat 13, "f", false⟩),
      .result (.ofNat 14) (.identifier (.ofNat 15) ⟨.ofNat 16, "f", false⟩)])]

/-- Unification need not end: neither on any constraints, nor on those of a program. -/
theorem not_forall_solve_ends :
    (¬ ∃ steps, solve steps
      [⟨evar "a", cons "P" [evar "a", evar "a"]⟩, ⟨evar "a", cons "P" [evar "a", evar "a"]⟩] ≠
        .unfinished) ∧
    ¬ ∃ steps, (unendingProgram.check steps).solution ≠ .unfinished := by
  constructor
  · rintro ⟨steps, hsteps⟩
    exact hsteps (solve_replicate_eq_unfinished (Breeds.of_cons "P" "a" (Nat.le_refl 2))
      (Nat.le_refl 2) steps)
  · rintro ⟨steps, hsteps⟩
    have hconstraints : (unendingProgram.infer (unendingProgram.resolve none)).constraints =
        [⟨evar "2", evar "1"⟩, ⟨evar "2", fn [.mk (some "x") (evar "1")] (evar "2")⟩,
          ⟨evar "2", fn [.mk (some "x") (evar "1")] (evar "2")⟩] := by rfl
    -- the result is the argument, and so both other results are functions from it to it
    have hbind := Work.Step.bind .empty
      (c := ⟨evar "2", evar "1"⟩) ⟨.inl rfl, by decide, by simp⟩
      [⟨evar "2", fn [.mk (some "x") (evar "1")] (evar "2")⟩,
        ⟨evar "2", fn [.mk (some "x") (evar "1")] (evar "2")⟩]
    have hcircling := Work.Circling.intro (x := "1")
      (t := fn [.mk (some "x") (evar "1")] (evar "1"))
      (Substitution.keyed_empty.insert "2" (evar "1")) 0 2 (.inr (by decide))
    have hunfinished := Work.Reaches.run_eq_unfinished (.single hbind)
      (Work.run_eq_unfinished (fun _ => Work.Circling.exists_step (Breeds.of_fn _ _)) hcircling)
    refine hsteps ?_
    rw [Program.check, hconstraints]
    exact hunfinished steps

end TreeLang
