import TreeLang.Proofs.Term.Agreement
import TreeLang.Proofs.Unification.Invariant

/-!
# Soundness of unification

Unification that ends well, without binding a variable to a term that contains it, makes the two
sides of every constraint agree. The proof goes backward over the run: what the final bindings do to
a constraint is not changed by the bindings that were applied to it on the way.
-/

namespace TreeLang

open Term

/-- Two terms of one head agree when their parts do. -/
theorem Constraint.Splits.agrees {c : Constraint} {parts : List Constraint} {θ : Assignment}
    (h : c.Splits parts) (hparts : ∀ p ∈ parts, Agrees (p.head.assign θ) (p.tail.assign θ)) :
    Agrees (c.head.assign θ) (c.tail.assign θ) := by
  cases h with
  | types name h =>
    have hall := (Constraint.forall_mem_ofTerms_iff
      (R := fun a b => Agrees (a.assign θ) (b.assign θ)) h).1 hparts
    rw [assign_cons, assign_cons]
    exact .cons name (by rwa [List.forall₂_map_left_iff, List.forall₂_map_right_iff])
  | functions h a b =>
    obtain ⟨hformals, hresult⟩ := List.forall_mem_append.1 hparts
    rw [Constraint.ofFormals_eq_ofTerms, Constraint.forall_mem_ofTerms_iff
      (R := fun a b => Agrees (a.assign θ) (b.assign θ)) (by simpa using h),
      List.forall₂_map_left_iff, List.forall₂_map_right_iff] at hformals
    rw [assign_fn, assign_fn]
    refine .fn ?_ (hresult _ (List.mem_singleton.2 rfl))
    rwa [List.forall₂_map_left_iff, List.forall₂_map_right_iff]

/-- Triangular bindings make of a term what they make of it after one of them is applied. -/
theorem Substitution.Triangular.apply_assign_single {s : Substitution} (hs : s.Triangular)
    {x : String} {t : Term} (hmem : (evar x, t) ∈ s.pairs) (term : Term) :
    s.apply (term.assign (single x t)) = s.apply term := by
  rw [hs.keyed.apply_eq_assign, assign_assign, hs.keyed.apply_eq_assign term]
  refine assign_congr fun y _ => ?_
  rw [← hs.keyed.apply_eq_assign]
  by_cases hyx : y = x
  · rw [single, if_pos hyx, hyx, hs.apply_evar hmem]
  · rw [single, if_neg hyx]

namespace Work

/-- The two sides of every constraint left agree once the bindings are applied. -/
def AgreesUnder (s : Substitution) (w : Work) : Prop :=
  ∀ c ∈ w.pending, Agrees (s.apply c.head) (s.apply c.tail)

variable {w w' : Work} {s : Substitution}

/-- What the final bindings make agree after a step agreed before it. -/
theorem Step.agreesUnder (h : Step w w') (hw : w.Ready) (hs : s.Triangular) (hself : s.SelfFree)
    (hsub : w'.bindings.pairs ⊆ s.pairs) (hafter : AgreesUnder s w') : AgreesUnder s w := by
  -- along the cases of a step: the constraint that it takes away agrees, and those that it keeps
  -- agreed before it
  cases h with
  | same s' term rest => exact List.forall_mem_cons.2 ⟨Agrees.refl _, hafter⟩
  | generic s' h rest =>
    refine List.forall_mem_cons.2 ⟨?_, hafter⟩
    obtain ⟨name, h | h⟩ := h <;> rw [h, hs.keyed.apply_eq_assign (gen name), assign_gen]
    · exact .genericLeft name _
    · exact .genericRight _ name
  | @bind s' c x t h rest =>
    have hmem : (evar x, t) ∈ s.pairs :=
      hsub (List.mem_append_right _ (List.mem_singleton.2 rfl))
    obtain ⟨-, avoids⟩ := hw.learns h
    have free : x ∉ t.evars := hself x t hmem
    refine List.forall_mem_cons.2 ⟨?_, fun c' hc' => ?_⟩
    · -- the constraint of the binding itself
      have heq := hs.apply_evar hmem
      rcases h.sides with rfl | ⟨rfl, -⟩ <;> rw [heq] <;> exact Agrees.refl _
    · -- the new binding is one of the final ones, which do not see whether it was applied before
      have happly := hafter _ (List.mem_map_of_mem hc')
      obtain ⟨hhead, htail⟩ := hw.avoids c' (.tail _ hc')
      rwa [Constraint.apply, hw.triangular.apply_insert avoids free hhead,
        hw.triangular.apply_insert avoids free htail, hs.apply_assign_single hmem,
        hs.apply_assign_single hmem] at happly
  | split s' h ne rest =>
    -- the constraints of the parts agree by assumption
    obtain ⟨hrest, hparts⟩ := List.forall_mem_append.1 hafter
    refine List.forall_mem_cons.2 ⟨?_, hrest⟩
    rw [hs.keyed.apply_eq_assign, hs.keyed.apply_eq_assign]
    refine h.agrees fun p hp => ?_
    rw [← hs.keyed.apply_eq_assign, ← hs.keyed.apply_eq_assign]
    exact hparts p hp

/-- The final bindings of a run are triangular, and make every constraint agree. -/
theorem Reaches.triangular_and_agreesUnder (h : Reaches w ⟨s, []⟩) (hw : w.Ready)
    (hself : s.SelfFree) : s.Triangular ∧ AgreesUnder s w := by
  induction h using Relation.ReflTransGen.head_induction_on with
  | refl => exact ⟨hw.triangular, nofun⟩
  | @head w w' hstep hrest ih =>
    have hsub := Reaches.pairs_subset hrest
    obtain ⟨htri, hafter⟩ := ih (hstep.ready hw fun x t hmem => hself x t (hsub hmem))
    exact ⟨htri, hstep.agreesUnder hw htri hself hsub hafter⟩

end Work

/-- **Unification is sound.** When it ends well and no variable is bound to a term that contains it,
every variable is bound once at most, to something else that is not a generic parameter, and the
bindings make the two sides of every constraint agree. -/
theorem solve_sound {steps : Nat} {constraints : List Constraint} {s : Substitution}
    (solved : solve steps constraints = .solved s) (selfFree : s.SelfFree) :
    (s.pairs.map Prod.fst).Nodup ∧
      (∀ pair ∈ s.pairs, ∃ x, pair.1 = evar x ∧ pair.2 ≠ evar x ∧ ∀ name, pair.2 ≠ gen name) ∧
      ∀ c ∈ constraints, Agrees (s.apply c.head) (s.apply c.tail) := by
  have hreaches : Work.Reaches (Work.start constraints) ⟨s, []⟩ :=
    Work.reaches_of_run_eq_solved solved
  obtain ⟨htri, hagrees⟩ :=
    Work.Reaches.triangular_and_agreesUnder hreaches (Work.ready_start constraints) selfFree
  exact ⟨htri.nodup_keys, Work.Reaches.proper hreaches Substitution.proper_empty, hagrees⟩

/-- A variable bound through another one, two functions with different labels and a generic
parameter inside a type: the result of the second function ends as `Array<String>`. -/
theorem solve_sound_chain :
    ∃ s : Substitution,
      solve 20 [⟨evar "a", array (evar "d")⟩,
        ⟨fn [.mk (some "x") (evar "a")] (array (evar "b")),
          fn [.mk (some "y") (array number)] (evar "c")⟩,
        ⟨cons "Pair" [evar "b", gen "T"], cons "Pair" [string, evar "d"]⟩] = .solved s ∧
      s.SelfFree ∧
      Agrees (s.apply (fn [.mk (some "x") (evar "a")] (array (evar "b"))))
        (s.apply (fn [.mk (some "y") (array number)] (evar "c"))) ∧
      s.apply (evar "c") = array string := by
  have hsolved : solve 20 [⟨evar "a", array (evar "d")⟩,
      ⟨fn [.mk (some "x") (evar "a")] (array (evar "b")),
        fn [.mk (some "y") (array number)] (evar "c")⟩,
      ⟨cons "Pair" [evar "b", gen "T"], cons "Pair" [string, evar "d"]⟩] =
      .solved ⟨[(evar "a", array (evar "d")), (evar "c", array (evar "b")),
        (evar "b", string), (evar "d", number)]⟩ := by decide
  have hself : Substitution.SelfFree ⟨[(evar "a", array (evar "d")), (evar "c", array (evar "b")),
      (evar "b", string), (evar "d", number)]⟩ := by
    intro x t hmem
    simp only [List.mem_cons, Prod.mk.injEq, evar.injEq, List.not_mem_nil, or_false] at hmem
    rcases hmem with ⟨rfl, rfl⟩ | ⟨rfl, rfl⟩ | ⟨rfl, rfl⟩ | ⟨rfl, rfl⟩ <;> decide
  obtain ⟨-, -, hagrees⟩ := solve_sound hsolved hself
  exact ⟨_, hsolved, hself, hagrees _ (.tail _ (.head _)), by decide⟩

end TreeLang
