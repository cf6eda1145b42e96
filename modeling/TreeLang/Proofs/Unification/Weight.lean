import TreeLang.Proofs.Unification.Step

/-!
# Weights of constraints

The weight of a constraint is the size of what an assignment makes of its two sides. Every step that
makes no binding leaves less weight, under any assignment.
-/

namespace TreeLang

open Term

namespace Constraint

/-- The size of both sides under an assignment. -/
def weight (θ : Assignment) (c : Constraint) : Nat :=
  (c.head.assign θ).size + (c.tail.assign θ).size

/-- The weight of a list of constraints. -/
def weights (θ : Assignment) : List Constraint → Nat
  | [] => 0
  | c :: rest => c.weight θ + weights θ rest

variable {θ : Assignment}

/-- A constraint weighs what its two sides weigh under the assignment. -/
theorem weight_mk (a b : Term) :
    weight θ ⟨a, b⟩ = (a.assign θ).size + (b.assign θ).size := rfl

/-- Every constraint weighs something, so that dropping one is progress. -/
theorem weight_pos (c : Constraint) : 0 < c.weight θ := by
  have := size_pos (c.head.assign θ)
  rw [weight]
  omega

/-- The weight of a worklist is the sum over its parts. -/
theorem weights_append (cs ds : List Constraint) :
    weights θ (cs ++ ds) = weights θ cs + weights θ ds := by
  induction cs with
  | nil => rw [List.nil_append, weights, Nat.zero_add]
  | cons c rest ih => rw [List.cons_append, weights, weights, ih, Nat.add_assoc]

/-- The constraints between two lists of terms weigh what the lists do. -/
theorem weights_ofTerms {as bs : List Term} (hlen : as.length = bs.length) :
    weights θ (ofTerms as bs) =
      sizeList (as.map (assign θ)) + sizeList (bs.map (assign θ)) := by
  induction as generalizing bs with
  | nil =>
    cases bs with
    | nil => rfl
    | cons b bs => cases hlen
  | cons a as ih =>
    cases bs with
    | nil => cases hlen
    | cons b bs =>
      rw [ofTerms, weights, ih (Nat.succ.inj hlen), weight_mk, List.map_cons, List.map_cons,
        sizeList, sizeList]
      omega

/-- The parts of a constraint weigh less than the whole. -/
theorem Splits.weights_lt {c : Constraint} {parts : List Constraint} (h : c.Splits parts) :
    weights θ parts < c.weight θ := by
  cases h with
  | types name h =>
    rw [weights_ofTerms h, weight_mk, assign_cons, assign_cons, size, size]
    omega
  | @functions as bs h a b =>
    have hformals : ∀ formals : List Formal,
        sizeFormals (formals.map (Formal.mapType (assign θ))) =
          sizeList ((formals.map Formal.type).map (assign θ)) := by
      intro formals
      rw [sizeFormals_eq, List.map_map, List.map_map]
      rfl
    rw [weights_append, ofFormals_eq_ofTerms, weights_ofTerms (by simpa using h), weights, weights,
      weight_mk, weight_mk, assign_fn, assign_fn, size, size, hformals, hformals]
    omega

end Constraint

namespace Work

/-- The weight of the constraints left. -/
def weight (θ : Assignment) (w : Work) : Nat := Constraint.weights θ w.pending

/-- A step binds what the first constraint learns, or keeps the bindings and leaves less weight. -/
theorem Step.bind_or_weight_lt {w w' : Work} (h : Step w w') :
    (∃ c x t rest, c.Learns x t ∧ w.pending = c :: rest ∧
      w'.bindings = w.bindings.insert (evar x) t ∧
      w'.pending = rest.map (Constraint.apply w'.bindings)) ∨
    (w'.bindings = w.bindings ∧ ∀ θ, w'.weight θ < w.weight θ) := by
  cases h with
  | bind s h rest => exact .inl ⟨_, _, _, rest, h, rfl, rfl, rfl⟩
  | same s term rest =>
    refine .inr ⟨rfl, fun θ => ?_⟩
    have := Constraint.weight_pos (θ := θ) ⟨term, term⟩
    simp only [weight, Constraint.weights]
    omega
  | @generic s c h rest =>
    refine .inr ⟨rfl, fun θ => ?_⟩
    have := Constraint.weight_pos (θ := θ) c
    simp only [weight, Constraint.weights]
    omega
  | split s h ne rest =>
    refine .inr ⟨rfl, fun θ => ?_⟩
    have := h.weights_lt (θ := θ)
    simp only [weight, Constraint.weights, Constraint.weights_append]
    omega

end Work

end TreeLang
