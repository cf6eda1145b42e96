import TreeLang.Proofs.Unification.Invariant
import TreeLang.Proofs.Unification.Weight

/-!
# Completeness of unification

An assignment that makes the two sides of every constraint alike is kept by every step: no first
constraint is a clash, each binding holds under the assignment, and the weight of the constraints
left goes down. So the work ends well, and what it finds is most general.
-/

namespace TreeLang

open Term

/-- The assignment makes both sides alike. -/
def Constraint.SolvedBy (θ : Assignment) (c : Constraint) : Prop :=
  Alike (c.head.assign θ) (c.tail.assign θ)

instance (θ : Assignment) (c : Constraint) : Decidable (c.SolvedBy θ) :=
  inferInstanceAs (Decidable (Alike _ _))

/-- The assignment makes each bound variable and what it is bound to alike. -/
def Substitution.HoldsUnder (θ : Assignment) (s : Substitution) : Prop :=
  ∀ x t, (evar x, t) ∈ s.pairs → Alike (θ x) (t.assign θ)

variable {θ : Assignment}

/-- Bindings that hold under an assignment change no term as the assignment sees it. -/
theorem Substitution.HoldsUnder.alike_apply {s : Substitution} (h : s.HoldsUnder θ)
    (hs : s.Keyed) (term : Term) : Alike ((s.apply term).assign θ) (term.assign θ) := by
  have hwithin : ∀ d expanding term,
      Alike ((s.applyWithin d expanding term).assign θ) (term.assign θ) := by
    intro d
    induction d with
    | zero => exact fun _ _ => Alike.refl _
    | succ d ih =>
      intro expanding term
      rw [hs.applyWithin_eq_assign, assign_assign]
      refine alike_assign fun x _ => ?_
      simp only [applyWithin, replaceOutermost]
      split
      · exact Alike.refl _
      · cases hvalue : s.lookup (evar x) with
        | none => exact Alike.refl _
        | some value => exact (ih _ value).trans (h x value (mem_of_lookup hvalue)).symm
  exact hwithin _ _ _

/-- Bindings that hold under some assignment bind no variable to a term that contains it. -/
theorem Substitution.HoldsUnder.selfFree {s : Substitution} (h : s.HoldsUnder θ) (hs : s.Proper) :
    s.SelfFree := by
  intro x t hmem hx
  obtain ⟨y, hy, hne, -⟩ := hs _ hmem
  obtain rfl := evar.inj hy
  exact not_alike_assign_of_mem_evars hx hne (h x t hmem)

/-- Whatever is assigned, a clash stays one. -/
theorem Term.Clash.not_alike {a b : Term} (h : Clash a b) : ¬ Alike (a.assign θ) (b.assign θ) := by
  intro halike
  cases h with
  | name h as bs =>
    rw [assign_cons, assign_cons, alike_cons_iff] at halike
    exact h halike.1
  | parameters h m n =>
    rw [assign_cons, assign_cons, alike_cons_iff] at halike
    exact h (by simpa using halike.2.length_eq)
  | arguments h a b =>
    rw [assign_fn, assign_fn, alike_fn_iff] at halike
    exact h (by simpa using halike.1.length_eq)
  | consFn name as bs b =>
    rw [assign_cons, assign_fn] at halike
    cases halike
  | fnCons as a name bs =>
    rw [assign_cons, assign_fn] at halike
    cases halike

/-- An assignment that solves a constraint solves its parts. -/
theorem Constraint.Splits.solvedBy {c : Constraint} {parts : List Constraint} (h : c.Splits parts)
    (hc : c.SolvedBy θ) : ∀ p ∈ parts, p.SolvedBy θ := by
  cases h with
  | types name h =>
    rw [SolvedBy, assign_cons, assign_cons, alike_cons_iff, List.forall₂_map_left_iff,
      List.forall₂_map_right_iff] at hc
    exact (Constraint.forall_mem_ofTerms_iff h).2 hc.2
  | @functions as bs h a b =>
    rw [SolvedBy, assign_fn, assign_fn, alike_fn_iff, List.forall₂_map_left_iff,
      List.forall₂_map_right_iff] at hc
    obtain ⟨hformals, hresult⟩ := hc
    refine List.forall_mem_append.2 ⟨?_, List.forall_mem_singleton.2 hresult⟩
    rw [Constraint.ofFormals_eq_ofTerms]
    have hlen : (as.map Formal.type).length = (bs.map Formal.type).length := by
      rw [List.length_map, List.length_map, h]
    refine (Constraint.forall_mem_ofTerms_iff
      (R := fun a b => Alike (a.assign θ) (b.assign θ)) hlen).2 ?_
    rw [List.forall₂_map_left_iff, List.forall₂_map_right_iff]
    exact hformals

/-- What a constraint binds holds under every assignment that solves the constraint. -/
theorem Constraint.Learns.alike {c : Constraint} {x : String} {t : Term} (h : c.Learns x t)
    (hc : c.SolvedBy θ) : Alike (θ x) (t.assign θ) := by
  rcases h.sides with rfl | ⟨rfl, -⟩
  · exact hc
  · exact hc.symm

namespace Work

variable {w w' : Work}

/-- The bindings and the constraints left hold under the assignment. -/
structure HoldsUnder (θ : Assignment) (w : Work) : Prop where
  proper : w.bindings.Proper
  bindings : w.bindings.HoldsUnder θ
  pending : ∀ c ∈ w.pending, c.SolvedBy θ

/-- A step keeps what holds under an assignment. -/
theorem Step.holdsUnder (h : Step w w') (hw : w.HoldsUnder θ) : w'.HoldsUnder θ := by
  have hproper := h.proper hw.proper
  have hbindings : w'.bindings.HoldsUnder θ :=
    h.forall_bindings hw.bindings fun c hc x t hlearns => hlearns.alike (hw.pending c hc)
  refine ⟨hproper, hbindings, ?_⟩
  cases h with
  | same s term rest => exact fun c hc => hw.pending c (.tail _ hc)
  | generic s h rest => exact fun c hc => hw.pending c (.tail _ hc)
  | bind s h rest =>
    intro c hc
    obtain ⟨c, hmem, rfl⟩ := List.mem_map.1 hc
    have hhead := hbindings.alike_apply hproper.keyed c.head
    have htail := hbindings.alike_apply hproper.keyed c.tail
    exact hhead.trans ((hw.pending c (.tail _ hmem)).trans htail.symm)
  | split s h ne rest =>
    refine List.forall_mem_append.2 ⟨fun c hc => hw.pending c (.tail _ hc), ?_⟩
    exact h.solvedBy (hw.pending _ List.mem_cons_self)

/-- Bindings that hold under an assignment do not change the weight under it. -/
theorem weights_map_apply {s : Substitution} (h : s.HoldsUnder θ) (hs : s.Keyed)
    (cs : List Constraint) :
    Constraint.weights θ (cs.map (Constraint.apply s)) = Constraint.weights θ cs := by
  induction cs with
  | nil => rfl
  | cons c rest ih =>
    have hhead := (h.alike_apply hs c.head).size_eq
    have htail := (h.alike_apply hs c.tail).size_eq
    rw [List.map_cons, Constraint.weights, Constraint.weights, ih, Constraint.apply,
      Constraint.weight_mk, hhead, htail, Constraint.weight]

/-- Under an assignment that solves what is left, every step leaves less weight. -/
theorem Step.weight_lt (h : Step w w') (hw : w.HoldsUnder θ) : w'.weight θ < w.weight θ := by
  have hafter := h.holdsUnder hw
  -- a binding takes its constraint away and changes the others only in what the assignment ignores
  rcases h.bind_or_weight_lt with ⟨c, x, t, rest, -, hbefore, -, hpending⟩ | ⟨-, hlt⟩
  · have hpos := Constraint.weight_pos (θ := θ) c
    rw [weight, weight, hpending, hbefore, Constraint.weights,
      weights_map_apply hafter.bindings hafter.proper.keyed]
    omega
  · exact hlt θ

/-- Where an assignment solves what is left, the work ends well. -/
theorem HoldsUnder.exists_reaches (hw : w.HoldsUnder θ) :
    ∃ s, Reaches w ⟨s, []⟩ ∧ s.Proper := by
  induction hweight : w.weight θ using Nat.strongRecOn generalizing w with
  | ind n ih =>
    obtain ⟨bindings, pending⟩ := w
    cases pending with
    | nil => exact ⟨bindings, .refl, hw.proper⟩
    | cons c rest =>
      rcases exists_step_or_clash bindings c rest with ⟨w', hstep⟩ | hclash
      · -- the step leaves less weight, and the assignment still solves what is left
        obtain ⟨s, hreaches, hs⟩ :=
          ih _ (hweight ▸ hstep.weight_lt hw) (hstep.holdsUnder hw) rfl
        exact ⟨s, .head hstep hreaches, hs⟩
      · exact absurd (hw.pending c List.mem_cons_self) hclash.not_alike

/-- An assignment that satisfies the work satisfies whatever the work becomes. -/
theorem Reaches.holdsUnder (h : Reaches w w') (hw : w.HoldsUnder θ) : w'.HoldsUnder θ :=
  h.preserves Step.holdsUnder hw

/-- At the start nothing is bound, and the constraints are all there is to satisfy. -/
theorem holdsUnder_start {constraints : List Constraint}
    (h : ∀ c ∈ constraints, c.SolvedBy θ) : (start constraints).HoldsUnder θ :=
  ⟨Substitution.proper_empty, nofun, h⟩

/-- Where an assignment solves the constraints, unification ends well from some number of steps
on. -/
theorem exists_solved {constraints : List Constraint} (h : ∀ c ∈ constraints, c.SolvedBy θ) :
    ∃ s : Substitution, Reaches (start constraints) ⟨s, []⟩ ∧ s.Proper ∧
      ∃ enough, ∀ steps, enough ≤ steps → solve steps constraints = .solved s := by
  obtain ⟨s, hreaches, hproper⟩ := (holdsUnder_start h).exists_reaches
  obtain ⟨enough, hrun⟩ := Reaches.exists_run_add_eq hreaches
  refine ⟨s, hreaches, hproper, enough, fun steps hle => ?_⟩
  have hsteps : run steps (start constraints) = run (steps - enough) ⟨s, []⟩ := by
    rw [← hrun, Nat.sub_add_cancel hle]
  rw [show solve steps constraints = run steps (start constraints) from rfl, hsteps]
  cases steps - enough <;> rfl

end Work

/-- **Unification is complete and most general.** When some assignment makes the two sides of every
constraint alike, unification ends well with a substitution that binds no variable to a term that
contains it, and every assignment that solves the constraints sees a term as it sees the term with
the substitution applied. So when unification fails, no assignment solves the constraints. -/
theorem solve_complete (constraints : List Constraint) :
    (∀ θ : Assignment, (∀ c ∈ constraints, c.SolvedBy θ) →
      ∃ s : Substitution,
        (∃ enough, ∀ steps, enough ≤ steps → solve steps constraints = .solved s) ∧
        s.SelfFree ∧
        ∀ η : Assignment, (∀ c ∈ constraints, c.SolvedBy η) →
          ∀ term : Term, Alike ((s.apply term).assign η) (term.assign η)) ∧
    ∀ steps mismatch, solve steps constraints = .failed mismatch →
      ¬ ∃ θ : Assignment, ∀ c ∈ constraints, c.SolvedBy θ := by
  constructor
  · intro θ hθ
    obtain ⟨s, hreaches, hproper, hrun⟩ := Work.exists_solved hθ
    have hholds : ∀ η : Assignment, (∀ c ∈ constraints, c.SolvedBy η) → s.HoldsUnder η :=
      fun η hη => (Work.Reaches.holdsUnder hreaches (Work.holdsUnder_start hη)).bindings
    exact ⟨s, hrun, (hholds θ hθ).selfFree hproper,
      fun η hη term => (hholds η hη).alike_apply hproper.keyed term⟩
  · rintro steps mismatch hfailed ⟨θ, hθ⟩
    -- with enough steps the run would be solved, but more steps do not change how it ended
    obtain ⟨s, -, -, enough, hrun⟩ := Work.exists_solved hθ
    have hsolved := hrun (steps + enough) (Nat.le_add_left _ _)
    have hfinished : Work.run steps (Work.start constraints) ≠ .unfinished := by
      rw [show Work.run steps (Work.start constraints) = .failed mismatch from hfailed]
      nofun
    have hmore := Work.run_add_of_finished hfinished enough
    rw [show Work.run (steps + enough) (Work.start constraints) = .solved s from hsolved,
      show Work.run steps (Work.start constraints) = .failed mismatch from hfailed] at hmore
    cases hmore

/-- Two functions with different labels and a generic parameter have a solution, which unification
generalises; a variable cannot be a number and a string. -/
theorem solve_complete_labels :
    (∃ θ : Assignment, ∃ s : Substitution,
      (∀ c ∈ [⟨fn [.mk (some "x") (evar "a")] (array (evar "a")),
          fn [.mk (some "y") (cons "Pair" [evar "b", gen "T"])] (evar "c")⟩,
        ⟨evar "b", array (evar "d")⟩], Constraint.SolvedBy θ c) ∧
      s.SelfFree ∧ Alike ((s.apply (evar "c")).assign θ) (θ "c")) ∧
    solve 5 [⟨evar "a", number⟩, ⟨evar "a", string⟩] = .failed (.name number string) ∧
    ¬ ∃ θ : Assignment,
      ∀ c ∈ [⟨evar "a", number⟩, ⟨evar "a", string⟩], Constraint.SolvedBy θ c := by
  let pair := cons "Pair" [array number, gen "T"]
  let θ : Assignment := fun x =>
    if x = "a" then pair
    else if x = "b" then array number
    else if x = "c" then array pair
    else number
  have hθ : ∀ c ∈ [⟨fn [.mk (some "x") (evar "a")] (array (evar "a")),
        fn [.mk (some "y") (cons "Pair" [evar "b", gen "T"])] (evar "c")⟩,
      ⟨evar "b", array (evar "d")⟩], Constraint.SolvedBy θ c := by decide
  have hfailed : solve 5 [⟨evar "a", number⟩, ⟨evar "a", string⟩] =
      .failed (.name number string) := by
    decide
  obtain ⟨s, -, hself, hgeneral⟩ := (solve_complete _).1 θ hθ
  exact ⟨⟨θ, s, hθ, hself, hgeneral θ hθ (evar "c")⟩, hfailed, (solve_complete _).2 _ _ hfailed⟩

end TreeLang
