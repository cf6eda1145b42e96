import Mathlib.Algebra.Order.BigOperators.Group.Finset
import TreeLang.Proofs.Unification.Invariant
import TreeLang.Proofs.Unification.Weight

/-!
# Ends of unification

Between two bindings the weight of the constraints left goes down, and no step brings a new variable
in. So the work goes on for ever exactly when it binds one variable over and over. That takes a
binding of a variable to a term that contains it: without one the bindings are triangular, and no
variable is bound twice.
-/

namespace TreeLang

open Term

namespace Substitution

/-- How often a variable has been bound. -/
def timesBound (s : Substitution) (x : String) : Nat := (s.pairs.map Prod.fst).count (evar x)

/-- All variables of the bindings are among the given ones. -/
def NamesIn (names : List String) (s : Substitution) : Prop :=
  ∀ x t, (evar x, t) ∈ s.pairs → x ∈ names ∧ ∀ y ∈ t.evars, y ∈ names

/-- Applying bindings brings no other variables in. -/
theorem NamesIn.mem_of_mem_evars_apply {names : List String} {s : Substitution}
    (h : s.NamesIn names) (hs : s.Keyed) {term : Term} (hterm : ∀ y ∈ term.evars, y ∈ names) :
    ∀ y ∈ (s.apply term).evars, y ∈ names := by
  have hwithin : ∀ d expanding term, (∀ y ∈ term.evars, y ∈ names) →
      ∀ y ∈ (s.applyWithin d expanding term).evars, y ∈ names := by
    intro d
    induction d with
    | zero => exact fun _ _ hterm => hterm
    | succ d ih =>
      intro expanding term hterm y hy
      rw [hs.applyWithin_eq_assign, mem_evars_assign] at hy
      obtain ⟨z, hz, hy⟩ := hy
      simp only [applyWithin, replaceOutermost] at hy
      split at hy
      · rw [Option.getD_none, mem_evars_evar] at hy
        exact hy ▸ hterm z hz
      · cases hvalue : s.lookup (evar z) with
        | none =>
          rw [hvalue, Option.map_none, Option.getD_none, mem_evars_evar] at hy
          exact hy ▸ hterm z hz
        | some value =>
          rw [hvalue, Option.map_some, Option.getD_some] at hy
          exact ih _ _ (h z value (mem_of_lookup hvalue)).2 y hy
  exact hwithin _ _ _ hterm

end Substitution

/-- The variables of a list of constraints. -/
def Constraint.names (constraints : List Constraint) : List String :=
  constraints.flatMap fun c => c.head.evars ++ c.tail.evars

namespace Work

variable {w w' : Work} {names : List String}

/-! ## Variables -/

/-- All variables of the bindings and of the constraints left are among the given ones. -/
structure NamesIn (names : List String) (w : Work) : Prop where
  proper : w.bindings.Proper
  bindings : w.bindings.NamesIn names
  pending : ∀ c ∈ w.pending, (∀ y ∈ c.head.evars, y ∈ names) ∧ ∀ y ∈ c.tail.evars, y ∈ names

/-- The work at the start has the names of its constraints. -/
theorem namesIn_start (constraints : List Constraint) :
    (start constraints).NamesIn (Constraint.names constraints) :=
  ⟨Substitution.proper_empty, nofun, fun c hc =>
    ⟨fun _ hy => List.mem_flatMap.2 ⟨c, hc, List.mem_append_left _ hy⟩,
      fun _ hy => List.mem_flatMap.2 ⟨c, hc, List.mem_append_right _ hy⟩⟩⟩

/-- A step brings no other variables in. -/
theorem Step.namesIn (h : Step w w') (hw : w.NamesIn names) : w'.NamesIn names := by
  have hproper := h.proper hw.proper
  have hbindings : w'.bindings.NamesIn names := by
    refine h.forall_bindings hw.bindings fun c hc x t hlearns => ?_
    obtain ⟨hhead, htail⟩ := hw.pending c hc
    rcases hlearns.mem_evars with ⟨hx, ht⟩ | ⟨hx, ht⟩
    · exact ⟨hhead x hx, fun y hy => htail y (ht y hy)⟩
    · exact ⟨htail x hx, fun y hy => hhead y (ht y hy)⟩
  refine ⟨hproper, hbindings, ?_⟩
  cases h with
  | same s term rest => exact fun c hc => hw.pending c (.tail _ hc)
  | generic s h rest => exact fun c hc => hw.pending c (.tail _ hc)
  | bind s h rest =>
    intro c hc
    obtain ⟨c, hmem, rfl⟩ := List.mem_map.1 hc
    obtain ⟨hhead, htail⟩ := hw.pending c (.tail _ hmem)
    exact ⟨hbindings.mem_of_mem_evars_apply hproper.keyed hhead,
      hbindings.mem_of_mem_evars_apply hproper.keyed htail⟩
  | split s h ne rest =>
    obtain ⟨hhead, htail⟩ := hw.pending _ List.mem_cons_self
    refine List.forall_mem_append.2 ⟨fun c hc => hw.pending c (.tail _ hc), fun c hc => ?_⟩
    exact ⟨fun y hy => hhead y ((h.mem_evars hc).1 hy), fun y hy => htail y ((h.mem_evars hc).2 hy)⟩

/-- No step brings in a name. -/
theorem Reaches.namesIn (h : Reaches w w') (hw : w.NamesIn names) : w'.NamesIn names :=
  h.preserves Step.namesIn hw

/-- Every key of the bindings is one of the variables. -/
theorem NamesIn.keys_subset (hw : w.NamesIn names) :
    ∀ key ∈ w.bindings.pairs.map Prod.fst, key ∈ names.map evar := by
  intro key hkey
  obtain ⟨⟨key, value⟩, hpair, rfl⟩ := List.mem_map.1 hkey
  obtain ⟨x, hx, -⟩ := hw.proper _ hpair
  obtain rfl : key = evar x := hx
  exact List.mem_map_of_mem (hw.bindings x value hpair).1

/-- When no variable is bound more than a number of times, the bindings are bounded by it. -/
theorem NamesIn.length_bindings_le (hw : w.NamesIn names) {bound : Nat}
    (hbound : ∀ x ∈ names, w.bindings.timesBound x ≤ bound) :
    w.bindings.pairs.length ≤ names.length * bound := by
  set keys := w.bindings.pairs.map Prod.fst with hkeys
  have hcard : keys.toFinset.card ≤ names.length := by
    have hsub : keys.toFinset ⊆ (names.map evar).toFinset := by
      intro key hkey
      exact List.mem_toFinset.2 (hw.keys_subset key (List.mem_toFinset.1 hkey))
    calc keys.toFinset.card ≤ (names.map evar).toFinset.card := Finset.card_le_card hsub
      _ ≤ (names.map evar).length := List.toFinset_card_le _
      _ = names.length := List.length_map _
  have hcount : ∀ key ∈ keys.toFinset, keys.count key ≤ bound := by
    intro key hkey
    obtain ⟨x, hx, rfl⟩ := List.mem_map.1 (hw.keys_subset key (List.mem_toFinset.1 hkey))
    exact hbound x hx
  -- at most so many different keys, none of them more often than the bound
  calc w.bindings.pairs.length = keys.length := (List.length_map _).symm
    _ = ∑ key ∈ keys.toFinset, keys.count key := (List.sum_toFinset_count_eq_length keys).symm
    _ ≤ keys.toFinset.card * bound := Finset.sum_le_card_nsmul _ _ _ hcount
    _ ≤ names.length * bound := Nat.mul_le_mul_right _ hcard

/-! ## Runs that end -/

/-- A run that ends makes no more bindings than it has steps. -/
theorem length_bindings_le_of_finished {n : Nat} (hn : w.run n ≠ .unfinished) (h : Reaches w w') :
    w'.bindings.pairs.length ≤ w.bindings.pairs.length + n := by
  induction n generalizing w with
  | zero =>
    cases h using Relation.ReflTransGen.head_induction_on with
    | refl => exact Nat.le_refl _
    | head hstep _ => exact absurd hstep.run_zero hn
  | succ n ih =>
    rcases Relation.ReflTransGen.cases_head h with rfl | ⟨v, hstep, hrest⟩
    · omega
    · rw [hstep.run_succ] at hn
      have hle := ih hn hrest
      have hgrow : v.bindings.pairs.length ≤ w.bindings.pairs.length + 1 := by
        rcases hstep.bindings_eq_or with heq | ⟨c, -, x, t, -, heq⟩ <;> rw [heq]
        · omega
        · simp [Substitution.insert]
      omega

/-- Work that makes a bounded number of bindings ends. -/
theorem exists_finished_of_bounded {bound : Nat}
    (hbound : ∀ w', Reaches w w' → w'.bindings.pairs.length ≤ bound) :
    ∃ n, w.run n ≠ .unfinished := by
  -- a step makes one of the bindings that may still be made, or leaves less weight
  induction hroom : bound - w.bindings.pairs.length using Nat.strongRecOn generalizing w with
  | ind room ihroom =>
    induction hweight : w.weight evar using Nat.strongRecOn generalizing w with
    | ind weight ihweight =>
      obtain ⟨bindings, pending⟩ := w
      cases pending with
      | nil => exact ⟨0, by simp [run, solveFrom]⟩
      | cons c rest =>
        rcases exists_step_or_clash bindings c rest with ⟨w', hstep⟩ | hclash
        · have hbound' : ∀ v, Reaches w' v → v.bindings.pairs.length ≤ bound :=
            fun v hv => hbound v (.head hstep hv)
          obtain ⟨n, hn⟩ : ∃ n, w'.run n ≠ .unfinished := by
            rcases hstep.bind_or_weight_lt with ⟨_, x, t, _, -, -, heq, -⟩ | ⟨heq, hlt⟩
            · have hle := hbound w' (.single hstep)
              refine ihroom _ ?_ hbound' rfl
              rw [heq] at hle ⊢
              simp only [Substitution.insert, List.length_append, List.length_singleton]
                at hle hroom ⊢
              omega
            · exact ihweight _ (hweight ▸ hlt evar) hbound' (heq ▸ hroom) rfl
          exact ⟨n + 1, by rwa [hstep.run_succ]⟩
        · obtain ⟨mismatch, hfailed⟩ := run_succ_of_clash hclash bindings rest
          exact ⟨1, by simp [hfailed 0]⟩

/-- The state stays ready while no variable is bound to a term that contains it. -/
theorem Reaches.ready (h : Reaches w w') (hw : w.Ready) (hself : w'.bindings.SelfFree) :
    w'.Ready := by
  induction h with
  | refl => exact hw
  | tail hreaches hstep ih =>
    exact hstep.ready (ih fun x t hmem => hself x t (hstep.pairs_subset hmem)) hself

end Work

/-- **When unification ends.** It ends exactly when no variable is bound over and over; and it ends
unless it binds a variable to a term that contains it. -/
theorem solve_ends_iff (constraints : List Constraint) :
    ((∃ steps, solve steps constraints ≠ .unfinished) ↔
      ∀ x, ∃ bound, ∀ w, Work.Reaches (Work.start constraints) w →
        w.bindings.timesBound x ≤ bound) ∧
    ((∃ steps, solve steps constraints ≠ .unfinished) ∨
      ∃ w, Work.Reaches (Work.start constraints) w ∧ ¬ w.bindings.SelfFree) := by
  have hnames : ∀ w, Work.Reaches (Work.start constraints) w →
      w.NamesIn (Constraint.names constraints) :=
    fun w hw => Work.Reaches.namesIn hw (Work.namesIn_start constraints)
  have hiff : (∃ steps, solve steps constraints ≠ .unfinished) ↔
      ∀ x, ∃ bound, ∀ w, Work.Reaches (Work.start constraints) w →
        w.bindings.timesBound x ≤ bound := by
    constructor
    · -- a run that ends bounds the number of all bindings
      rintro ⟨steps, hsteps⟩ x
      refine ⟨steps, fun w hw => ?_⟩
      have hfinished : (Work.start constraints).run steps ≠ .unfinished := hsteps
      have hlength := Work.length_bindings_le_of_finished hfinished hw
      have hcount := List.count_le_length (a := evar x) (l := w.bindings.pairs.map Prod.fst)
      rw [List.length_map] at hcount
      have hnone : (Work.start constraints).bindings.pairs.length = 0 := rfl
      rw [Substitution.timesBound]
      omega
    · -- only finitely many variables can be bound, so one bound serves them all
      intro h
      choose bound hbound using h
      have hsup : ∀ w, Work.Reaches (Work.start constraints) w →
          w.bindings.pairs.length ≤ (Constraint.names constraints).length *
            (Constraint.names constraints).toFinset.sup bound := by
        intro w hw
        refine (hnames w hw).length_bindings_le fun x hx => (hbound x w hw).trans ?_
        exact Finset.le_sup (f := bound) (List.mem_toFinset.2 hx)
      exact Work.exists_finished_of_bounded hsup
  refine ⟨hiff, ?_⟩
  by_cases hself : ∃ w, Work.Reaches (Work.start constraints) w ∧ ¬ w.bindings.SelfFree
  · exact .inr hself
  · refine .inl (hiff.2 fun x => ⟨1, fun w hw => ?_⟩)
    have hfree : w.bindings.SelfFree := by
      by_contra h
      exact hself ⟨w, hw, h⟩
    -- triangular bindings bind no variable twice
    have hready := Work.Reaches.ready hw (Work.ready_start constraints) hfree
    exact List.nodup_iff_count_le_one.1 hready.triangular.nodup_keys (evar x)

end TreeLang
