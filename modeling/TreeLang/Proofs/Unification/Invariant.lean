import TreeLang.Proofs.Unification.Step

/-!
# Invariants of unification

The bindings only grow, and each of them is one of a variable to another term that is not a generic
parameter. As long as no variable is bound to a term that contains it, the bindings are triangular
and the constraints left are without bound variables, so that applying the bindings to them is
replacing the one variable bound last.
-/

namespace TreeLang

open Term

namespace Substitution

/-- Every binding is one of a variable, to something else that is not a generic parameter. -/
def Proper (s : Substitution) : Prop :=
  ∀ pair ∈ s.pairs, ∃ x, pair.1 = evar x ∧ pair.2 ≠ evar x ∧ ∀ name, pair.2 ≠ gen name

/-- No variable of a proper substitution is bound twice. -/
theorem Proper.keyed {s : Substitution} (h : s.Proper) : s.Keyed := by
  intro pair hpair
  obtain ⟨x, hx, -⟩ := h pair hpair
  exact ⟨x, hx⟩

/-- Nothing is bound in the empty substitution. -/
theorem proper_empty : Proper .empty := nofun

/-- Proper bindings never turn another term into a generic parameter. -/
theorem Proper.apply_ne_gen {s : Substitution} (h : s.Proper) {term : Term}
    (hterm : ∀ name, term ≠ gen name) (name : String) : s.apply term ≠ gen name := by
  have hwithin : ∀ d expanding term, (∀ name, term ≠ gen name) →
      ∀ name, s.applyWithin d expanding term ≠ gen name := by
    intro d
    induction d with
    | zero => exact fun _ _ hterm => hterm
    | succ d ih =>
      intro expanding term hterm name
      rw [h.keyed.applyWithin_eq_assign]
      cases term with
      | gen name => exact absurd rfl (hterm name)
      | cons m parameters => simp
      | fn arguments result => simp
      | evar x =>
        simp only [assign_evar, applyWithin, replaceOutermost]
        split
        · simp
        · cases hvalue : s.lookup (evar x) with
          | none => simp
          | some value =>
            obtain ⟨-, -, -, hgen⟩ := h _ (mem_of_lookup hvalue)
            exact ih _ _ hgen name
  exact hwithin _ _ _ hterm name

/-- No variable of a triangular substitution is bound twice. -/
theorem Triangular.nodup_keys {s : Substitution} (h : s.Triangular) :
    (s.pairs.map Prod.fst).Nodup := by
  induction h with
  | empty => exact List.nodup_nil
  | insert rest fresh avoids free ih =>
    simp only [Substitution.insert, List.map_append, List.map_cons, List.map_nil]
    refine List.nodup_append.2 ⟨ih, by simp, ?_⟩
    intro key hkey other hother
    rw [List.mem_singleton.1 hother]
    rintro rfl
    exact fresh hkey

/-- Where neither the term nor the bound one has bound variables, a new binding replaces its own
variable and nothing else. -/
theorem Triangular.apply_insert {s : Substitution} (hs : s.Triangular) {x : String} {t term : Term}
    (avoids : s.Avoids t) (free : x ∉ t.evars) (hterm : s.Avoids term) :
    (s.insert (evar x) t).apply term = term.assign (single x t) := by
  have hkeyed := hs.keyed.insert x t
  rw [hkeyed.apply_eq_assign]
  refine assign_congr fun y hy => ?_
  rw [apply_eq_applyExcept]
  by_cases hyx : y = x
  · subst hyx
    have hlookup : (s.insert (evar y) t).lookup (evar y) = some t := by simp [lookup_insert]
    rw [applyExcept_evar List.not_mem_nil hlookup, hkeyed.applyExcept_of_avoids]
    · simp [single]
    · intro z hz hb
      rcases binds_insert.1 hb with hb | rfl
      · exact avoids z hz hb
      · exact free hz
  · rw [hkeyed.applyExcept_of_avoids, single, if_neg hyx]
    intro z hz hb
    rw [mem_evars_evar] at hz
    rcases binds_insert.1 hb with hb | hzx
    · exact hterm y hy (hz ▸ hb)
    · exact hyx (hz ▸ hzx)

end Substitution

/-- What is learnt is one side's variable, bound to a term of the other side. -/
theorem Constraint.Learns.mem_evars {c : Constraint} {x : String} {t : Term} (h : c.Learns x t) :
    (x ∈ c.head.evars ∧ ∀ y ∈ t.evars, y ∈ c.tail.evars) ∨
      (x ∈ c.tail.evars ∧ ∀ y ∈ t.evars, y ∈ c.head.evars) := by
  rcases h.sides with rfl | ⟨rfl, -⟩
  · exact .inl ⟨by simp, fun _ => id⟩
  · exact .inr ⟨by simp, fun _ => id⟩

namespace Work

variable {w w' : Work}

/-- A step keeps the bindings, or makes one more of a variable and a term that it learns. -/
theorem Step.bindings_eq_or (h : Step w w') :
    w'.bindings = w.bindings ∨
      ∃ c ∈ w.pending, ∃ x t, c.Learns x t ∧ w'.bindings = w.bindings.insert (evar x) t := by
  cases h with
  | bind s h rest => exact .inr ⟨_, List.mem_cons_self, _, _, h, rfl⟩
  | same | generic | split => exact .inl rfl

/-- What is true of the bindings and of all that the constraints left may bind is true of the
bindings after a step. -/
theorem Step.forall_bindings {P : String → Term → Prop} (h : Step w w')
    (hbound : ∀ x t, (evar x, t) ∈ w.bindings.pairs → P x t)
    (hlearns : ∀ c ∈ w.pending, ∀ x t, c.Learns x t → P x t) :
    ∀ x t, (evar x, t) ∈ w'.bindings.pairs → P x t := by
  intro x t hmem
  rcases h.bindings_eq_or with heq | ⟨c, hc, y, u, hlearn, heq⟩ <;> rw [heq] at hmem
  · exact hbound x t hmem
  · rcases List.mem_append.1 hmem with hmem | hmem
    · exact hbound x t hmem
    · obtain ⟨hxy, rfl⟩ := Prod.mk.inj (List.mem_singleton.1 hmem)
      obtain rfl := evar.inj hxy
      exact hlearns c hc x t hlearn

/-- One step keeps the bindings proper: a variable is bound only when it has no binding. -/
theorem Step.proper (h : Step w w') (hw : w.bindings.Proper) : w'.bindings.Proper := by
  rcases h.bindings_eq_or with heq | ⟨c, -, x, t, hlearns, heq⟩
  · rw [heq]
    exact hw
  · rw [heq]
    intro pair hpair
    rcases List.mem_append.1 hpair with hpair | hpair
    · exact hw pair hpair
    · rw [List.mem_singleton.1 hpair]
      exact ⟨x, rfl, hlearns.ne_self, hlearns.ne_gen⟩

/-- One step adds to the bindings and takes none away. -/
theorem Step.pairs_subset (h : Step w w') : w.bindings.pairs ⊆ w'.bindings.pairs := by
  rcases h.bindings_eq_or with heq | ⟨c, -, x, t, -, heq⟩ <;> rw [heq]
  · exact List.Subset.refl _
  · exact List.subset_append_left _ _

/-- Any number of steps adds to the bindings and takes none away. -/
theorem Reaches.pairs_subset (h : Reaches w w') : w.bindings.pairs ⊆ w'.bindings.pairs := by
  induction h with
  | refl => exact List.Subset.refl _
  | tail _ hstep ih => exact List.Subset.trans ih hstep.pairs_subset

/-- Any number of steps keeps the bindings proper. -/
theorem Reaches.proper (h : Reaches w w') (hw : w.bindings.Proper) : w'.bindings.Proper :=
  h.preserves Step.proper hw

/-- The bindings are triangular, and the constraints left are without bound variables. -/
structure Ready (w : Work) : Prop where
  triangular : w.bindings.Triangular
  avoids : ∀ c ∈ w.pending, w.bindings.Avoids c.head ∧ w.bindings.Avoids c.tail

/-- The work at the start, with all of the constraints and no binding, is ready. -/
theorem ready_start (constraints : List Constraint) : (start constraints).Ready :=
  ⟨.empty, fun _ _ => ⟨nofun, nofun⟩⟩

/-- What a constraint of a ready state binds is without bound variables. -/
theorem Ready.learns {s : Substitution} {c : Constraint} {rest : List Constraint} {x : String}
    {t : Term} (hw : Ready ⟨s, c :: rest⟩) (h : c.Learns x t) : ¬ s.Binds x ∧ s.Avoids t := by
  obtain ⟨hhead, htail⟩ := hw.avoids c List.mem_cons_self
  rcases h.mem_evars with ⟨hx, ht⟩ | ⟨hx, ht⟩
  · exact ⟨hhead x hx, fun y hy => htail y (ht y hy)⟩
  · exact ⟨htail x hx, fun y hy => hhead y (ht y hy)⟩

/-- Steps keep the state ready while no variable is bound to a term that contains it. -/
theorem Step.ready (h : Step w w') (hw : w.Ready) (hself : w'.bindings.SelfFree) : w'.Ready := by
  cases h with
  | same s term rest => exact ⟨hw.triangular, fun c hc => hw.avoids c (.tail _ hc)⟩
  | generic s h rest => exact ⟨hw.triangular, fun c hc => hw.avoids c (.tail _ hc)⟩
  | @bind s c x t h rest =>
    obtain ⟨fresh, avoids⟩ := hw.learns h
    have free : x ∉ t.evars := hself x t (List.mem_append_right _ (List.mem_singleton.2 rfl))
    -- applying the new bindings is replacing the variable, by a term without bound variables
    have hassign : ∀ term, s.Avoids term →
        (s.insert (evar x) t).Avoids ((s.insert (evar x) t).apply term) := by
      intro term hterm y hy hb
      rw [hw.triangular.apply_insert avoids free hterm, mem_evars_assign] at hy
      obtain ⟨z, hz, hy⟩ := hy
      by_cases hzx : z = x
      · rw [single, if_pos hzx] at hy
        rcases Substitution.binds_insert.1 hb with hb | rfl
        · exact avoids y hy hb
        · exact free hy
      · rw [single, if_neg hzx, mem_evars_evar] at hy
        subst hy
        rcases Substitution.binds_insert.1 hb with hb | hyx
        · exact hterm y hz hb
        · exact hzx hyx
    refine ⟨.insert hw.triangular fresh avoids free, fun c' hc' => ?_⟩
    obtain ⟨c', hmem, rfl⟩ := List.mem_map.1 hc'
    obtain ⟨hhead, htail⟩ := hw.avoids c' (.tail _ hmem)
    exact ⟨hassign _ hhead, hassign _ htail⟩
  | split s h ne rest =>
    obtain ⟨hhead, htail⟩ := hw.avoids _ List.mem_cons_self
    refine ⟨hw.triangular, fun c hc => ?_⟩
    rcases List.mem_append.1 hc with hc | hc
    · exact hw.avoids c (.tail _ hc)
    · exact ⟨fun x hx => hhead x ((h.mem_evars hc).1 hx),
        fun x hx => htail x ((h.mem_evars hc).2 hx)⟩

end Work

end TreeLang
