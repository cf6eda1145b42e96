import TreeLang.Proofs.Term.Assignment

/-!
# Applying substitutions

The bindings that unification makes are bindings of variables. For these, applying a substitution is
an assignment, and the bound on nested expansions is never reached. A substitution is triangular
when each binding was made of terms without the variables bound until then, and of a term without
the variable itself. Applying a triangular one makes a variable equal to what it is bound to.
-/

namespace TreeLang

open Term

namespace Term

/-- A replacement of variables only is an assignment. -/
theorem replaceOutermost_eq_assign {new : Term → Option Term} {term : Term}
    (h : ∀ t, (∀ x, t ≠ evar x) → new t = none) :
    term.replaceOutermost new = term.assign fun x => (new (evar x)).getD (evar x) := by
  induction term with
  | evar name => rfl
  | gen name => rw [replaceOutermost, h _ (by simp)]; rfl
  | cons name parameters ih =>
    rw [replaceOutermost, h _ (by simp), replaceOutermostList_eq_map, assign_cons]
    simp only [cons.injEq, true_and]
    exact List.map_congr_left ih
  | fn arguments result ihs ih =>
    rw [replaceOutermost, h _ (by simp), replaceOutermostFormals_eq_map, assign_fn, ih]
    simp only [fn.injEq, and_true]
    refine List.map_congr_left fun f hf => ?_
    rw [Formal.mapType, Formal.mapType, ihs f hf]

/-- The assignment that replaces one variable. -/
def single (x : String) (term : Term) : Assignment := fun y => if y = x then term else evar y

end Term

namespace Substitution

/-- Only variables are bound. -/
def Keyed (s : Substitution) : Prop := ∀ pair ∈ s.pairs, ∃ x, pair.1 = evar x

/-- A variable has a binding. -/
def Binds (s : Substitution) (x : String) : Prop := evar x ∈ s.pairs.map Prod.fst

/-- No variable of the term has a binding. -/
def Avoids (s : Substitution) (term : Term) : Prop := ∀ x ∈ term.evars, ¬ s.Binds x

/-- No variable is bound to a term that contains it. -/
def SelfFree (s : Substitution) : Prop := ∀ x t, (evar x, t) ∈ s.pairs → x ∉ t.evars

variable {s : Substitution} {x : String} {key value : Term}

/-- The empty substitution binds nothing. -/
theorem keyed_empty : Keyed .empty := nofun

/-- A binding of a variable is kept under the variable. -/
theorem Keyed.insert (hs : s.Keyed) (x : String) (t : Term) : (s.insert (evar x) t).Keyed := by
  intro pair hpair
  rcases List.mem_append.1 hpair with hpair | hpair
  · exact hs pair hpair
  · exact ⟨x, by rw [List.mem_singleton.1 hpair]⟩

/-- After a binding is inserted its variable is bound, and what was bound before. -/
theorem binds_insert {y : String} {t : Term} :
    (s.insert (evar x) t).Binds y ↔ s.Binds y ∨ y = x := by
  simp [Binds, Substitution.insert, evar.injEq]

/-! ## Lookup -/

/-- The binding that was inserted last is found. -/
theorem lookup_insert {k : Term} :
    (s.insert key value).lookup k = if key = k then some value else s.lookup k := by
  simp only [lookup, Substitution.insert, List.reverse_append, List.reverse_singleton,
    List.singleton_append, List.find?_cons]
  by_cases h : key = k <;> simp [h]

/-- What is found is a binding of the substitution. -/
theorem mem_of_lookup (h : s.lookup key = some value) : (key, value) ∈ s.pairs := by
  obtain ⟨pair, hpair, rfl⟩ := Option.map_eq_some_iff.1 h
  have hkey : pair.1 = key := by simpa using List.find?_some hpair
  rw [← hkey]
  exact List.mem_reverse.1 (List.mem_of_find?_eq_some hpair)

/-- Without a binding nothing is found. -/
theorem lookup_eq_none_of_not_mem (h : key ∉ s.pairs.map Prod.fst) : s.lookup key = none := by
  rw [lookup, Option.map_eq_none_iff, List.find?_eq_none]
  intro pair hpair heq
  exact h (List.mem_map.2 ⟨pair, List.mem_reverse.1 hpair, by simpa using heq⟩)

/-- A substitution that binds variables only has nothing for other terms. -/
theorem Keyed.lookup_eq_none (hs : s.Keyed) (h : ∀ x, key ≠ evar x) : s.lookup key = none := by
  refine lookup_eq_none_of_not_mem fun hmem => ?_
  obtain ⟨pair, hpair, rfl⟩ := List.mem_map.1 hmem
  obtain ⟨x, hx⟩ := hs pair hpair
  exact h x hx

/-! ## Applying without a bound -/

/-- The number of bindings that may still be expanded. -/
def room (s : Substitution) (expanding : List Term) : Nat :=
  (s.pairs.filter fun pair => pair.1 ∉ expanding).length

/-- There is room for at most as many expansions as bindings. -/
theorem room_le (expanding : List Term) : s.room expanding ≤ s.pairs.length :=
  List.length_filter_le _ _

/-- Expanding a key leaves less room. -/
theorem room_cons_lt {expanding : List Term} (hmem : (key, value) ∈ s.pairs)
    (hkey : key ∉ expanding) : s.room (key :: expanding) < s.room expanding := by
  have hsub : (s.pairs.filter fun pair => pair.1 ∉ key :: expanding) =
      (s.pairs.filter fun pair => pair.1 ∉ expanding).filter fun pair => pair.1 ≠ key := by
    rw [List.filter_filter]
    refine List.filter_congr fun pair _ => ?_
    simp [not_or]
  rw [room, room, hsub]
  refine List.length_filter_lt_length_iff_exists.2 ⟨(key, value), ?_, by simp⟩
  simpa [hkey] using hmem

/-- Nothing is expanded where there is no room. -/
theorem applyWithin_of_room_eq_zero {expanding : List Term} (hroom : s.room expanding = 0)
    (d : Nat) (term : Term) : s.applyWithin d expanding term = term := by
  cases d with
  | zero => rfl
  | succ d =>
    have hnew : ∀ key, (if key ∈ expanding then none
        else (s.lookup key).map (s.applyWithin d (key :: expanding))) = none := by
      intro key
      by_cases hkey : key ∈ expanding
      · simp [hkey]
      · cases hvalue : s.lookup key with
        | none => simp
        | some value =>
          have := room_cons_lt (mem_of_lookup hvalue) hkey
          omega
    rw [applyWithin, replaceOutermost_eq_assign fun t _ => hnew t]
    simp only [hnew, Option.getD_none, assign_evar_self]

/-- A depth that covers the room is as good as any other. -/
theorem applyWithin_eq_of_room_le {d d' : Nat} {expanding : List Term}
    (hd : s.room expanding ≤ d) (hd' : s.room expanding ≤ d') (term : Term) :
    s.applyWithin d expanding term = s.applyWithin d' expanding term := by
  induction d generalizing d' expanding term with
  | zero =>
    have hroom : s.room expanding = 0 := by omega
    rw [applyWithin_of_room_eq_zero hroom, applyWithin_of_room_eq_zero hroom]
  | succ d ih =>
    cases d' with
    | zero =>
      have hroom : s.room expanding = 0 := by omega
      rw [applyWithin_of_room_eq_zero hroom, applyWithin_of_room_eq_zero hroom]
    | succ d' =>
      rw [applyWithin, applyWithin]
      congr 1
      funext key
      by_cases hkey : key ∈ expanding
      · simp [hkey]
      · simp only [hkey, if_false]
        cases hvalue : s.lookup key with
        | none => rfl
        | some value =>
          -- the key is being expanded from here on, so there is room for one binding less
          have hlt := room_cons_lt (mem_of_lookup hvalue) hkey
          simp only [Option.map_some, Option.some.injEq]
          exact ih (by omega) (by omega) value

/-- Applies the bindings within a term, except to terms of `expanding`. -/
def applyExcept (s : Substitution) (expanding : List Term) (term : Term) : Term :=
  s.applyWithin s.pairs.length expanding term

/-- At first no term is being expanded. -/
theorem apply_eq_applyExcept (term : Term) : s.apply term = s.applyExcept [] term := rfl

/-- Applying bindings of variables is an assignment, at any depth. -/
theorem Keyed.applyWithin_eq_assign (hs : s.Keyed) (d : Nat) (expanding : List Term)
    (term : Term) :
    s.applyWithin d expanding term =
      term.assign fun x => s.applyWithin d expanding (evar x) := by
  cases d with
  | zero => exact (assign_evar_self term).symm
  | succ d =>
    rw [applyWithin, replaceOutermost_eq_assign]
    · rfl
    · intro t ht
      simp [hs.lookup_eq_none ht]

/-- A substitution that binds variables only is applied variable by variable. -/
theorem Keyed.apply_eq_assign (hs : s.Keyed) (term : Term) :
    s.apply term = term.assign fun x => s.apply (evar x) :=
  hs.applyWithin_eq_assign _ _ term

/-- A variable that is not being expanded becomes what its binding becomes. -/
theorem applyExcept_evar {expanding : List Term} {t : Term} (hx : evar x ∉ expanding)
    (ht : s.lookup (evar x) = some t) :
    s.applyExcept expanding (evar x) = s.applyExcept (evar x :: expanding) t := by
  have hlt := room_cons_lt (mem_of_lookup ht) hx
  have hle := room_le (s := s) expanding
  obtain ⟨d, hd⟩ : ∃ d, s.pairs.length = d + 1 := ⟨s.pairs.length - 1, by omega⟩
  rw [applyExcept, applyExcept, hd, applyWithin, replaceOutermost, if_neg hx, ht]
  exact applyWithin_eq_of_room_le (by omega) (by omega) t

/-- A variable without a binding stays. -/
theorem applyWithin_evar_of_lookup_none {d : Nat} {expanding : List Term}
    (hx : s.lookup (evar x) = none) : s.applyWithin d expanding (evar x) = evar x := by
  cases d with
  | zero => rfl
  | succ d => simp [applyWithin, replaceOutermost, hx]

/-- A term without bound variables stays. -/
theorem Keyed.applyExcept_of_avoids (hs : s.Keyed) {term : Term} (h : s.Avoids term)
    (expanding : List Term) : s.applyExcept expanding term = term := by
  rw [applyExcept, hs.applyWithin_eq_assign]
  refine (assign_congr fun x hx => ?_).trans (assign_evar_self term)
  exact applyWithin_evar_of_lookup_none (lookup_eq_none_of_not_mem (h x hx))

/-- Which terms are being expanded matters only for the variables within reach. Those are any set of
variables that is closed under the latest bindings. -/
theorem Keyed.applyWithin_congr (hs : s.Keyed) {R : String → Prop}
    (hclosed : ∀ y u, s.lookup (evar y) = some u → R y → ∀ z ∈ u.evars, R z)
    {d : Nat} {expanding expanding' : List Term}
    (hexp : ∀ y, R y → (evar y ∈ expanding ↔ evar y ∈ expanding'))
    {term : Term} (hterm : ∀ y ∈ term.evars, R y) :
    s.applyWithin d expanding term = s.applyWithin d expanding' term := by
  induction d generalizing expanding expanding' term with
  | zero => rfl
  | succ d ih =>
    rw [hs.applyWithin_eq_assign, hs.applyWithin_eq_assign (d + 1) expanding']
    refine assign_congr fun y hy => ?_
    have hreach := hterm y hy
    simp only [applyWithin, replaceOutermost, hexp y hreach]
    by_cases hmem : evar y ∈ expanding'
    · simp [hmem]
    · simp only [hmem, if_false]
      cases hu : s.lookup (evar y) with
      | none => rfl
      | some u =>
        -- both sides expand the variable from here on, and what it is bound to is within reach
        simp only [Option.map_some, Option.getD_some]
        refine ih (fun z hz => ?_) (hclosed y u hu hreach)
        simp only [List.mem_cons, hexp z hz]

/-! ## Triangular substitutions -/

/-- Bindings of variables, each made when the variable and the bound term were without bound
variables, and the bound term without the variable. -/
inductive Triangular : Substitution → Prop
  | empty : Triangular .empty
  | insert {s : Substitution} {x : String} {t : Term} (rest : Triangular s) (fresh : ¬ s.Binds x)
    (avoids : s.Avoids t) (free : x ∉ t.evars) : Triangular (s.insert (evar x) t)

namespace Triangular

/-- A triangular substitution binds variables only. -/
theorem keyed (hs : s.Triangular) : s.Keyed := by
  induction hs with
  | empty => exact keyed_empty
  | insert _ _ _ _ ih => exact ih.insert _ _

/-- The variables bound up to a binding are out of reach of it and of all later ones. -/
theorem exists_barrier (hs : s.Triangular) {t : Term} (hmem : (evar x, t) ∈ s.pairs) :
    ∃ barrier : String → Prop, barrier x ∧ (∀ y, barrier y → s.Binds y) ∧
      (∀ y ∈ t.evars, ¬ barrier y) ∧
      ∀ y u, (evar y, u) ∈ s.pairs → ¬ barrier y → ∀ z ∈ u.evars, ¬ barrier z := by
  induction hs with
  | empty => cases hmem
  | @insert s w u rest fresh avoids free ih =>
    rcases List.mem_append.1 hmem with hmem | hmem
    · obtain ⟨barrier, hx, hbinds, ht, hclosed⟩ := ih hmem
      refine ⟨barrier, hx, fun y hy => binds_insert.2 (.inl (hbinds y hy)), ht, ?_⟩
      intro y v hv hy z hz
      rcases List.mem_append.1 hv with hv | hv
      · exact hclosed y v hv hy z hz
      · -- the last binding is to a term without bound variables, and all behind it are bound
        obtain ⟨-, rfl⟩ := Prod.mk.inj (List.mem_singleton.1 hv)
        exact fun hb => avoids z hz (hbinds z hb)
    · -- the last binding: everything bound so far is behind the barrier
      obtain ⟨hxw, rfl⟩ := Prod.mk.inj (List.mem_singleton.1 hmem)
      obtain rfl := evar.inj hxw
      refine ⟨(s.insert (evar x) t).Binds, binds_insert.2 (.inr rfl), fun _ => id, ?_, ?_⟩
      · rintro y hy hb
        rcases binds_insert.1 hb with hb | rfl
        · exact avoids y hy hb
        · exact free hy
      · intro y v hv hy
        exact absurd (List.mem_map.2 ⟨_, hv, rfl⟩) hy

/-- A triangular substitution binds each variable once, so each of its bindings is found. -/
theorem lookup_of_mem (hs : s.Triangular) {t : Term} (hmem : (evar x, t) ∈ s.pairs) :
    s.lookup (evar x) = some t := by
  induction hs with
  | empty => cases hmem
  | insert rest fresh avoids free ih =>
    rw [lookup_insert]
    rcases List.mem_append.1 hmem with hmem | hmem
    · rw [if_neg, ih hmem]
      intro hkey
      exact fresh (List.mem_map.2 ⟨_, hmem, hkey.symm⟩)
    · obtain ⟨hkey, rfl⟩ := Prod.mk.inj (List.mem_singleton.1 hmem)
      rw [if_pos hkey.symm]

/-- A bound variable becomes what its binding becomes. -/
theorem apply_evar (hs : s.Triangular) {t : Term} (hmem : (evar x, t) ∈ s.pairs) :
    s.apply (evar x) = s.apply t := by
  obtain ⟨barrier, hx, -, ht, hclosed⟩ := hs.exists_barrier hmem
  rw [apply_eq_applyExcept, apply_eq_applyExcept,
    applyExcept_evar List.not_mem_nil (hs.lookup_of_mem hmem)]
  refine hs.keyed.applyWithin_congr (R := fun y => ¬ barrier y)
    (fun y u hu => hclosed y u (mem_of_lookup hu)) ?_ ht
  intro y hy
  have hne : y ≠ x := by
    rintro rfl
    exact hy hx
  simp [hne]

end Triangular

end Substitution

end TreeLang
