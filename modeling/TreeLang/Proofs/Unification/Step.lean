import Mathlib.Logic.Relation
import TreeLang.Proofs.Term.Substitution
import TreeLang.Term.Unifier

/-!
# Steps of unification

What one turn of the unifier can do to the bindings made and to the constraints left is one relation
with a case for each kind of constraint. A constraint between terms with different heads is a clash,
and there is a step for every other one. A run is the closure of this relation.
-/

namespace TreeLang

open Term

namespace Constraint

/-- Two lists of terms are constrained member by member, up to the shorter one. -/
theorem ofTerms_eq_zipWith (as bs : List Term) : ofTerms as bs = List.zipWith mk as bs := by
  induction as generalizing bs with
  | nil => cases bs <;> rfl
  | cons a as ih =>
    cases bs with
    | nil => rfl
    | cons b bs => rw [ofTerms, ih, List.zipWith_cons_cons]

/-- The labels of two lists of parameters play no part in their constraints. -/
theorem ofFormals_eq_ofTerms (as bs : List Formal) :
    ofFormals as bs = ofTerms (as.map Formal.type) (bs.map Formal.type) := by
  induction as generalizing bs with
  | nil => cases bs <;> rfl
  | cons a as ih =>
    cases bs with
    | nil => cases a; rfl
    | cons b bs => cases a; cases b; rw [ofFormals, ih]; rfl

/-- The parts of two lists of one length are related when the lists are. -/
theorem forall_mem_ofTerms_iff {R : Term → Term → Prop} {as bs : List Term}
    (hlen : as.length = bs.length) :
    (∀ c ∈ ofTerms as bs, R c.head c.tail) ↔ List.Forall₂ R as bs := by
  induction as generalizing bs with
  | nil =>
    cases bs with
    | nil => simp [ofTerms]
    | cons b bs => cases hlen
  | cons a as ih =>
    cases bs with
    | nil => cases hlen
    | cons b bs =>
      rw [ofTerms, List.forall_mem_cons, List.forall₂_cons, ih (Nat.succ.inj hlen)]

/-- The sides of a constraint between two lists come from these lists. -/
theorem mem_of_mem_ofTerms {c : Constraint} {as bs : List Term} (hc : c ∈ ofTerms as bs) :
    c.head ∈ as ∧ c.tail ∈ bs := by
  rw [ofTerms_eq_zipWith] at hc
  obtain ⟨i, hi, rfl⟩ := List.mem_iff_getElem.1 hc
  simp

/-- One side of the constraint is a generic parameter. -/
def Generic (c : Constraint) : Prop := ∃ name, c.head = gen name ∨ c.tail = gen name

/-- One side of the constraint is the variable, and the other one is what it gets bound to. Of two
variables the left one is bound. -/
structure Learns (c : Constraint) (x : String) (t : Term) : Prop where
  sides : c = ⟨evar x, t⟩ ∨ c = ⟨t, evar x⟩ ∧ ∀ y, t ≠ evar y
  ne_self : t ≠ evar x
  ne_gen : ∀ name, t ≠ gen name

/-- The two sides have one head, and the other constraints are those between their parts. -/
inductive Splits : Constraint → List Constraint → Prop
  | types (name : String) {as bs : List Term} (h : as.length = bs.length) :
    Splits ⟨.cons name as, .cons name bs⟩ (ofTerms as bs)
  | functions {as bs : List Formal} (h : as.length = bs.length) (a b : Term) :
    Splits ⟨.fn as a, .fn bs b⟩ (ofFormals as bs ++ [⟨a, b⟩])

/-- The variables of the parts are variables of the whole. -/
theorem Splits.mem_evars {c part : Constraint} {parts : List Constraint} (h : c.Splits parts)
    (hpart : part ∈ parts) {x : String} :
    (x ∈ part.head.evars → x ∈ c.head.evars) ∧ (x ∈ part.tail.evars → x ∈ c.tail.evars) := by
  cases h with
  | types name h =>
    obtain ⟨ha, hb⟩ := mem_of_mem_ofTerms hpart
    exact ⟨fun hx => mem_evars_cons.2 ⟨_, ha, hx⟩, fun hx => mem_evars_cons.2 ⟨_, hb, hx⟩⟩
  | functions h a b =>
    rcases List.mem_append.1 hpart with hpart | hpart
    · rw [ofFormals_eq_ofTerms] at hpart
      obtain ⟨ha, hb⟩ := mem_of_mem_ofTerms hpart
      obtain ⟨f, hf, hfa⟩ := List.mem_map.1 ha
      obtain ⟨g, hg, hgb⟩ := List.mem_map.1 hb
      exact ⟨fun hx => mem_evars_fn.2 (.inl ⟨f, hf, hfa ▸ hx⟩),
        fun hx => mem_evars_fn.2 (.inl ⟨g, hg, hgb ▸ hx⟩)⟩
    · rw [List.mem_singleton.1 hpart]
      exact ⟨fun hx => mem_evars_fn.2 (.inr hx), fun hx => mem_evars_fn.2 (.inr hx)⟩

end Constraint

/-- Two terms with heads that no assignment makes equal. -/
inductive Term.Clash : Term → Term → Prop
  | name {m n : String} (h : m ≠ n) (as bs : List Term) : Clash (.cons m as) (.cons n bs)
  | parameters {as bs : List Term} (h : as.length ≠ bs.length) (m n : String) :
    Clash (.cons m as) (.cons n bs)
  | arguments {as bs : List Formal} (h : as.length ≠ bs.length) (a b : Term) :
    Clash (.fn as a) (.fn bs b)
  | consFn (name : String) (as : List Term) (bs : List Formal) (b : Term) :
    Clash (.cons name as) (.fn bs b)
  | fnCons (as : List Formal) (a : Term) (name : String) (bs : List Term) :
    Clash (.fn as a) (.cons name bs)

/-- Terms that clash are different. -/
theorem Term.Clash.ne {a b : Term} (h : Clash a b) : a ≠ b := by
  cases h with
  | name h as bs => simp [h]
  | parameters h m n =>
    rintro ⟨rfl, rfl⟩
    exact h rfl
  | arguments h a b =>
    rintro ⟨rfl, rfl⟩
    exact h rfl
  | consFn name as bs b => simp
  | fnCons as a name bs => simp

/-- The state of unification: the bindings made and the constraints left. -/
structure Work where
  bindings : Substitution
  pending : List Constraint

namespace Work

/-- The work at its start. -/
def start (constraints : List Constraint) : Work := ⟨.empty, constraints⟩

/-- The outcome of the work after a number of steps. -/
def run (steps : Nat) (w : Work) : Solution := solveFrom steps w.bindings w.pending

/-- One turn of the unifier that does not end the work. -/
inductive Step : Work → Work → Prop
  | same (s : Substitution) (term : Term) (rest : List Constraint) :
    Step ⟨s, ⟨term, term⟩ :: rest⟩ ⟨s, rest⟩
  | generic (s : Substitution) {c : Constraint} (h : c.Generic) (rest : List Constraint) :
    Step ⟨s, c :: rest⟩ ⟨s, rest⟩
  | bind (s : Substitution) {c : Constraint} {x : String} {t : Term} (h : c.Learns x t)
    (rest : List Constraint) :
    Step ⟨s, c :: rest⟩
      ⟨s.insert (.evar x) t, rest.map (Constraint.apply (s.insert (.evar x) t))⟩
  | split (s : Substitution) {c : Constraint} {parts : List Constraint} (h : c.Splits parts)
    (ne : c.head ≠ c.tail) (rest : List Constraint) : Step ⟨s, c :: rest⟩ ⟨s, rest ++ parts⟩

/-- Any number of steps. -/
abbrev Reaches : Work → Work → Prop := Relation.ReflTransGen Step

/-- What every step keeps holds of all that is reached. -/
theorem Reaches.preserves {I : Work → Prop} (hstep : ∀ {w w'}, Step w w' → I w → I w')
    {w w' : Work} (h : Reaches w w') (hw : I w) : I w' := by
  induction h with
  | refl => exact hw
  | tail _ hlast ih => exact hstep hlast ih

/-! ## Steps and runs -/

/-- Without a step the work is not done when there is one to take. -/
theorem Step.run_zero {w w' : Work} (h : Step w w') : w.run 0 = .unfinished := by
  cases h <;> rfl

/-- A step is what a run does first. -/
theorem Step.run_succ {w w' : Work} (h : Step w w') (n : Nat) : w.run (n + 1) = w'.run n := by
  cases h with
  | same s term rest => simp [run, solveFrom]
  | @generic s c h rest =>
    obtain ⟨a, b⟩ := c
    obtain ⟨name, rfl | rfl⟩ : ∃ name, a = gen name ∨ b = gen name := h
    · simp [run, solveFrom, Constraint.consequence]
    · cases a <;> simp [run, solveFrom, Constraint.consequence]
  | @bind s c x t h rest =>
    -- the variable is on the left, or on the right with no variable on the left
    obtain ⟨rfl | ⟨rfl, hvar⟩, hne, hgen⟩ := h
    · cases t <;> simp_all [run, solveFrom, Constraint.consequence, Ne.symm hne]
    · cases t <;> simp_all [run, solveFrom, Constraint.consequence]
  | split s h ne rest =>
    rw [run, solveFrom, if_neg ne]
    cases h with
    | types name h => simp [Constraint.consequence, h, run]
    | functions h a b => simp [Constraint.consequence, h, run]

/-- A clash ends the run. -/
theorem run_succ_of_clash {c : Constraint} (h : Clash c.head c.tail) (s : Substitution)
    (rest : List Constraint) : ∃ mismatch, ∀ n, run (n + 1) ⟨s, c :: rest⟩ = .failed mismatch := by
  have hne := h.ne
  have hmismatch : ∃ mismatch, c.consequence = .mismatch mismatch := by
    obtain ⟨head, tail⟩ := c
    cases h with
    | name h as bs => simp [Constraint.consequence, h]
    | parameters h m n => by_cases hname : m = n <;> simp [Constraint.consequence, h, hname]
    | arguments h a b => simp [Constraint.consequence, h]
    | consFn name as bs b => simp [Constraint.consequence]
    | fnCons as a name bs => simp [Constraint.consequence]
  obtain ⟨mismatch, hmismatch⟩ := hmismatch
  exact ⟨mismatch, fun n => by simp [run, solveFrom, hne, hmismatch]⟩

/-- There is a step for every first constraint that is not a clash. -/
theorem exists_step_or_clash (s : Substitution) (c : Constraint) (rest : List Constraint) :
    (∃ w, Step ⟨s, c :: rest⟩ w) ∨ Clash c.head c.tail := by
  obtain ⟨head, tail⟩ := c
  by_cases heq : head = tail
  · subst heq
    exact .inl ⟨_, .same s head rest⟩
  -- the cases of the two sides, in the order in which unification looks at them
  cases head with
  | gen name => exact .inl ⟨_, .generic s ⟨name, .inl rfl⟩ rest⟩
  | evar x =>
    by_cases hgen : ∃ name, tail = gen name
    · obtain ⟨name, rfl⟩ := hgen
      exact .inl ⟨_, .generic s ⟨name, .inr rfl⟩ rest⟩
    · exact .inl ⟨_, .bind s ⟨.inl rfl, Ne.symm heq, not_exists.1 hgen⟩ rest⟩
  | cons m as =>
    cases tail with
    | gen name => exact .inl ⟨_, .generic s ⟨name, .inr rfl⟩ rest⟩
    | evar x => exact .inl ⟨_, .bind s ⟨.inr ⟨rfl, by simp⟩, heq, by simp⟩ rest⟩
    | cons n bs =>
      -- two named types with one name are split when they have as many parameters
      by_cases hname : m = n
      · subst hname
        by_cases hlen : as.length = bs.length
        · exact .inl ⟨_, .split s (.types m hlen) heq rest⟩
        · exact .inr (.parameters hlen m m)
      · exact .inr (.name hname as bs)
    | fn bs b => exact .inr (.consFn m as bs b)
  | fn as a =>
    cases tail with
    | gen name => exact .inl ⟨_, .generic s ⟨name, .inr rfl⟩ rest⟩
    | evar x => exact .inl ⟨_, .bind s ⟨.inr ⟨rfl, by simp⟩, heq, by simp⟩ rest⟩
    | cons n bs => exact .inr (.fnCons as a n bs)
    | fn bs b =>
      by_cases hlen : as.length = bs.length
      · exact .inl ⟨_, .split s (.functions hlen a b) heq rest⟩
      · exact .inr (.arguments hlen a b)

/-- A run that is solved is a sequence of steps that leaves no constraint. -/
theorem reaches_of_run_eq_solved {n : Nat} {w : Work} {s : Substitution}
    (h : w.run n = .solved s) : Reaches w ⟨s, []⟩ := by
  obtain ⟨bindings, pending⟩ := w
  induction n generalizing bindings pending with
  | zero =>
    cases pending with
    | nil =>
      obtain rfl : bindings = s := by simpa [run, solveFrom] using h
      exact .refl
    | cons c rest => simp [run, solveFrom] at h
  | succ n ih =>
    cases pending with
    | nil =>
      obtain rfl : bindings = s := by simpa [run, solveFrom] using h
      exact .refl
    | cons c rest =>
      rcases exists_step_or_clash bindings c rest with ⟨w, hstep⟩ | hclash
      · rw [hstep.run_succ] at h
        exact .head hstep (ih w.bindings w.pending h)
      · obtain ⟨mismatch, hfailed⟩ := run_succ_of_clash hclash bindings rest
        rw [hfailed] at h
        cases h

/-- Steps taken from the start of a run leave the rest of the run. -/
theorem Reaches.exists_run_add_eq {w w' : Work} (h : Reaches w w') :
    ∃ k, ∀ n, w.run (n + k) = w'.run n := by
  induction h using Relation.ReflTransGen.head_induction_on with
  | refl => exact ⟨0, fun _ => rfl⟩
  | head hstep _ ih =>
    obtain ⟨k, hk⟩ := ih
    exact ⟨k + 1, fun n => by rw [← Nat.add_assoc, hstep.run_succ, hk]⟩

/-- More steps do not change an outcome. -/
theorem run_add_of_finished {n : Nat} {w : Work} (h : w.run n ≠ .unfinished) (k : Nat) :
    w.run (n + k) = w.run n := by
  obtain ⟨bindings, pending⟩ := w
  induction n generalizing bindings pending with
  | zero =>
    cases pending with
    | nil => cases k <;> rfl
    | cons c rest => exact absurd rfl h
  | succ n ih =>
    cases pending with
    | nil => rw [Nat.succ_add]; rfl
    | cons c rest =>
      rcases exists_step_or_clash bindings c rest with ⟨w, hstep⟩ | hclash
      · rw [Nat.succ_add, hstep.run_succ, hstep.run_succ]
        rw [hstep.run_succ] at h
        exact ih w.bindings w.pending h
      · obtain ⟨mismatch, hfailed⟩ := run_succ_of_clash hclash bindings rest
        rw [Nat.succ_add, hfailed, hfailed]

end Work

end TreeLang
