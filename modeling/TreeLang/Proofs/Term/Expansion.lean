import Mathlib.Data.List.Induction
import Mathlib.Logic.Relation
import TreeLang.Proofs.Term.Substitution

/-!
# What applying a substitution leaves

Applying a substitution follows the latest bindings, into the bound terms too, and leaves a bound
variable only where that variable is being expanded. The recursion comes to an end without a bound
on its depth, because a term is not expanded inside its own expansion. A bound variable that is left
leads back to itself. Where none does, nothing bound is left, and applying the substitution again
changes nothing.
-/

namespace TreeLang

open Term

namespace Substitution

variable {s : Substitution} {expanding : List Term} {term a b t : Term} {x : String}

/-! ## Expansion without a bound -/

/-- The term is being expanded already, or has no binding. -/
def Stays (s : Substitution) (expanding : List Term) (term : Term) : Prop :=
  term ∈ expanding ∨ s.lookup term = none

/-- The recursion that follows the latest bindings, with the terms that are being expanded and
without any bound: what each call returns, and from which calls. A call that never returned would
not be related to a result. -/
inductive Expands (s : Substitution) : List Term → Term → Term → Prop
  | follow {expanding : List Term} {key bound result : Term} (free : key ∉ expanding)
    (latest : s.lookup key = some bound) (call : Expands s (key :: expanding) bound result) :
    Expands s expanding key result
  | evar {expanding : List Term} {name : String} (stays : s.Stays expanding (evar name)) :
    Expands s expanding (evar name) (evar name)
  | gen {expanding : List Term} {name : String} (stays : s.Stays expanding (gen name)) :
    Expands s expanding (gen name) (gen name)
  | cons {expanding : List Term} {name : String} {parameters : List Term} {result : Term → Term}
    (stays : s.Stays expanding (cons name parameters))
    (calls : ∀ p ∈ parameters, Expands s expanding p (result p)) :
    Expands s expanding (cons name parameters) (cons name (parameters.map result))
  | fn {expanding : List Term} {arguments : List Formal} {returned : Term} {result : Term → Term}
    (stays : s.Stays expanding (fn arguments returned))
    (calls : ∀ f ∈ arguments, Expands s expanding f.type (result f.type))
    (call : Expands s expanding returned (result returned)) :
    Expands s expanding (fn arguments returned)
      (fn (arguments.map (Formal.mapType result)) (result returned))

/-- A term that stays has no binding to follow. -/
theorem Stays.not_follow {bound : Term} (h : s.Stays expanding term) (free : term ∉ expanding)
    (latest : s.lookup term = some bound) : False := by
  rcases h with hmem | hnone
  · exact free hmem
  · rw [hnone] at latest
    cases latest

/-- A call returns one result. -/
theorem Expands.unique (ha : s.Expands expanding term a) (hb : s.Expands expanding term b) :
    a = b := by
  -- by induction on the first call; the second one must be of the same kind, as a binding either
  -- applies or does not
  induction ha generalizing b with
  | follow free latest _ ih =>
    cases hb with
    | follow _ latest' call' =>
      rw [latest] at latest'
      cases latest'
      exact ih call'
    | evar stays | gen stays | cons stays _ | fn stays _ _ =>
      exact (stays.not_follow free latest).elim
  | evar stays =>
    cases hb with
    | follow free latest _ => exact (stays.not_follow free latest).elim
    | evar _ => rfl
  | gen stays =>
    cases hb with
    | follow free latest _ => exact (stays.not_follow free latest).elim
    | gen _ => rfl
  | cons stays _ ih =>
    cases hb with
    | follow free latest _ => exact (stays.not_follow free latest).elim
    | cons _ calls' => rw [List.map_congr_left fun p hp => ih p hp (calls' p hp)]
  | fn stays _ _ ihs ih =>
    cases hb with
    | follow free latest _ => exact (stays.not_follow free latest).elim
    | fn _ calls' call' =>
      rw [ih call']
      congr 1
      apply List.map_congr_left
      intro f hf
      rw [Formal.mapType, Formal.mapType, ihs f hf (calls' f hf)]

/-- A replacement expands a term when it replaces by results, and only where a binding applies. -/
theorem expands_replaceOutermost {new : Term → Option Term}
    (hnone : ∀ key, new key = none → s.Stays expanding key)
    (hsome : ∀ key result, new key = some result → s.Expands expanding key result) (term : Term) :
    s.Expands expanding term (term.replaceOutermost new) := by
  -- at each kind of term, either there is a replacement or only the parts are replaced
  induction term with
  | evar name =>
    rw [replaceOutermost]
    cases hnew : new (Term.evar name) with
    | none => exact .evar (hnone _ hnew)
    | some result => exact hsome _ _ hnew
  | gen name =>
    rw [replaceOutermost]
    cases hnew : new (Term.gen name) with
    | none => exact .gen (hnone _ hnew)
    | some result => exact hsome _ _ hnew
  | cons name parameters ih =>
    rw [replaceOutermost]
    cases hnew : new (Term.cons name parameters) with
    | none =>
      simp only [replaceOutermostList_eq_map]
      exact .cons (hnone _ hnew) ih
    | some result => exact hsome _ _ hnew
  | fn arguments returned ihs ih =>
    rw [replaceOutermost]
    cases hnew : new (Term.fn arguments returned) with
    | none =>
      simp only [replaceOutermostFormals_eq_map]
      exact .fn (hnone _ hnew) ihs ih
    | some result => exact hsome _ _ hnew

/-- The expansion of a term comes to an end, and the bound on its depth does not cut it short. -/
theorem expands_applyExcept (s : Substitution) (expanding : List Term) (term : Term) :
    s.Expands expanding term (s.applyExcept expanding term) := by
  -- each binding that is followed leaves room for fewer
  induction hroom : s.room expanding using Nat.strongRecOn generalizing expanding term with
  | ind room ih =>
    have hdepth : s.applyExcept expanding term = s.applyWithin (room + 1) expanding term :=
      applyWithin_eq_of_room_le (room_le _) (by omega) term
    rw [hdepth, applyWithin]
    apply expands_replaceOutermost
    · intro key hkey
      split at hkey
      · next hmem => exact .inl hmem
      · exact .inr (Option.map_eq_none_iff.1 hkey)
    · intro key result hkey
      split at hkey
      · cases hkey
      · next hfree =>
        obtain ⟨bound, hbound, rfl⟩ := Option.map_eq_some_iff.1 hkey
        have hlt := room_cons_lt (mem_of_lookup hbound) hfree
        have hcall := ih _ (hroom ▸ hlt) (key :: expanding) bound rfl
        have hdepth : s.applyExcept (key :: expanding) bound =
            s.applyWithin room (key :: expanding) bound :=
          applyWithin_eq_of_room_le (room_le _) (by omega) bound
        exact .follow hfree hbound (hdepth ▸ hcall)

/-! ## Latest bindings -/

/-- The substitution that is made by binding variables one after the other. -/
def ofBindings (bindings : List (String × Term)) : Substitution :=
  bindings.foldl (fun s binding => s.insert (evar binding.1) binding.2) .empty

/-- The last of the bindings of a variable is to the term. -/
def IsLatest (bindings : List (String × Term)) (x : String) (t : Term) : Prop :=
  ∃ before after, bindings = before ++ (x, t) :: after ∧ x ∉ after.map Prod.fst

/-- The latest binding of the first variable mentions the second one. -/
def Leads (s : Substitution) (x y : String) : Prop :=
  ∃ t, s.lookup (evar x) = some t ∧ y ∈ t.evars

/-- A binding that comes last replaces what the variable had. -/
theorem ofBindings_concat (bindings : List (String × Term)) (y : String) (u : Term) :
    ofBindings (bindings ++ [(y, u)]) = (ofBindings bindings).insert (evar y) u :=
  List.foldl_append

/-- Bindings of variables are kept under variables. -/
theorem keyed_ofBindings (bindings : List (String × Term)) : (ofBindings bindings).Keyed := by
  induction bindings using List.reverseRecOn with
  | nil => exact keyed_empty
  | append_singleton bindings binding ih =>
    rw [ofBindings_concat]
    exact ih.insert _ _

/-- The latest binding of a variable is the last one in the list. -/
theorem isLatest_concat {bindings : List (String × Term)} {y : String} {u : Term} :
    IsLatest (bindings ++ [(y, u)]) x t ↔
      if y = x then t = u else IsLatest bindings x t := by
  constructor
  · rintro ⟨before, after, hbindings, hafter⟩
    rcases List.eq_nil_or_concat after with rfl | ⟨init, last, rfl⟩
    · obtain ⟨-, hlast⟩ := List.append_inj' hbindings rfl
      cases hlast
      rw [if_pos rfl]
    · rw [List.concat_eq_append, ← List.cons_append, ← List.append_assoc] at hbindings
      obtain ⟨rfl, hlast⟩ := List.append_inj' hbindings rfl
      cases hlast
      rw [List.concat_eq_append, List.map_append, List.mem_append, not_or] at hafter
      have hne : y ≠ x := fun h => hafter.2 (h ▸ List.mem_singleton_self _)
      rw [if_neg hne]
      exact ⟨before, init, rfl, hafter.1⟩
  · intro h
    by_cases hy : y = x
    · rw [if_pos hy] at h
      exact ⟨bindings, [], by rw [hy, h], List.not_mem_nil⟩
    · rw [if_neg hy] at h
      obtain ⟨before, after, rfl, hafter⟩ := h
      refine ⟨before, after ++ [(y, u)], by rw [List.append_assoc, List.cons_append], ?_⟩
      rw [List.map_append, List.mem_append, not_or]
      exact ⟨hafter, fun hx => hy (List.mem_singleton.1 hx).symm⟩

/-- Of several bindings of a variable the last one counts. -/
theorem lookup_ofBindings {bindings : List (String × Term)} :
    (ofBindings bindings).lookup (evar x) = some t ↔ IsLatest bindings x t := by
  induction bindings using List.reverseRecOn with
  | nil =>
    constructor
    · intro h
      cases h
    · rintro ⟨before, after, hbindings, -⟩
      cases before <;> cases hbindings
  | append_singleton bindings binding ih =>
    obtain ⟨y, u⟩ := binding
    rw [ofBindings_concat, lookup_insert, isLatest_concat, ← ih]
    by_cases hy : y = x
    · rw [if_pos (congrArg evar hy), if_pos hy, Option.some.injEq, eq_comm]
    · rw [if_neg fun h => hy (evar.inj h), if_neg hy]

/-- Bound are the variables that the list has a binding for. -/
theorem binds_ofBindings {bindings : List (String × Term)} :
    (ofBindings bindings).Binds x ↔ x ∈ bindings.map Prod.fst := by
  induction bindings using List.reverseRecOn with
  | nil => exact ⟨nofun, nofun⟩
  | append_singleton bindings binding ih =>
    rw [ofBindings_concat, binds_insert, ih, List.map_append, List.mem_append]
    exact or_congr_right List.mem_singleton.symm

/-- What is bound has a binding. -/
theorem Binds.lookup_ne_none (h : s.Binds x) : s.lookup (evar x) ≠ none := by
  intro hnone
  obtain ⟨pair, hpair, hkey⟩ := List.mem_map.1 h
  rw [lookup, Option.map_eq_none_iff, List.find?_eq_none] at hnone
  exact hnone pair (List.mem_reverse.2 hpair) (decide_eq_true hkey)

/-! ## What is left -/

/-- A bound variable that an expansion leaves leads back to itself, if the variables that are being
expanded lead to those of the term. -/
theorem Expands.leads_of_mem_evars (hs : s.Keyed) (h : s.Expands expanding term a)
    (hexp : ∀ y, Term.evar y ∈ expanding → ∀ z ∈ term.evars, Relation.TransGen s.Leads y z) :
    ∀ x ∈ a.evars, s.Binds x → Relation.TransGen s.Leads x x := by
  -- by induction on the expansion: what it follows leads on, and what stays is bound only if it is
  -- being expanded
  induction h with
  | @follow expanding key bound result free latest _ ih =>
    obtain ⟨k, rfl⟩ : ∃ k, key = Term.evar k := hs _ (mem_of_lookup latest)
    apply ih
    intro y hy z hz
    have hleads : s.Leads k z := ⟨bound, latest, hz⟩
    rcases List.mem_cons.1 hy with hyk | hy
    · cases hyk
      exact .single hleads
    · exact .tail (hexp y hy k (mem_evars_evar.2 rfl)) hleads
  | evar stays =>
    intro x hx hbound
    obtain rfl := mem_evars_evar.1 hx
    -- a bound variable that stays is one of those being expanded, which lead to it
    rcases stays with hmem | hnone
    · exact hexp x hmem x hx
    · exact absurd hnone hbound.lookup_ne_none
  | gen _ => exact nofun
  | cons _ _ ih =>
    intro x hx hbound
    obtain ⟨p, hp, hx⟩ := mem_evars_cons.1 hx
    obtain ⟨q, hq, rfl⟩ := List.mem_map.1 hp
    exact ih q hq (fun y hy z hz => hexp y hy z (mem_evars_cons.2 ⟨q, hq, hz⟩)) x hx hbound
  | fn _ _ _ ihs ih =>
    intro x hx hbound
    rcases mem_evars_fn.1 hx with ⟨f, hf, hx⟩ | hx
    · obtain ⟨g, hg, rfl⟩ := List.mem_map.1 hf
      exact ihs g hg (fun y hy z hz => hexp y hy z (mem_evars_fn.2 (.inl ⟨g, hg, hz⟩))) x hx hbound
    · exact ih (fun y hy z hz => hexp y hy z (mem_evars_fn.2 (.inr hz))) x hx hbound

/-- A bound variable that is left leads back to itself. -/
theorem Keyed.leads_of_mem_evars_apply (hs : s.Keyed) (hx : x ∈ (s.apply term).evars)
    (hbound : s.Binds x) : Relation.TransGen s.Leads x x :=
  (s.expands_applyExcept [] term).leads_of_mem_evars hs nofun x hx hbound

/-- A variable that does not lead back to itself becomes what its latest binding becomes. -/
theorem Keyed.apply_evar_of_lookup (hs : s.Keyed) (hcycle : ¬ Relation.TransGen s.Leads x x)
    (hlatest : s.lookup (evar x) = some t) : s.apply (evar x) = s.apply t := by
  rw [apply_eq_applyExcept, apply_eq_applyExcept, applyExcept_evar List.not_mem_nil hlatest]
  -- the variable is out of reach of its binding, so that it does not matter that it is expanded
  apply hs.applyWithin_congr (R := fun y => Relation.TransGen s.Leads x y)
  · intro y u hu hy z hz
    exact .tail hy ⟨u, hu, hz⟩
  · intro y hy
    have hne : y ≠ x := by
      rintro rfl
      exact hcycle hy
    simp [hne]
  · intro y hy
    exact .single ⟨t, hlatest, hy⟩

/-- Applying a substitution that is made by any bindings of variables, of which the latest count.
The expansion of every term comes to an end. Each bound variable that is left in the result leads
back to itself through latest bindings. If no variable does, no bound variable is left, applying the
substitution again changes nothing, and a variable becomes what its latest binding becomes. -/
theorem apply_resolves (bindings : List (String × Term)) (term : Term) :
    (∀ x t, (ofBindings bindings).lookup (evar x) = some t ↔ IsLatest bindings x t) ∧
      (∀ result, (ofBindings bindings).Expands [] term result ↔
        result = (ofBindings bindings).apply term) ∧
      (∀ x ∈ ((ofBindings bindings).apply term).evars, x ∈ bindings.map Prod.fst →
        Relation.TransGen (ofBindings bindings).Leads x x) ∧
      ((∀ x, ¬ Relation.TransGen (ofBindings bindings).Leads x x) →
        (∀ x ∈ ((ofBindings bindings).apply term).evars, x ∉ bindings.map Prod.fst) ∧
          (ofBindings bindings).apply ((ofBindings bindings).apply term) =
            (ofBindings bindings).apply term ∧
          ∀ x t, term = evar x → (ofBindings bindings).lookup (evar x) = some t →
            (ofBindings bindings).apply term = (ofBindings bindings).apply t) := by
  have hs := keyed_ofBindings bindings
  have hends := (ofBindings bindings).expands_applyExcept [] term
  refine ⟨fun x t => lookup_ofBindings, fun result => ⟨fun h => h.unique hends, ?_⟩, ?_, ?_⟩
  · rintro rfl
    exact hends
  · intro x hx hbound
    exact hs.leads_of_mem_evars_apply hx (binds_ofBindings.2 hbound)
  · intro hacyclic
    have havoids : (ofBindings bindings).Avoids ((ofBindings bindings).apply term) :=
      fun x hx hbound => hacyclic x (hs.leads_of_mem_evars_apply hx hbound)
    refine ⟨fun x hx hbound => havoids x hx (binds_ofBindings.2 hbound), ?_, ?_⟩
    · exact hs.applyExcept_of_avoids havoids []
    · rintro x t rfl hlatest
      exact hs.apply_evar_of_lookup (hacyclic x) hlatest

/-- A variable that is bound to a list of itself first, and then to a list of another one. -/
def reboundBindings : List (String × Term) :=
  [("a", array (evar "a")), ("b", string), ("a", array (evar "b"))]

/-- The first binding is a circle, and no longer counts. -/
theorem not_leads_rebound (x : String) :
    ¬ Relation.TransGen (ofBindings reboundBindings).Leads x x := by
  -- the list of the other variable is the only bound term with a variable in it
  have hleads : ∀ x y, (ofBindings reboundBindings).Leads x y → x = "a" ∧ y = "b" := by
    rintro x y ⟨t, hlatest, hy⟩
    have hlookup : (ofBindings reboundBindings).lookup (evar x) =
        if evar "a" = evar x then some (array (evar "b"))
        else if evar "b" = evar x then some string
        else if evar "a" = evar x then some (array (evar "a")) else none := by
      change (((empty.insert _ _).insert _ _).insert _ _).lookup _ = _
      rw [lookup_insert, lookup_insert, lookup_insert]
      rfl
    rw [hlookup] at hlatest
    by_cases ha : evar "a" = evar x
    · rw [if_pos ha] at hlatest
      cases hlatest
      exact ⟨(evar.inj ha).symm, by simpa [array] using hy⟩
    · rw [if_neg ha, if_neg ha] at hlatest
      split at hlatest
      · cases hlatest
        cases hy
      · cases hlatest
  intro hcycle
  obtain ⟨y, hfirst, -⟩ := Relation.TransGen.head'_iff.1 hcycle
  obtain ⟨y', -, hlast⟩ := Relation.TransGen.tail'_iff.1 hcycle
  obtain ⟨rfl, -⟩ := hleads _ _ hfirst
  obtain ⟨-, hb⟩ := hleads _ _ hlast
  exact absurd hb (by decide)

/-- The variable becomes what its second binding becomes, and nothing bound is left of it. -/
theorem apply_resolves_rebound :
    (∀ x, ¬ Relation.TransGen (ofBindings reboundBindings).Leads x x) ∧
      (ofBindings reboundBindings).apply (evar "a") = array string ∧
      (ofBindings reboundBindings).apply (array string) = array string ∧
      (ofBindings reboundBindings).apply (evar "a") =
        (ofBindings reboundBindings).apply (array (evar "b")) := by
  have happly : (ofBindings reboundBindings).apply (evar "a") = array string := by decide
  obtain ⟨-, -, -, hresolved⟩ := apply_resolves reboundBindings (evar "a")
  obtain ⟨-, hagain, hlatest⟩ := hresolved not_leads_rebound
  rw [happly] at hagain
  exact ⟨not_leads_rebound, happly, hagain, hlatest "a" _ rfl (by decide)⟩

end Substitution

end TreeLang
