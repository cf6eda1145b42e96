import TreeLang.Proofs.Term.Generics

/-!
# The variables of a use

A use numbers its variables in the order in which the generic parameters come up first. The renaming
that does this is known after each parameter that has been read: the parameters so far have the next
numbers of the supply, and the others have none yet.
-/

namespace TreeLang

/-- Of a name that is read again, the first occurrence counts. -/
theorem eraseDups_concat (read : List String) (name : String) :
    (read ++ [name]).eraseDups =
      if name ∈ read then read.eraseDups else read.eraseDups ++ [name] := by
  rw [List.eraseDups_append, List.removeAll]
  by_cases hname : name ∈ read
  · rw [if_pos hname]
    simp [hname]
  · rw [if_neg hname]
    simp [hname, List.eraseDups_cons]

/-! ## Reading parameters -/

namespace Renaming

/-- The renaming after some parameters have been read: those that have come up have the numbers that
follow on the start of the supply, in the order of their first occurrences. -/
structure Reads (start : NameSupply) (read : List String) (r : Renaming) : Prop where
  issued : r.names.issued = start.issued + read.eraseDups.length
  chosen : List.Forall₂ (fun name n => r.chosen.find name = some (.evar (toString n)))
    read.eraseDups (List.range' (start.issued + 1) read.eraseDups.length)
  isSome_iff : ∀ name, (r.chosen.find name).isSome ↔ name ∈ read

variable {start : NameSupply} {read : List String} {r : Renaming}

/-- Before anything is read no variable is chosen. -/
theorem reads_initial (names : NameSupply) : Reads names [] { names } := by
  refine ⟨rfl, .nil, ?_⟩
  intro name
  simp [Table.find]

/-- A parameter that has come up keeps its variable. -/
theorem Reads.again {name : String} (h : Reads start read r) (hname : name ∈ read) :
    Reads start (read ++ [name]) (r.variableFor name).2 := by
  obtain ⟨term, hfind⟩ := Option.isSome_iff_exists.1 ((h.isSome_iff name).2 hname)
  have hread : (read ++ [name]).eraseDups = read.eraseDups := by
    rw [eraseDups_concat, if_pos hname]
  have hsame : (r.variableFor name).2 = r := by
    rw [variableFor, hfind]
  rw [hsame]
  refine ⟨?_, ?_, ?_⟩
  · rw [hread]
    exact h.issued
  · rw [hread]
    exact h.chosen
  · intro other
    rw [h.isSome_iff, List.mem_append, List.mem_singleton]
    constructor
    · exact .inl
    · rintro (hother | rfl)
      · exact hother
      · exact hname

/-- A parameter that is new gets the next number. -/
theorem Reads.first {name : String} (h : Reads start read r) (hname : name ∉ read) :
    Reads start (read ++ [name]) (r.variableFor name).2 := by
  have hfind : r.chosen.find name = none := by
    rw [← Option.not_isSome_iff_eq_none, h.isSome_iff]
    exact hname
  have hread : (read ++ [name]).eraseDups = read.eraseDups ++ [name] := by
    rw [eraseDups_concat, if_neg hname]
  have hnext : (r.variableFor name).2 =
      ⟨⟨r.names.issued + 1⟩, r.chosen.put name (.evar (toString (r.names.issued + 1)))⟩ := by
    rw [variableFor, hfind]
    rfl
  rw [hnext]
  refine ⟨?_, ?_, ?_⟩
  · show r.names.issued + 1 = _
    rw [hread, List.length_append, h.issued, List.length_singleton, Nat.add_assoc]
  · rw [hread, List.length_append, List.length_singleton, List.range'_concat]
    apply List.rel_append
    · refine h.chosen.imp ?_
      intro other n hother
      -- a parameter that has come up before is another one, so it keeps what it has
      have hne : other ≠ name := by
        rintro rfl
        cases hfind.symm.trans hother
      rw [Table.find_put_of_ne hne, hother]
    · refine .cons ?_ .nil
      rw [Table.find_put_self, h.issued]
      congr 3
      omega
  · intro other
    rw [List.mem_append, List.mem_singleton, ← h.isSome_iff]
    by_cases heq : other = name
    · rw [heq, Table.find_put_self]
      simp
    · rw [Table.find_put_of_ne heq]
      simp [heq]

/-- Reading one parameter more chooses a variable for it, unless it was read before. -/
theorem Reads.variableFor (h : Reads start read r) (name : String) :
    Reads start (read ++ [name]) (r.variableFor name).2 := by
  by_cases hname : name ∈ read
  · exact h.again hname
  · exact h.first hname

/-- Reads the parameters of a list one after the other. -/
def readAll (names : List String) (r : Renaming) : Renaming :=
  names.foldl (fun r name => (r.variableFor name).2) r

/-- Reading several parameters chooses a variable for each that was not read before. -/
theorem Reads.readAll (h : Reads start read r) (names : List String) :
    Reads start (read ++ names) (r.readAll names) := by
  induction names generalizing read r with
  | nil =>
    rw [List.append_nil]
    exact h
  | cons name rest ih =>
    have hrest := ih (h.variableFor name)
    rw [List.append_assoc] at hrest
    exact hrest

/-- The variables that have been chosen are the numbers that have been issued. -/
theorem Reads.map_choice (h : Reads start read r) :
    read.eraseDups.map r.choice =
      (List.range' (start.issued + 1) read.eraseDups.length).map toString := by
  rw [← List.forall₂_eq_eq_eq, List.forall₂_map_left_iff, List.forall₂_map_right_iff]
  refine h.chosen.imp ?_
  intro name n hfind
  exact r.agrees_choice name (toString n) hfind

end Renaming

namespace Term

open Renaming (Reads readAll)

/-! ## Reading terms -/

/-- Several terms are read one after the other. -/
theorem replaceGenericsList_snd {terms : List Term}
    (h : ∀ term ∈ terms, ∀ r, (term.replaceGenerics r).2 = r.readAll term.generics)
    (r : Renaming) :
    (replaceGenericsList terms r).2 = r.readAll (terms.flatMap generics) := by
  induction terms generalizing r with
  | nil => rfl
  | cons term rest ih =>
    obtain ⟨hterm, hrest⟩ := List.forall_mem_cons.1 h
    rw [List.flatMap_cons, readAll, List.foldl_append]
    show (replaceGenericsList rest (term.replaceGenerics r).2).2 = _
    rw [ih hrest, hterm]
    rfl

/-- The types of formals are read one after the other. -/
theorem replaceGenericsFormals_snd {formals : List Formal}
    (h : ∀ f ∈ formals, ∀ r, (f.type.replaceGenerics r).2 = r.readAll f.type.generics)
    (r : Renaming) :
    (replaceGenericsFormals formals r).2 =
      r.readAll (formals.flatMap fun f => f.type.generics) := by
  induction formals generalizing r with
  | nil => rfl
  | cons formal rest ih =>
    obtain ⟨label, type⟩ := formal
    obtain ⟨htype, hrest⟩ := List.forall_mem_cons.1 h
    rw [List.flatMap_cons, readAll, List.foldl_append]
    show (replaceGenericsFormals rest (type.replaceGenerics r).2).2 = _
    rw [ih hrest]
    exact congrArg (readAll _) (htype r)

/-- Replacing reads the parameters of the term from left to right. -/
theorem replaceGenerics_snd (term : Term) (r : Renaming) :
    (term.replaceGenerics r).2 = r.readAll term.generics := by
  induction term generalizing r with
  | evar name => rfl
  | gen name => rfl
  | cons name parameters ih =>
    rw [generics, genericsList_eq_flatMap]
    exact replaceGenericsList_snd ih r
  | fn arguments result ihs ih =>
    rw [generics, genericsFormals_eq_flatMap, readAll, List.foldl_append]
    show (result.replaceGenerics (replaceGenericsFormals arguments r).2).2 = _
    rw [ih, replaceGenericsFormals_snd ihs]
    rfl

/-! ## What is left of a term -/

section Variables

variable {ρ : String → String} {term : Term}

/-- Nothing is left of the generic parameters. -/
theorem generics_withVariables (ρ : String → String) (term : Term) :
    (term.withVariables ρ).generics = [] := by
  induction term with
  | evar name => rfl
  | gen name => rfl
  | cons name parameters ih =>
    rw [withVariables_cons, generics, genericsList_eq_flatMap, List.flatMap_map]
    exact List.flatMap_eq_nil_iff.2 ih
  | fn arguments result ihs ih =>
    rw [withVariables_fn, generics, genericsFormals_eq_flatMap, List.flatMap_map, ih,
      List.append_nil]
    exact List.flatMap_eq_nil_iff.2 ihs

/-- The variables of the term itself stay. -/
theorem mem_evars_withVariables_of_mem {x : String} (h : x ∈ term.evars) :
    x ∈ (term.withVariables ρ).evars := by
  induction term with
  | evar name => exact h
  | gen name => cases h
  | cons name parameters ih =>
    rw [mem_evars_cons] at h
    obtain ⟨p, hp, hx⟩ := h
    rw [withVariables_cons, mem_evars_cons]
    exact ⟨_, List.mem_map_of_mem hp, ih p hp hx⟩
  | fn arguments result ihs ih =>
    rw [mem_evars_fn] at h
    rw [withVariables_fn, mem_evars_fn]
    rcases h with ⟨f, hf, hx⟩ | hx
    · exact .inl ⟨_, List.mem_map_of_mem hf, ihs f hf hx⟩
    · exact .inr (ih hx)

end Variables

/-- The generic parameters of a term, each once, in the order of their first occurrences from left
to right. -/
def distinctGenerics (term : Term) : List String := term.generics.eraseDups

/-- A use has the next numbers of the supply as variables, one for each parameter. -/
theorem exists_eq_instantiate (term : Term) (names : NameSupply) :
    ∃ ρ : String → String,
      (term.instantiate names).1 = term.withVariables ρ ∧
      term.distinctGenerics.map ρ =
        (List.range' (names.issued + 1) term.distinctGenerics.length).map toString ∧
      (term.instantiate names).2.issued = names.issued + term.distinctGenerics.length := by
  have hreads : Reads names term.generics (term.replaceGenerics { names }).2 := by
    rw [replaceGenerics_snd]
    exact (Renaming.reads_initial names).readAll term.generics
  have heq := (replaces_generics term (.initial names)).eq _ (Renaming.agrees_choice _)
  exact ⟨_, heq, hreads.map_choice, hreads.issued⟩

variable {term : Term} {names : NameSupply} {ρ : String → String} {x : String}

/-- A variable that a use has in the place of a parameter is issued by the use. -/
theorem issues_of_map_distinctGenerics {n : Nat}
    (h : term.distinctGenerics.map ρ = (List.range' (names.issued + 1) n).map toString)
    {name : String} (hname : name ∈ term.generics) :
    names.Issues ⟨names.issued + n⟩ (ρ name) := by
  have hmem : ρ name ∈ term.distinctGenerics.map ρ :=
    List.mem_map_of_mem (List.mem_eraseDups.2 hname)
  rw [h, List.mem_map] at hmem
  obtain ⟨number, hnumber, heq⟩ := hmem
  obtain ⟨i, hi, rfl⟩ := List.mem_range'.1 hnumber
  refine ⟨names.issued + 1 + 1 * i, ?_, ?_, heq.symm⟩
  · omega
  · show _ ≤ names.issued + n
    omega

/-- The variables of a use are those of the term itself, and others that the use issues. -/
theorem mem_evars_instantiate (h : x ∈ (term.instantiate names).1.evars) :
    x ∈ term.evars ∨ names.Issues (term.instantiate names).2 x := by
  obtain ⟨ρ, heq, hnumbers, hissued⟩ := term.exists_eq_instantiate names
  rw [heq] at h
  rcases mem_evars_withVariables h with hx | ⟨name, hname, rfl⟩
  · exact .inl hx
  · obtain ⟨n, hlt, hle, hn⟩ := issues_of_map_distinctGenerics hnumbers hname
    exact .inr ⟨n, hlt, hissued ▸ hle, hn⟩

/-- **A use renames the generic parameters of a term freshly and consistently.** It has one variable
for each of them, and nothing else changes. The variables are the numbers that follow on those given
out, in the order in which the parameters first occur, and no others are given out. So two uses one
after the other have only the variables of the term itself in common, and none of these is new when
the supply has given them out before. -/
theorem instantiate_fresh (term : Term) (names : NameSupply) :
    (∃ ρ : String → String,
      (term.instantiate names).1 = term.withVariables ρ ∧
      term.distinctGenerics.map ρ =
        (List.range' (names.issued + 1) term.distinctGenerics.length).map toString ∧
      ((∀ x ∈ term.evars, NameSupply.start.Issues names x) →
        ∀ name ∈ term.generics, ρ name ∉ term.evars)) ∧
    (term.instantiate names).1.generics = [] ∧
    (term.instantiate names).2.issued = names.issued + term.distinctGenerics.length ∧
    ∀ x, x ∈ (term.instantiate names).1.evars ∧
        x ∈ (term.instantiate (term.instantiate names).2).1.evars ↔ x ∈ term.evars := by
  obtain ⟨ρ, heq, hnumbers, hissued⟩ := term.exists_eq_instantiate names
  refine ⟨⟨ρ, heq, hnumbers, ?_⟩, ?_, hissued, ?_⟩
  · intro hown name hname hmem
    exact (hown _ hmem).not_of_le (Nat.le_refl _) (issues_of_map_distinctGenerics hnumbers hname)
  · rw [heq]
    exact generics_withVariables ρ term
  · intro x
    constructor
    · rintro ⟨hfirst, hsecond⟩
      rcases mem_evars_instantiate hfirst with hx | hissued
      · exact hx
      · rcases mem_evars_instantiate hsecond with hx | hlater
        · exact hx
        · -- what the second use issues comes after what the first one has issued
          exact absurd hlater (hissued.not_of_le (Nat.le_refl _))
    · intro hx
      obtain ⟨ρ', heq', -⟩ := term.exists_eq_instantiate (term.instantiate names).2
      rw [heq, heq']
      exact ⟨mem_evars_withVariables_of_mem hx, mem_evars_withVariables_of_mem hx⟩

/-- `(key: ?2, U, T) -> Pair<U, ?1>` -/
def keyedPair : Term :=
  fn [⟨some "key", evar "2"⟩, ⟨none, gen "U"⟩, ⟨none, gen "T"⟩] (cons "Pair" [gen "U", evar "1"])

/-- A use after two variables have been given out, which are those of the term. -/
theorem instantiate_fresh_keyedPair :
    (∀ x ∈ keyedPair.evars, NameSupply.start.Issues ⟨2⟩ x) ∧
      (keyedPair.instantiate ⟨2⟩).1 =
        fn [⟨some "key", evar "2"⟩, ⟨none, evar "3"⟩, ⟨none, evar "4"⟩]
          (cons "Pair" [evar "3", evar "1"]) ∧
      ∃ ρ : String → String, (keyedPair.instantiate ⟨2⟩).1 = keyedPair.withVariables ρ ∧
        keyedPair.distinctGenerics.map ρ = ["3", "4"] ∧ ρ "T" ∉ keyedPair.evars := by
  have hown : ∀ x ∈ keyedPair.evars, NameSupply.start.Issues ⟨2⟩ x := by
    intro x hx
    have hx : x = "2" ∨ x = "1" := by simpa [keyedPair, evars, evarsList, evarsFormals] using hx
    rcases hx with rfl | rfl
    · exact ⟨2, by decide, by decide, by decide⟩
    · exact ⟨1, by decide, by decide, by decide⟩
  obtain ⟨⟨ρ, heq, hnumbers, hnew⟩, -⟩ := instantiate_fresh keyedPair ⟨2⟩
  refine ⟨hown, by decide, ρ, heq, ?_, ?_⟩
  · rw [hnumbers]
    decide
  · exact hnew hown "T" (by decide)

end Term

end TreeLang
