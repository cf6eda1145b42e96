import Mathlib.Data.List.Nodup
import TreeLang.Library.Graph

/-!
# What an import graph records

A graph is read through the names of its libraries: which names it holds, and which name imports
which. Adding a library and recording an import change one of the two by what they are given.
-/

namespace TreeLang

namespace LibraryGraph

variable {graph graph' graph'' : LibraryGraph} {name : String} {importer imported number : Nat}

/-- The names of the libraries, in the order of their numbers. -/
def names (graph : LibraryGraph) : List String := graph.libraries.map LibraryEntry.name

/-- The library with the first name is recorded to import the one with the second. -/
def Imports (graph : LibraryGraph) (a b : String) : Prop :=
  ∃ importer, ∃ imported ∈ graph.importsOf importer,
    graph.nameOf importer = a ∧ graph.nameOf imported = b

/-- No two libraries have one name, and all imports are libraries of the graph. -/
structure WellFormed (graph : LibraryGraph) : Prop where
  names_nodup : graph.names.Nodup
  lt_of_mem_importsOf : ∀ importer, ∀ imported ∈ graph.importsOf importer, imported < graph.size

/-! ## Numbers and names -/

/-- There are as many names as libraries. -/
theorem length_names (graph : LibraryGraph) : graph.names.length = graph.size := List.length_map _

/-- The name of a library is at its place in the list of names. -/
theorem nameOf_eq (graph : LibraryGraph) (number : Nat) :
    graph.nameOf number = graph.names[number]?.getD "" := by
  rw [nameOf, names, List.getElem?_map]
  cases graph.libraries[number]? <;> rfl

/-- The imports of a library are those of the entry at its place. -/
theorem importsOf_eq (graph : LibraryGraph) (number : Nat) :
    graph.importsOf number = (graph.libraries[number]?.map LibraryEntry.imports).getD [] := by
  rw [importsOf]
  cases graph.libraries[number]? <;> rfl

/-- The names list the library of each number at its place. -/
theorem getElem?_names (h : number < graph.size) :
    graph.names[number]? = some (graph.nameOf number) := by
  rw [nameOf_eq, List.getElem?_eq_getElem (graph.length_names.symm ▸ h), Option.getD_some]

/-- The name of a library of the graph is one of its names. -/
theorem nameOf_mem_names (h : number < graph.size) : graph.nameOf number ∈ graph.names :=
  List.mem_of_getElem? (getElem?_names h)

/-- Each name is that of a library of the graph. -/
theorem exists_of_mem_names (h : name ∈ graph.names) :
    ∃ number < graph.size, graph.nameOf number = name := by
  obtain ⟨number, hnumber⟩ := List.getElem?_of_mem h
  obtain ⟨hlt, -⟩ := List.getElem?_eq_some_iff.1 hnumber
  rw [length_names] at hlt
  exact ⟨number, hlt, Option.some.inj ((getElem?_names hlt).symm.trans hnumber)⟩

/-- A library that imports something is in the graph. -/
theorem lt_size_of_mem_importsOf (h : imported ∈ graph.importsOf importer) :
    importer < graph.size := by
  rw [importsOf] at h
  cases hentry : graph.libraries[importer]? with
  | none =>
    rw [hentry] at h
    cases h
  | some library => exact (List.getElem?_eq_some_iff.1 hentry).1

namespace WellFormed

/-- In a well-formed graph a library is known by its name. -/
theorem nameOf_inj (h : graph.WellFormed) {a b : Nat} (ha : a < graph.size) (hb : b < graph.size)
    (hname : graph.nameOf a = graph.nameOf b) : a = b := by
  refine (List.getElem?_inj (graph.length_names.symm ▸ ha) h.names_nodup).1 ?_
  rw [getElem?_names ha, getElem?_names hb, hname]

/-- In a well-formed graph a name is resolved to the library that has it. -/
theorem resolve?_eq_some_iff (h : graph.WellFormed) :
    graph.resolve? name = some number ↔ number < graph.size ∧ graph.nameOf number = name := by
  rw [resolve?, List.findIdx?_eq_some_iff_getElem]
  constructor
  · rintro ⟨hlt, hname, -⟩
    refine ⟨hlt, ?_⟩
    rw [nameOf, List.getElem?_eq_getElem hlt]
    exact of_decide_eq_true hname
  · rintro ⟨hlt, hname⟩
    have hentry : ∀ other (hother : other < graph.size),
        graph.libraries[other].name = graph.nameOf other := by
      intro other hother
      rw [nameOf, List.getElem?_eq_getElem hother]
    refine ⟨hlt, decide_eq_true ((hentry number hlt).trans hname), fun other hother hsame => ?_⟩
    have hsize : other < graph.size := Nat.lt_trans hother hlt
    have hsame := (hentry other hsize).symm.trans (of_decide_eq_true hsame)
    exact absurd (h.nameOf_inj hsize hlt (hsame.trans hname.symm)) (Nat.ne_of_lt hother)

end WellFormed

/-- A name is resolved unless the graph does not have it. -/
theorem resolve?_eq_none_iff : graph.resolve? name = none ↔ name ∉ graph.names := by
  rw [resolve?, List.findIdx?_eq_none_iff, names, List.mem_map]
  simp

/-! ## Growth -/

/-- A graph after some names and some imports were added to it. The libraries that it has keep their
numbers. -/
structure Grows (before after : LibraryGraph) (new : String → Prop)
    (recorded : String → String → Prop) : Prop where
  wellFormed : after.WellFormed
  names_prefix : before.names <+: after.names
  mem_names_iff : ∀ name, name ∈ after.names ↔ name ∈ before.names ∨ new name
  imports_iff : ∀ a b, after.Imports a b ↔ before.Imports a b ∨ recorded a b

/-- A graph whose names were continued is not smaller. -/
theorem size_le_of_names_grow (h : graph.names <+: graph'.names) : graph.size ≤ graph'.size := by
  rw [← length_names, ← length_names]
  exact h.length_le

/-- Libraries keep their names when others are added after them. -/
theorem nameOf_eq_of_names_grow (h : graph.names <+: graph'.names) (hnumber : number < graph.size) :
    graph'.nameOf number = graph.nameOf number := by
  rw [nameOf_eq, nameOf_eq]
  obtain ⟨rest, hrest⟩ := h
  rw [← hrest, List.getElem?_append_left (graph.length_names.symm ▸ hnumber)]

namespace Grows

variable {new new' : String → Prop} {recorded recorded' : String → String → Prop}

/-- A graph has grown by nothing from itself. -/
theorem refl (h : graph.WellFormed) : Grows graph graph (fun _ => False) fun _ _ => False where
  wellFormed := h
  names_prefix := List.prefix_refl _
  mem_names_iff _ := (or_false _).symm.to_iff
  imports_iff _ _ := (or_false _).symm.to_iff

/-- What was added in two steps was added in one. -/
theorem trans (h : Grows graph graph' new recorded) (h' : Grows graph' graph'' new' recorded') :
    Grows graph graph'' (fun name => new name ∨ new' name)
      fun a b => recorded a b ∨ recorded' a b where
  wellFormed := h'.wellFormed
  names_prefix := h.names_prefix.trans h'.names_prefix
  mem_names_iff name := by rw [h'.mem_names_iff, h.mem_names_iff, or_assoc]
  imports_iff a b := by rw [h'.imports_iff, h.imports_iff, or_assoc]

/-- What was added can be described in other words. -/
theorem congr (h : Grows graph graph' new recorded) (hnew : ∀ name, new name ↔ new' name)
    (hrecorded : ∀ a b, recorded a b ↔ recorded' a b) : Grows graph graph' new' recorded' where
  wellFormed := h.wellFormed
  names_prefix := h.names_prefix
  mem_names_iff name := by rw [h.mem_names_iff, hnew]
  imports_iff a b := by rw [h.imports_iff, hrecorded]

end Grows

/-- Steps that each add something add all of it, one after the other. -/
theorem WellFormed.foldl {α : Type} {step : LibraryGraph → α → LibraryGraph}
    {new : α → String → Prop} {recorded : α → String → String → Prop} (h : graph.WellFormed)
    {list : List α}
    (hstep : ∀ a ∈ list, ∀ later : LibraryGraph, later.WellFormed → graph.names <+: later.names →
      Grows later (step later a) (new a) (recorded a)) :
    Grows graph (list.foldl step graph) (fun name => ∃ a ∈ list, new a name)
      fun importer imported => ∃ a ∈ list, recorded a importer imported := by
  induction list generalizing graph with
  | nil => exact (Grows.refl h).congr (by simp) (by simp)
  | cons a rest ih =>
    have hfirst := hstep a List.mem_cons_self graph h (List.prefix_refl _)
    have hrest := ih hfirst.wellFormed fun b hb later hlater hprefix =>
      hstep b (List.mem_cons_of_mem _ hb) later hlater (hfirst.names_prefix.trans hprefix)
    exact (hfirst.trans hrest).congr (by simp) (by simp)

/-- The graph without libraries is well formed. -/
theorem wellFormed_empty : empty.WellFormed where
  names_nodup := List.nodup_nil
  lt_of_mem_importsOf _ _ h := nomatch lt_size_of_mem_importsOf h

/-- In the graph without libraries nothing is imported. -/
theorem not_imports_empty (a b : String) : ¬ empty.Imports a b := by
  rintro ⟨importer, imported, hmem, -⟩
  exact nomatch lt_size_of_mem_importsOf hmem

/-- A new library imports nothing. -/
theorem importsOf_concat (graph : LibraryGraph) (name : String) (number : Nat) :
    importsOf { libraries := graph.libraries ++ [{ name, imports := [] }] } number =
      graph.importsOf number := by
  rw [importsOf_eq, importsOf_eq, List.getElem?_append]
  by_cases h : number < graph.libraries.length
  · rw [if_pos h]
  · rw [if_neg h, List.getElem?_eq_none (Nat.le_of_not_lt h)]
    cases number - graph.libraries.length <;> rfl

/-- Adding a library. -/
theorem WellFormed.add (h : graph.WellFormed) (name : String) :
    Grows graph (graph.add name).2 (· = name) (fun _ _ => False) ∧
      (graph.add name).1 < (graph.add name).2.size ∧
      (graph.add name).2.nameOf (graph.add name).1 = name := by
  rw [LibraryGraph.add]
  cases hresolve : graph.resolve? name with
  -- a library that is known is not added again
  | some number =>
    obtain ⟨hlt, hname⟩ := h.resolve?_eq_some_iff.1 hresolve
    have hmem : name ∈ graph.names := hname ▸ nameOf_mem_names hlt
    refine ⟨{ Grows.refl h with mem_names_iff := fun other => ?_ }, hlt, hname⟩
    exact (or_iff_left_of_imp fun hother => hother ▸ hmem).symm
  | none =>
    -- a new one takes the next number, and the numbers and names before it stay as they are
    have hnew := resolve?_eq_none_iff.1 hresolve
    set added : LibraryGraph := { libraries := graph.libraries ++ [{ name, imports := [] }] }
    have hnames : added.names = graph.names ++ [name] := List.map_append
    have hsize : added.size = graph.size + 1 := List.length_append
    have hname : added.nameOf graph.size = name := by
      rw [nameOf_eq, hnames, ← length_names, List.getElem?_concat_length, Option.getD_some]
    have hkept : ∀ number < graph.size, added.nameOf number = graph.nameOf number := by
      intro number hnumber
      rw [nameOf_eq, nameOf_eq, hnames,
        List.getElem?_append_left (graph.length_names.symm ▸ hnumber)]
    refine ⟨⟨⟨?_, ?_⟩, ?_, ?_, ?_⟩, hsize ▸ Nat.lt_succ_self _, hname⟩
    · rw [hnames]
      exact h.names_nodup.append (List.nodup_singleton name)
        (List.disjoint_singleton.2 hnew)
    · intro importer imported hmem
      rw [importsOf_concat] at hmem
      exact hsize ▸ Nat.lt_succ_of_lt (h.lt_of_mem_importsOf importer imported hmem)
    · exact hnames ▸ List.prefix_append _ _
    · intro other
      rw [hnames, List.mem_append, List.mem_singleton]
    · -- no imports are added, and those of earlier libraries are between names that were kept
      intro a b
      rw [or_false]
      constructor
      · rintro ⟨importer, imported, hmem, rfl, rfl⟩
        rw [importsOf_concat] at hmem
        exact ⟨importer, imported, hmem, (hkept _ (lt_size_of_mem_importsOf hmem)).symm,
          (hkept _ (h.lt_of_mem_importsOf importer imported hmem)).symm⟩
      · rintro ⟨importer, imported, hmem, rfl, rfl⟩
        refine ⟨importer, imported, ?_, hkept _ (lt_size_of_mem_importsOf hmem),
          hkept _ (h.lt_of_mem_importsOf importer imported hmem)⟩
        rwa [importsOf_concat]

/-- An entry with one more import, recorded once. -/
def recording (imported : Nat) (library : LibraryEntry) : LibraryEntry :=
  if imported ∈ library.imports then library
  else { library with imports := library.imports ++ [imported] }

/-- Recording an import leaves the name of the library. -/
theorem name_recording (imported : Nat) (library : LibraryEntry) :
    (recording imported library).name = library.name := by
  rw [recording]
  split <;> rfl

/-- After an import is recorded the library has it, and those that it had. -/
theorem mem_imports_recording (imported other : Nat) (library : LibraryEntry) :
    other ∈ (recording imported library).imports ↔
      other ∈ library.imports ∨ other = imported := by
  rw [recording]
  split
  · next h => exact (or_iff_left_of_imp fun hother => hother ▸ h).symm
  · rw [List.mem_append, List.mem_singleton]

/-- An import of another library is recorded at the entry of the importer. -/
theorem depend_eq (graph : LibraryGraph) (h : importer ≠ imported) :
    graph.depend importer imported =
      { libraries := graph.libraries.modify importer (recording imported) } := if_neg h

/-- Recording an import leaves the names. -/
theorem names_depend (graph : LibraryGraph) (importer imported : Nat) :
    (graph.depend importer imported).names = graph.names := by
  by_cases h : importer = imported
  · rw [LibraryGraph.depend, if_pos h]
  · refine List.ext_getElem? fun number => ?_
    rw [depend_eq graph h, names, names, List.getElem?_map, List.getElem?_map,
      List.getElem?_modify]
    cases graph.libraries[number]? with
    | none => rfl
    | some library =>
      change some (ite _ _ _ : LibraryEntry).name = some library.name
      split
      · rw [name_recording]
      · rfl

/-- A recorded import is there afterwards, together with those that were there before; none is added
for a library that would import itself. -/
theorem mem_importsOf_depend (himporter : importer < graph.size) (a b : Nat) :
    b ∈ (graph.depend importer imported).importsOf a ↔
      b ∈ graph.importsOf a ∨ a = importer ∧ b = imported ∧ importer ≠ imported := by
  by_cases h : importer = imported
  · simp [LibraryGraph.depend, h]
  · rw [depend_eq graph h, importsOf_eq, importsOf_eq, List.getElem?_modify]
    by_cases ha : importer = a
    · subst ha
      rw [List.getElem?_eq_getElem himporter]
      simpa [h] using mem_imports_recording imported b graph.libraries[importer]
    · simp [ha, Ne.symm ha]

/-- Recording an import. -/
theorem WellFormed.depend (h : graph.WellFormed) (himporter : importer < graph.size)
    (himported : imported < graph.size) :
    Grows graph (graph.depend importer imported) (fun _ => False)
      (fun a b => a = graph.nameOf importer ∧ b = graph.nameOf imported ∧ a ≠ b) := by
  -- the names stay as they are
  have hnames := graph.names_depend importer imported
  have hsize : (graph.depend importer imported).size = graph.size := by
    rw [← length_names, hnames, length_names]
  have hnameOf : (graph.depend importer imported).nameOf = graph.nameOf := by
    funext number
    rw [nameOf_eq, nameOf_eq, hnames]
  refine ⟨⟨?_, fun a b hmem => ?_⟩, ?_, fun name => ?_, fun a b => ?_⟩
  · exact hnames ▸ h.names_nodup
  · rw [hsize]
    rcases (mem_importsOf_depend himporter a b).1 hmem with hmem | ⟨-, rfl, -⟩
    · exact h.lt_of_mem_importsOf a b hmem
    · exact himported
  · exact hnames ▸ List.prefix_refl _
  · rw [hnames, or_false]
  · rw [Imports, Imports, hnameOf]
    constructor
    · -- an import that is recorded now was there before or is the new one; a library's own name is
      -- left out
      rintro ⟨i, j, hmem, rfl, rfl⟩
      rcases (mem_importsOf_depend himporter i j).1 hmem with hmem | ⟨rfl, rfl, hne⟩
      · exact .inl ⟨i, j, hmem, rfl, rfl⟩
      · exact .inr ⟨rfl, rfl, fun hsame => hne (h.nameOf_inj himporter himported hsame)⟩
    · rintro (⟨i, j, hmem, rfl, rfl⟩ | ⟨rfl, rfl, hne⟩)
      · exact ⟨i, j, (mem_importsOf_depend himporter i j).2 (.inl hmem), rfl, rfl⟩
      · exact ⟨importer, imported, (mem_importsOf_depend himporter importer imported).2
          (.inr ⟨rfl, rfl, fun hsame => hne (congrArg graph.nameOf hsame)⟩), rfl, rfl⟩

end LibraryGraph

end TreeLang
