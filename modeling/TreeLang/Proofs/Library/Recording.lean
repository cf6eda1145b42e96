import TreeLang.Library.Splice
import TreeLang.Proofs.Library.Graph

/-!
# The graph of some libraries

The graph that libraries are sorted by records the imports that are written in them, and an import
of every implicit library by the libraries that no implicit one depends on.
-/

namespace TreeLang

namespace LibraryGraph

variable {graph : LibraryGraph} {importer : Nat}

/-! ## Written imports -/

/-- Records an import by name. -/
def recordImport (importer : Nat) (graph : LibraryGraph) (name : String) : LibraryGraph :=
  (graph.add name).2.depend importer (graph.add name).1

/-- Records a library with the imports that are written in it. -/
def recordLibrary (graph : LibraryGraph) (entry : String × Program) : LibraryGraph :=
  entry.2.imports.foldl (recordImport (graph.add entry.1).1) (graph.add entry.1).2

/-- The graph of written imports is recorded library after library. -/
theorem written_eq (libraries : List (String × Program)) :
    written libraries = libraries.foldl recordLibrary .empty := rfl

/-- Recording an import by name adds the name, and the import unless a library would import
itself. -/
theorem WellFormed.recordImport (h : graph.WellFormed) (himporter : importer < graph.size)
    (name : String) :
    Grows graph (recordImport importer graph name) (· = name)
      fun a b => a = graph.nameOf importer ∧ b = name ∧ a ≠ b := by
  obtain ⟨hadd, himported, hname⟩ := h.add name
  have hdepend := hadd.wellFormed.depend
    (Nat.lt_of_lt_of_le himporter (size_le_of_names_grow hadd.names_prefix)) himported
  rw [hname, nameOf_eq_of_names_grow hadd.names_prefix himporter] at hdepend
  exact (hadd.trans hdepend).congr (fun _ => Iff.of_eq (or_false _))
    fun _ _ => Iff.of_eq (false_or _)

/-- Recording a library adds its name and those that it imports, with its imports. -/
theorem WellFormed.recordLibrary (h : graph.WellFormed) (entry : String × Program) :
    Grows graph (graph.recordLibrary entry) (fun name => name = entry.1 ∨ name ∈ entry.2.imports)
      fun a b => a = entry.1 ∧ b ∈ entry.2.imports ∧ a ≠ b := by
  obtain ⟨hadd, himporter, hname⟩ := h.add entry.1
  have hstep : ∀ name ∈ entry.2.imports, ∀ later : LibraryGraph, later.WellFormed →
      (graph.add entry.1).2.names <+: later.names →
        Grows later (LibraryGraph.recordImport (graph.add entry.1).1 later name) (· = name)
          fun a b => a = entry.1 ∧ b = name ∧ a ≠ b := by
    intro name _ later hlater hprefix
    have hrecord := hlater.recordImport
      (Nat.lt_of_lt_of_le himporter (size_le_of_names_grow hprefix)) name
    rwa [nameOf_eq_of_names_grow hprefix himporter, hname] at hrecord
  exact (hadd.trans (hadd.wellFormed.foldl hstep)).congr (by simp) (by grind)

/-- The graph of the written imports of some libraries. -/
theorem written_grows (libraries : List (String × Program)) :
    Grows .empty (written libraries)
      (fun name => ∃ entry ∈ libraries, name = entry.1 ∨ name ∈ entry.2.imports)
      fun a b => ∃ entry ∈ libraries, a = entry.1 ∧ b ∈ entry.2.imports ∧ a ≠ b :=
  written_eq libraries ▸ wellFormed_empty.foldl fun entry _ _ hlater _ => hlater.recordLibrary entry

/-! ## Implicit imports -/

/-- Depending on several libraries adds no names, and the imports of all others among them. -/
theorem WellFormed.dependAll (h : graph.WellFormed) (himporter : importer < graph.size)
    {numbers : List Nat} (hnumbers : ∀ number ∈ numbers, number < graph.size) :
    Grows graph (numbers.foldl (fun graph number => graph.depend importer number) graph)
      (fun _ => False)
      fun a b => a = graph.nameOf importer ∧ b ∈ numbers.map graph.nameOf ∧ a ≠ b := by
  have hstep : ∀ number ∈ numbers, ∀ later : LibraryGraph, later.WellFormed →
      graph.names <+: later.names → Grows later (later.depend importer number) (fun _ => False)
        fun a b => a = graph.nameOf importer ∧ b = graph.nameOf number ∧ a ≠ b := by
    intro number hmem later hlater hprefix
    have hsize := size_le_of_names_grow hprefix
    have hdepend := hlater.depend (Nat.lt_of_lt_of_le himporter hsize)
      (Nat.lt_of_lt_of_le (hnumbers number hmem) hsize)
    rwa [nameOf_eq_of_names_grow hprefix himporter,
      nameOf_eq_of_names_grow hprefix (hnumbers number hmem)] at hdepend
  exact (h.foldl hstep).congr (by simp) (by grind)

/-- Every library outside of the implicit ones and of what they import depends on all of them. -/
theorem WellFormed.withImplicit (h : graph.WellFormed) {implicit : List Nat}
    (himplicit : ∀ number ∈ implicit, number < graph.size) :
    Grows graph (graph.withImplicit implicit) (fun _ => False)
      fun a b => (∃ number < graph.size, number ∉ graph.importedBy implicit ∧
          graph.nameOf number = a) ∧ b ∈ implicit.map graph.nameOf ∧ a ≠ b := by
  have hstep : ∀ importer ∈ (List.range graph.size).filter (· ∉ graph.importedBy implicit),
      ∀ later : LibraryGraph, later.WellFormed → graph.names <+: later.names →
        Grows later (implicit.foldl (fun graph number => graph.depend importer number) later)
          (fun _ => False)
          fun a b => a = graph.nameOf importer ∧ b ∈ implicit.map graph.nameOf ∧ a ≠ b := by
    intro importer hmem later hlater hprefix
    have hsize := size_le_of_names_grow hprefix
    have himporter : importer < graph.size := List.mem_range.1 (List.mem_filter.1 hmem).1
    have hdepend := hlater.dependAll (Nat.lt_of_lt_of_le himporter hsize)
      fun number hnumber => Nat.lt_of_lt_of_le (himplicit number hnumber) hsize
    rwa [nameOf_eq_of_names_grow hprefix himporter, List.map_congr_left fun number hnumber =>
      nameOf_eq_of_names_grow hprefix (himplicit number hnumber)] at hdepend
  refine (h.foldl hstep).congr (by simp) fun a b => ?_
  simp only [List.mem_filter, List.mem_range, decide_eq_true_eq]
  constructor
  · rintro ⟨number, ⟨hlt, hout⟩, rfl, hb, hne⟩
    exact ⟨⟨number, hlt, hout, rfl⟩, hb, hne⟩
  · rintro ⟨⟨number, hlt, hout, rfl⟩, hb, hne⟩
    exact ⟨number, ⟨hlt, hout⟩, rfl, hb, hne⟩

end LibraryGraph

end TreeLang
