import TreeLang.Proofs.Library.Cycles

/-!
# Graphs built call by call

A graph that is built by adding libraries and recording imports has no two libraries of one name and
none that imports itself. Sorting it succeeds exactly when it has no cycle of imports, and lists
each library once and after all that it imports; otherwise it names a cycle that comes back to its
beginning and to no other library. With cycles or without, a search for what some libraries import
ends with exactly the libraries that are reached from them.
-/

namespace TreeLang

namespace LibraryGraph

variable {graph : LibraryGraph} {path roots : List Nat} {number : Nat}

/-- The graphs that calls of `add` and `depend` build. An import is recorded between numbers that
`add` has given out, which are those of the libraries of the graph. -/
inductive Built : LibraryGraph → Prop
  | empty : Built empty
  | add {graph : LibraryGraph} (built : Built graph) (name : String) : Built (graph.add name).2
  | depend {graph : LibraryGraph} {importer imported : Nat} (built : Built graph)
      (importer_lt : importer < graph.size) (imported_lt : imported < graph.size) :
      Built (graph.depend importer imported)

/-- A library that is added imports nothing, and the others keep their imports. -/
theorem importsOf_add (graph : LibraryGraph) (name : String) :
    (graph.add name).2.importsOf number = graph.importsOf number := by
  rw [LibraryGraph.add]
  split
  · rfl
  · exact importsOf_concat graph name number

namespace Built

/-- Adding libraries and recording imports keeps the graph well formed. -/
theorem wellFormed (h : graph.Built) : graph.WellFormed := by
  induction h with
  | empty => exact wellFormed_empty
  | add _ name ih => exact (ih.add name).1.wellFormed
  | depend _ importer_lt imported_lt ih => exact (ih.depend importer_lt imported_lt).wellFormed

/-- No call records an import of a library by itself. -/
theorem not_mem_importsOf_self (h : graph.Built) (number : Nat) :
    number ∉ graph.importsOf number := by
  induction h with
  | empty =>
    intro hmem
    exact nomatch lt_size_of_mem_importsOf hmem
  | add _ name ih =>
    rw [importsOf_add]
    exact ih
  | depend _ importer_lt imported_lt ih =>
    rw [mem_importsOf_depend importer_lt]
    rintro (hmem | ⟨rfl, heq, hne⟩)
    · exact ih hmem
    · exact hne heq

end Built

namespace ComesBack

/-- What is followed by an import is in the graph. -/
theorem lt_size_of_mem (h : graph.ComesBack path number) {other : Nat} (hmem : other ∈ path) :
    other < graph.size := by
  obtain ⟨before, after, rfl⟩ := List.append_of_mem hmem
  have hchain := h.isChain
  obtain ⟨next, rest, hnext⟩ : ∃ next rest, after ++ [number] = next :: rest :=
    List.exists_cons_of_ne_nil (by simp)
  rw [List.append_assoc, List.cons_append, hnext] at hchain
  have himport : next ∈ graph.importsOf other :=
    List.isChain_iff_forall_rel_of_append_cons_cons.1 hchain rfl
  exact lt_size_of_mem_importsOf himport

/-- A search that comes back has passed another library, and no library twice. -/
theorem cycleTo_simple (h : graph.ComesBack path number) (hgraph : graph.Built) :
    3 ≤ (graph.cycleTo path number).length ∧ (graph.cycleTo path number).dropLast.Nodup := by
  obtain ⟨before, after, hpath, hbefore⟩ := List.eq_append_cons_of_mem h.mem
  have hcycle : graph.cycleTo path number = (number :: after ++ [number]).map graph.nameOf := by
    rw [hpath, cycleTo_append_cons hbefore]
  have hsuffix : number :: after <:+ path := ⟨before, hpath.symm⟩
  rw [hcycle]
  constructor
  · -- a library that is followed by itself would import itself
    have hafter : after ≠ [] := by
      rintro rfl
      have hchain := h.isChain
      rw [hpath, List.append_assoc] at hchain
      have hself : number ∈ graph.importsOf number :=
        List.isChain_iff_forall_rel_of_append_cons_cons.1 hchain rfl
      exact hgraph.not_mem_importsOf_self number hself
    have hpos : 0 < after.length := List.length_pos_iff.2 hafter
    simp only [List.length_map, List.length_append, List.length_cons, List.length_nil]
    omega
  · rw [← List.map_dropLast, List.dropLast_concat]
    apply List.Nodup.map_on
    · intro a ha b hb hname
      exact hgraph.wellFormed.nameOf_inj (h.lt_size_of_mem (hsuffix.subset ha))
        (h.lt_size_of_mem (hsuffix.subset hb)) hname
    · exact h.nodup.sublist hsuffix.sublist

end ComesBack

/-- Sorting succeeds exactly on the graphs without a cycle of imports. The order lists every library
once, and before it all that it imports. A failure names a cycle of imports: three names at least,
the last of them the first again, and no other name twice. -/
theorem Built.sorted_or_cycle (h : graph.Built) :
    ((∃ order, graph.sorted = .ok order) ↔ ∀ names, ¬ IsCycle graph.Imports names) ∧
      (∀ order, graph.sorted = .ok order →
        order.Perm (List.range graph.size) ∧
          ∀ before number after, order = before ++ number :: after →
            graph.importsOf number ⊆ before) ∧
      ∀ names, graph.sorted = .error names →
        IsCycle graph.Imports names ∧ 3 ≤ names.length ∧ names.dropLast.Nodup := by
  refine ⟨⟨?_, fun hacyclic => ?_⟩, fun order hsorted => ?_, fun names hsorted => ?_⟩
  · rintro ⟨order, hsorted⟩ names
    exact h.wellFormed.not_isCycle_of_sorted hsorted
  · cases hsorted : graph.sorted with
    | ok order => exact ⟨order, rfl⟩
    | error names => exact absurd (isCycle_of_sorted_eq_error hsorted) (hacyclic names)
  · obtain ⟨hfirst, hmem⟩ := h.wellFormed.sorted_importsFirst hsorted
    refine ⟨?_, fun before number after horder imported himported => ?_⟩
    · rw [List.perm_ext_iff_of_nodup hfirst.nodup List.nodup_range]
      intro number
      rw [hmem, List.mem_range]
    · exact hfirst.mem_of_eq_append horder himported
  · obtain ⟨path, number, hback, rfl⟩ := comesBack_of_sorted_eq_error hsorted
    exact ⟨isCycle_cycleTo hback.isChain hback.mem, hback.cycleTo_simple h⟩

/-- Four libraries: the first imports one of three that import each other in turn. One import is
recorded twice, and one of a library by itself is left out. -/
def ringedGraph : LibraryGraph :=
  let graph := ((((empty.add "App").2.add "Left").2.add "Right").2.add "Base").2
  (((((graph.depend 0 1).depend 1 2).depend 2 3).depend 1 1).depend 0 1).depend 3 1

/-- The ring of three is reported, from the library by which the search enters it. -/
theorem sorted_or_cycle_ringed :
    ringedGraph.Built ∧ ringedGraph.sorted = .error ["Left", "Right", "Base", "Left"] ∧
      IsCycle ringedGraph.Imports ["Left", "Right", "Base", "Left"] ∧
      ¬ ∃ order, ringedGraph.sorted = .ok order := by
  have hbuilt : ringedGraph.Built := by
    have hadded := (((Built.empty.add "App").add "Left").add "Right").add "Base"
    refine .depend (.depend (.depend (.depend (.depend (.depend hadded ?_ ?_) ?_ ?_) ?_ ?_)
      ?_ ?_) ?_ ?_) ?_ ?_
    all_goals decide
  have hsorted : ringedGraph.sorted = .error ["Left", "Right", "Base", "Left"] := by
    have hnames : ringedGraph.names = ["App", "Left", "Right", "Base"] := rfl
    have hall : ringedGraph.byName (List.range ringedGraph.size) = [0, 3, 1, 2] := by
      change ringedGraph.byName [0, 1, 2, 3] = _
      simp [byName, List.mergeSort, nameOf_eq, hnames]
    have hone : ∀ number, ringedGraph.byName [number] = [number] := List.mergeSort_singleton
    have himports : ringedGraph.importsOf 0 = [1] ∧ ringedGraph.importsOf 1 = [2] ∧
        ringedGraph.importsOf 2 = [3] ∧ ringedGraph.importsOf 3 = [1] := ⟨rfl, rfl, rfl, rfl⟩
    have hcycle : ringedGraph.cycleTo [0, 1, 2, 3] 1 = ["Left", "Right", "Base", "Left"] := rfl
    have hsize : ringedGraph.size = 4 := rfl
    rw [sorted, hall, hsize]
    simp [visit, hone, himports, hcycle, bind, Except.bind]
  obtain ⟨hiff, -, hcycle⟩ := hbuilt.sorted_or_cycle
  refine ⟨hbuilt, hsorted, (hcycle _ hsorted).1, fun hok => hiff.1 hok _ (hcycle _ hsorted).1⟩

/-! ## What is imported -/

/-- Reached libraries are in the graph when the roots are. -/
theorem WellFormed.lt_size_of_reachedFrom (h : graph.WellFormed)
    (hroots : ∀ root ∈ roots, root < graph.size) (hreached : graph.ReachedFrom roots number) :
    number < graph.size := by
  obtain ⟨root, hroot, hreach⟩ := hreached
  cases hreach with
  | refl => exact hroots number hroot
  | tail _ himport => exact h.lt_of_mem_importsOf _ _ himport

/-- What roots import is what is reached from them, each library once. A search for it, in whatever
order it visits the libraries, comes to libraries of the graph only, goes on while something is left
to visit, ends after a bounded number of steps, and has then seen the same libraries. -/
theorem Built.importedBy_exact (h : graph.Built) (hroots : ∀ root ∈ roots, root < graph.size) :
    (∀ number, number ∈ graph.importedBy roots ↔ graph.ReachedFrom roots number) ∧
      (graph.importedBy roots).Nodup ∧
      Relation.ReflTransGen (Search.Step graph) ⟨[], roots⟩ ⟨graph.importedBy roots, []⟩ ∧
      (∀ run, List.IsChain (Search.Step graph) (⟨[], roots⟩ :: run) →
        run.length ≤ roots.length + graph.importCount) ∧
      ∀ search, Relation.ReflTransGen (Search.Step graph) ⟨[], roots⟩ search →
        (∀ number, search.Meets number → number < graph.size) ∧
          (search.todo ≠ [] → ∃ next, Search.Step graph search next) ∧
          (search.todo = [] → search.seen.Perm (graph.importedBy roots)) := by
  have hrun := run_importedBy graph roots
  have hnodup : (graph.importedBy roots).Nodup := (Search.Explores.run hrun).nodup
  refine ⟨fun _ => mem_importedBy, hnodup, hrun, fun run hchain => ?_, fun search hsearch => ?_⟩
  · rw [← load_start]
    exact Search.length_le_load hchain
  · have hexplores := Search.Explores.run hsearch
    refine ⟨fun number hmeets => ?_, Search.exists_step graph, fun hdone => ?_⟩
    · exact h.wellFormed.lt_size_of_reachedFrom hroots (hexplores.reached number hmeets)
    · rw [List.perm_ext_iff_of_nodup hexplores.nodup hnodup]
      intro number
      rw [hexplores.mem_seen_iff hdone, mem_importedBy]

/-- Five libraries: two that import a third, which imports the first of them back, a fourth that
imports the second of them, and a fifth that imports the fourth. -/
def sharedGraph : LibraryGraph :=
  let graph := (((((empty.add "Left").2.add "Right").2.add "Base").2.add "App").2.add "Tool").2
  (((((graph.depend 0 2).depend 1 2).depend 2 0).depend 3 1).depend 4 3)

/-- From the second library, given twice, and the third one, the first is reached through the cycle,
and nothing is reached backwards. -/
theorem importedBy_exact_shared :
    sharedGraph.Built ∧ sharedGraph.importedBy [1, 2, 1] = [0, 2, 1] ∧
      sharedGraph.ReachedFrom [1, 2, 1] 0 ∧ ¬ sharedGraph.ReachedFrom [1, 2, 1] 3 ∧
      ∀ search, Relation.ReflTransGen (Search.Step sharedGraph) ⟨[], [1, 2, 1]⟩ search →
        search.todo = [] → search.seen.Perm [0, 2, 1] := by
  have hbuilt : sharedGraph.Built := by
    have hadded := ((((Built.empty.add "Left").add "Right").add "Base").add "App").add "Tool"
    refine .depend (.depend (.depend (.depend (.depend hadded ?_ ?_) ?_ ?_) ?_ ?_) ?_ ?_) ?_ ?_
    all_goals decide
  have hfound : sharedGraph.importedBy [1, 2, 1] = [0, 2, 1] := by decide
  have hroots : ∀ root ∈ [1, 2, 1], root < sharedGraph.size := by decide
  obtain ⟨hmem, -, -, -, hsearch⟩ := hbuilt.importedBy_exact hroots
  rw [hfound] at hmem hsearch
  exact ⟨hbuilt, hfound, (hmem 0).1 (by decide), fun h => absurd ((hmem 3).2 h) (by decide),
    fun search hrun hdone => (hsearch search hrun).2.2 hdone⟩

end LibraryGraph

end TreeLang
