import Mathlib.Data.List.Perm.Subperm
import TreeLang.Proofs.Library.Graph

/-!
# The order of a sorted graph

A visit appends libraries to what is done already, each after the libraries that it imports, and
appends none that is on the path of the visit. The path does not repeat a library, so a visit that
reports no cycle comes to an end within its bound.
-/

namespace TreeLang

namespace LibraryGraph

variable {graph : LibraryGraph} {path order order' : List Nat} {number : Nat}

/-- Sorting by name keeps the libraries. -/
theorem mem_byName (graph : LibraryGraph) (numbers : List Nat) :
    number ∈ graph.byName numbers ↔ number ∈ numbers :=
  (List.mergeSort_perm numbers _).mem_iff

/-- Some libraries without repetition, each after the libraries that it imports. -/
inductive ImportsFirst (graph : LibraryGraph) : List Nat → Prop
  | nil : ImportsFirst graph []
  | snoc {order : List Nat} {number : Nat} (done : ImportsFirst graph order)
      (lt_size : number < graph.size) (new : number ∉ order)
      (imports : ∀ imported ∈ graph.importsOf number, imported ∈ order) :
      ImportsFirst graph (order ++ [number])

namespace ImportsFirst

/-- An order with imported libraries first lists each library once. -/
theorem nodup (h : graph.ImportsFirst order) : order.Nodup := by
  induction h with
  | nil => exact List.nodup_nil
  | snoc _ _ new _ ih =>
    exact ih.append (List.nodup_singleton _) (List.disjoint_singleton.2 new)

/-- An order with imported libraries first lists libraries of the graph. -/
theorem lt_size_of_mem (h : graph.ImportsFirst order) (hmem : number ∈ order) :
    number < graph.size := by
  induction h with
  | nil => cases hmem
  | snoc _ lt_size _ _ ih =>
    rcases List.mem_append.1 hmem with hmem | hmem
    · exact ih hmem
    · exact List.mem_singleton.1 hmem ▸ lt_size

/-- What a library imports stands before it. -/
theorem mem_of_eq_append {before after : List Nat} {imported : Nat} (h : graph.ImportsFirst order)
    (horder : order = before ++ number :: after) (himported : imported ∈ graph.importsOf number) :
    imported ∈ before := by
  -- the library is the last one, or stands in what was done before the last one
  induction h generalizing after with
  | nil => cases before <;> cases horder
  | @snoc done last _ _ _ imports ih =>
    rcases List.eq_nil_or_concat after with rfl | ⟨init, other, rfl⟩
    · obtain ⟨rfl, hlast⟩ := List.append_inj' horder rfl
      cases hlast
      exact imports imported himported
    · rw [List.concat_eq_append, ← List.cons_append, ← List.append_assoc] at horder
      exact ih (List.append_inj' horder rfl).1

/-- The name of what a library imports stands before its own. -/
theorem name_mem_of_eq_append {before after : List String} {name other : String}
    (h : graph.ImportsFirst order) (hgraph : graph.WellFormed)
    (horder : order.map graph.nameOf = before ++ name :: after)
    (himports : graph.Imports name other) : other ∈ before := by
  obtain ⟨importer, imported, hmem, hname, rfl⟩ := himports
  obtain ⟨numbers, rest, rfl, rfl, hrest⟩ := List.map_eq_append_iff.1 horder
  obtain ⟨number, later, rfl, hnumber, -⟩ := List.map_eq_cons_iff.1 hrest
  have hlt : number < graph.size :=
    h.lt_size_of_mem (List.mem_append_right _ List.mem_cons_self)
  obtain rfl : importer = number :=
    hgraph.nameOf_inj (lt_size_of_mem_importsOf hmem) hlt (hname.trans hnumber.symm)
  exact List.mem_map_of_mem (h.mem_of_eq_append rfl hmem)

end ImportsFirst

/-- What a visit with a path leaves behind of what is done already. -/
structure Visited (graph : LibraryGraph) (path order order' : List Nat) : Prop where
  importsFirst : graph.ImportsFirst order'
  subset : order ⊆ order'
  mem_or_not_mem_path : ∀ number ∈ order', number ∈ order ∨ number ∉ path

/-- A search that has visited nothing more has an order as before. -/
theorem Visited.refl (h : graph.ImportsFirst order) : graph.Visited path order order :=
  ⟨h, List.Subset.refl _, fun _ => .inl⟩

/-- Visits one after the other. -/
theorem foldlM_visited {visit : List Nat → Nat → Except (List String) (List Nat)}
    {numbers : List Nat}
    (hvisit : ∀ number ∈ numbers, ∀ order order', graph.ImportsFirst order →
      visit order number = .ok order' → graph.Visited path order order' ∧ number ∈ order')
    (horder : graph.ImportsFirst order) (h : numbers.foldlM visit order = .ok order') :
    graph.Visited path order order' ∧ numbers ⊆ order' := by
  -- by induction on the numbers: each visit leaves an order that the next one may start from
  induction numbers generalizing order with
  | nil =>
    cases h
    exact ⟨.refl horder, List.nil_subset _⟩
  | cons first rest ih =>
    rw [List.foldlM_cons] at h
    cases hfirst : visit order first with
    | error path =>
      rw [hfirst] at h
      cases h
    | ok next =>
      rw [hfirst] at h
      obtain ⟨hvisited, hmem⟩ := hvisit first List.mem_cons_self order next horder hfirst
      obtain ⟨hrest, hsubset⟩ := ih (fun number hnumber =>
        hvisit number (List.mem_cons_of_mem _ hnumber)) hvisited.importsFirst h
      refine ⟨⟨hrest.importsFirst, List.Subset.trans hvisited.subset hrest.subset,
        fun number hnumber => ?_⟩,
        List.cons_subset.2 ⟨hrest.subset hmem, hsubset⟩⟩
      -- what is new after all visits is new after the first one or after the rest
      rcases hrest.mem_or_not_mem_path number hnumber with hnext | hpath
      · exact hvisited.mem_or_not_mem_path number hnext
      · exact .inr hpath

/-- A path that repeats no library is no longer than the graph. -/
theorem length_lt_size (hpath : path.Nodup) (hlt : ∀ number ∈ path, number < graph.size)
    (hnumber : number < graph.size) (hnew : number ∉ path) : path.length < graph.size := by
  have hsubset : number :: path ⊆ List.range graph.size :=
    List.cons_subset.2 ⟨List.mem_range.2 hnumber, fun _ hmem => List.mem_range.2 (hlt _ hmem)⟩
  have hle := (List.subperm_of_subset (List.nodup_cons.2 ⟨hnew, hpath⟩) hsubset).length_le
  rwa [List.length_cons, List.length_range] at hle

/-- A visit that reports no cycle appends the library, and before it what it imports. -/
theorem WellFormed.visited (h : graph.WellFormed) {fuel : Nat} (hpath : path.Nodup)
    (hlt : ∀ number ∈ path, number < graph.size) (hfuel : graph.size ≤ path.length + fuel)
    (hnumber : number < graph.size) (horder : graph.ImportsFirst order)
    (hvisit : graph.visit fuel path order number = .ok order') :
    graph.Visited path order order' ∧ number ∈ order' := by
  induction fuel generalizing path order order' number with
  | zero =>
    rw [visit] at hvisit
    split at hvisit
    · next hmem =>
      cases hvisit
      exact ⟨.refl horder, hmem⟩
    split at hvisit
    · cases hvisit
    -- the path is as long as the graph, and has no place for the library
    · next hnew => exact absurd hfuel (Nat.not_le_of_lt (length_lt_size hpath hlt hnumber hnew))
  | succ fuel ih =>
    rw [visit] at hvisit
    split at hvisit
    · next hmem =>
      cases hvisit
      exact ⟨.refl horder, hmem⟩
    next hdone =>
    split at hvisit
    · cases hvisit
    next hnew =>
    cases himports : (graph.byName (graph.importsOf number)).foldlM
        (graph.visit fuel (path ++ [number])) order with
    | error path =>
      simp only [himports] at hvisit
      cases hvisit
    | ok next =>
      simp only [himports] at hvisit
      cases hvisit
      have hpath' : (path ++ [number]).Nodup :=
        hpath.append (List.nodup_singleton _) (List.disjoint_singleton.2 hnew)
      have hlt' : ∀ other ∈ path ++ [number], other < graph.size :=
        List.forall_mem_append.2 ⟨hlt, List.forall_mem_singleton.2 hnumber⟩
      have hfuel' : graph.size ≤ (path ++ [number]).length + fuel := by
        rw [List.length_append, List.length_singleton]
        omega
      -- the path grows by the library, so that its imports cannot append it before its turn
      obtain ⟨hvisited, hsubset⟩ := foldlM_visited (fun imported himported order order' =>
        ih hpath' hlt' hfuel' (h.lt_of_mem_importsOf number imported
          ((graph.mem_byName _).1 himported))) horder himports
      have hnotMem : number ∉ next := by
        intro hmem
        rcases hvisited.mem_or_not_mem_path number hmem with hmem | hoff
        · exact hdone hmem
        · exact hoff (List.mem_append_right _ (List.mem_singleton_self _))
      refine ⟨⟨hvisited.importsFirst.snoc hnumber hnotMem fun imported himported =>
        hsubset ((graph.mem_byName _).2 himported), ?_, fun other hother => ?_⟩, ?_⟩
      · exact List.Subset.trans hvisited.subset (List.subset_append_left _ _)
      · rcases List.mem_append.1 hother with hother | hother
        · rcases hvisited.mem_or_not_mem_path other hother with hmem | hoff
          · exact .inl hmem
          · exact .inr fun hmem => hoff (List.mem_append_left _ hmem)
        · exact .inr (List.mem_singleton.1 hother ▸ hnew)
      · exact List.mem_append_right _ (List.mem_singleton_self _)

/-- A graph that is sorted without a cycle is listed as a whole, imports first. -/
theorem WellFormed.sorted_importsFirst (h : graph.WellFormed) (hsorted : graph.sorted = .ok order) :
    graph.ImportsFirst order ∧ ∀ number, number ∈ order ↔ number < graph.size := by
  have hvisits : ∀ number ∈ graph.byName (List.range graph.size), ∀ order order',
      graph.ImportsFirst order → graph.visit graph.size [] order number = .ok order' →
        graph.Visited [] order order' ∧ number ∈ order' := by
    intro number hnumber order order' horder
    exact h.visited List.nodup_nil nofun (Nat.le_of_eq (Nat.zero_add _).symm)
      (List.mem_range.1 ((graph.mem_byName _).1 hnumber)) horder
  obtain ⟨hvisited, hsubset⟩ := foldlM_visited hvisits .nil hsorted
  refine ⟨hvisited.importsFirst, fun number =>
    ⟨hvisited.importsFirst.lt_size_of_mem, fun hlt => ?_⟩⟩
  exact hsubset ((graph.mem_byName _).2 (List.mem_range.2 hlt))

end LibraryGraph

end TreeLang
