import Mathlib.Data.List.Chain
import Mathlib.Data.List.Nodup
import Mathlib.Logic.Relation
import TreeLang.Proofs.Library.Graph

/-!
# What roots import

A search has seen some libraries and has others still to visit. Each step takes one of these,
whichever it is, and when it is new its imports are to be visited as well. So a step uses up a place
in what is to visit, and the imports that it adds are those of a library that was not seen before:
every search comes to an end. The roots and the imports of what was seen have always come up, so a
search with nothing left to visit has seen what is reached from the roots, and nothing else.
-/

namespace TreeLang

namespace LibraryGraph

variable {graph : LibraryGraph} {number fuel : Nat} {seen todo roots : List Nat}

/-- The library is one of the roots, or is imported by one directly or through others. -/
def ReachedFrom (graph : LibraryGraph) (roots : List Nat) (number : Nat) : Prop :=
  ∃ root ∈ roots,
    Relation.ReflTransGen (fun importer imported => imported ∈ graph.importsOf importer) root number

/-- A root is reached from itself. -/
theorem ReachedFrom.of_mem (h : number ∈ roots) : graph.ReachedFrom roots number :=
  ⟨number, h, .refl⟩

/-- What is imported by something that is reached is reached. -/
theorem ReachedFrom.tail {importer imported : Nat} (h : graph.ReachedFrom roots importer)
    (himported : imported ∈ graph.importsOf importer) : graph.ReachedFrom roots imported := by
  obtain ⟨root, hroot, hreach⟩ := h
  exact ⟨root, hroot, hreach.tail himported⟩

/-! ## Imports not come to -/

/-- The libraries that are not seen yet. -/
def unseen (graph : LibraryGraph) (seen : List Nat) : List Nat :=
  (List.range graph.size).filter (· ∉ seen)

/-- The number of imports of the libraries that are not seen yet. -/
def unexplored (graph : LibraryGraph) (seen : List Nat) : Nat :=
  ((graph.unseen seen).flatMap graph.importsOf).length

/-- Before anything is seen all imports are unexplored. -/
theorem unexplored_nil (graph : LibraryGraph) : graph.unexplored [] = graph.importCount := by
  have himports : graph.libraries.map LibraryEntry.imports =
      (List.range graph.size).map graph.importsOf := by
    apply List.ext_getElem
    · simp [size]
    · intro number hnumber _
      have hlt : number < graph.libraries.length := by simpa using hnumber
      simp [importsOf_eq, List.getElem?_eq_getElem hlt]
  have hall : graph.unseen [] = List.range graph.size := by simp [unseen]
  rw [unexplored, hall, importCount, List.flatMap_def, List.flatMap_def, ← himports]

/-- The unseen libraries are those of the graph that were not seen. -/
theorem mem_unseen : number ∈ graph.unseen seen ↔ number < graph.size ∧ number ∉ seen := by
  simp [unseen]

/-- Seeing a library takes it out of the unseen ones. -/
theorem unseen_cons (graph : LibraryGraph) (number : Nat) (seen : List Nat) :
    graph.unseen (number :: seen) = (graph.unseen seen).erase number := by
  have hnodup : (graph.unseen seen).Nodup := List.nodup_range.filter _
  rw [hnodup.erase_eq_filter, unseen, unseen, List.filter_filter]
  apply List.filter_congr
  intro other _
  by_cases hother : other = number <;> simp [hother]

/-- Seeing a library takes its imports away. -/
theorem unexplored_cons (hnew : number ∉ seen) :
    graph.unexplored (number :: seen) + (graph.importsOf number).length ≤
      graph.unexplored seen := by
  unfold unexplored
  rw [unseen_cons]
  by_cases hlt : number < graph.size
  · have hmem : number ∈ graph.unseen seen := mem_unseen.2 ⟨hlt, hnew⟩
    have hperm := ((List.perm_cons_erase hmem).flatMap_right graph.importsOf).length_eq
    rw [List.flatMap_cons, List.length_append] at hperm
    omega
  · -- a number that is none of a library has no imports
    have hnone : graph.importsOf number = [] := by
      apply List.eq_nil_iff_forall_not_mem.2
      intro imported himported
      exact hlt (lt_size_of_mem_importsOf himported)
    have hsame : (graph.unseen seen).erase number = graph.unseen seen := by
      apply List.erase_of_not_mem
      intro hmem
      exact hlt (mem_unseen.1 hmem).1
    rw [hsame, hnone, List.length_nil]
    exact Nat.le_refl _

/-! ## Searches -/

/-- Where a search is: what it has seen, and what is still to visit. -/
structure Search where
  seen : List Nat
  todo : List Nat

namespace Search

variable {search next : Search}

/-- A step of a search takes any of the libraries that are still to visit. Unless the library was
seen before, its imports are to be visited as well. -/
inductive Step (graph : LibraryGraph) : Search → Search → Prop
  | skip {number : Nat} {seen todo rest : List Nat} (taken : todo.Perm (number :: rest))
      (known : number ∈ seen) : Step graph ⟨seen, todo⟩ ⟨seen, rest⟩
  | see {number : Nat} {seen todo rest more : List Nat} (taken : todo.Perm (number :: rest))
      (unknown : number ∉ seen) (joined : more.Perm (graph.importsOf number ++ rest)) :
      Step graph ⟨seen, todo⟩ ⟨number :: seen, more⟩

/-- The steps that a search can make at most: one for each library to visit, and one for each import
that it has not come to. -/
def load (graph : LibraryGraph) (search : Search) : Nat :=
  search.todo.length + graph.unexplored search.seen

/-- The library has come up in the search. -/
def Meets (search : Search) (number : Nat) : Prop := number ∈ search.seen ∨ number ∈ search.todo

/-- A step takes one of the libraries to visit; the imports that it adds are no longer
unexplored. -/
theorem Step.load_lt (h : Step graph search next) : next.load graph < search.load graph := by
  cases h with
  | skip taken =>
    simp only [load, taken.length_eq, List.length_cons]
    omega
  | @see number seen _ rest _ taken unknown joined =>
    -- The imports that join are no longer counted as unexplored.
    have hless : graph.unexplored (number :: seen) + (graph.importsOf number).length ≤
        graph.unexplored seen := unexplored_cons unknown
    simp only [load, taken.length_eq, joined.length_eq, List.length_append, List.length_cons]
    omega

/-- A search with something to visit goes on. -/
theorem exists_step (graph : LibraryGraph) (h : search.todo ≠ []) :
    ∃ next, Step graph search next := by
  obtain ⟨seen, todo⟩ := search
  obtain ⟨number, rest, rfl⟩ := List.exists_cons_of_ne_nil h
  by_cases hseen : number ∈ seen
  · exact ⟨_, .skip (.refl _) hseen⟩
  · exact ⟨_, .see (.refl _) hseen (.refl _)⟩

/-- No search goes on for longer than its load. -/
theorem length_le_load {run : List Search} (h : List.IsChain (Step graph) (search :: run)) :
    run.length ≤ search.load graph := by
  induction run generalizing search with
  | nil => exact Nat.zero_le _
  | cons next rest ih =>
    obtain ⟨hstep, hrest⟩ := List.isChain_cons_cons.1 h
    have hlt := hstep.load_lt
    have hle := ih hrest
    rw [List.length_cons]
    omega

/-! ## What comes up -/

/-- What has come up stays. -/
theorem Step.meets (h : Step graph search next) (hmeets : search.Meets number) :
    next.Meets number := by
  cases h with
  | skip taken known =>
    rcases hmeets with hseen | htodo
    · exact .inl hseen
    · rcases List.mem_cons.1 (taken.mem_iff.1 htodo) with rfl | hrest
      · exact .inl known
      · exact .inr hrest
  | see taken unknown joined =>
    rcases hmeets with hseen | htodo
    · exact .inl (List.mem_cons_of_mem _ hseen)
    · rcases List.mem_cons.1 (taken.mem_iff.1 htodo) with rfl | hrest
      · exact .inl List.mem_cons_self
      · exact .inr (joined.mem_iff.2 (List.mem_append_right _ hrest))

/-- What comes up is imported by something that has come up. -/
theorem Step.meets_or (h : Step graph search next) (hmeets : next.Meets number) :
    search.Meets number ∨
      ∃ importer, search.Meets importer ∧ number ∈ graph.importsOf importer := by
  cases h with
  | skip taken known =>
    refine .inl (hmeets.imp_right fun hrest => ?_)
    exact taken.mem_iff.2 (List.mem_cons_of_mem _ hrest)
  | @see importer _ _ _ _ taken unknown joined =>
    have himporter := taken.mem_iff.2 List.mem_cons_self
    rcases hmeets with hseen | hmore
    · rcases List.mem_cons.1 hseen with rfl | hseen
      · exact .inl (.inr himporter)
      · exact .inl (.inl hseen)
    · rcases List.mem_append.1 (joined.mem_iff.1 hmore) with himport | hrest
      · exact .inr ⟨importer, .inr himporter, himport⟩
      · exact .inl (.inr (taken.mem_iff.2 (List.mem_cons_of_mem _ hrest)))

/-- When a library is seen its imports come up. -/
theorem Step.seen_or (h : Step graph search next) (hseen : number ∈ next.seen) :
    number ∈ search.seen ∨ ∀ imported ∈ graph.importsOf number, next.Meets imported := by
  cases h with
  | skip => exact .inl hseen
  | see taken unknown joined =>
    rcases List.mem_cons.1 hseen with rfl | hseen
    · refine .inr fun imported himported => .inr ?_
      exact joined.mem_iff.2 (List.mem_append_left _ himported)
    · exact .inl hseen

/-- What is known of a search from some roots at any time. What it has come to is reached from the
roots. These, and the imports of what it has seen, have come up. -/
structure Explores (graph : LibraryGraph) (roots : List Nat) (search : Search) : Prop where
  nodup : search.seen.Nodup
  reached : ∀ number, search.Meets number → graph.ReachedFrom roots number
  roots : ∀ root ∈ roots, search.Meets root
  imports : ∀ importer ∈ search.seen, ∀ imported ∈ graph.importsOf importer,
    search.Meets imported

namespace Explores

/-- What is known of a search holds where it starts. -/
theorem start (graph : LibraryGraph) (roots : List Nat) : Explores graph roots ⟨[], roots⟩ where
  nodup := .nil
  reached _ h := .of_mem (h.resolve_left List.not_mem_nil)
  roots _ h := .inr h
  imports := nofun

/-- What is known of a search is kept by each step. -/
theorem step (h : Explores graph roots search) (hstep : Step graph search next) :
    Explores graph roots next where
  nodup := by
    cases hstep with
    | skip => exact h.nodup
    | see _ unknown => exact h.nodup.cons unknown
  reached number hmeets := by
    rcases hstep.meets_or hmeets with hmeets | ⟨importer, himporter, himport⟩
    · exact h.reached number hmeets
    · exact (h.reached importer himporter).tail himport
  roots root hroot := hstep.meets (h.roots root hroot)
  imports importer hseen imported himported := by
    rcases hstep.seen_or hseen with hseen | himports
    · exact hstep.meets (h.imports importer hseen imported himported)
    · exact himports imported himported

/-- What is known of a search holds at any time of a run. -/
theorem run (hrun : Relation.ReflTransGen (Step graph) ⟨[], roots⟩ search) :
    Explores graph roots search := by
  induction hrun with
  | refl => exact start graph roots
  | tail _ hstep ih => exact ih.step hstep

/-- When nothing is left to visit, what is reached from the roots was seen. -/
theorem mem_seen_iff (h : Explores graph roots search) (hdone : search.todo = []) :
    number ∈ search.seen ↔ graph.ReachedFrom roots number := by
  have hseen : ∀ {number}, search.Meets number → number ∈ search.seen := fun hmeets =>
    hmeets.resolve_right (hdone ▸ List.not_mem_nil)
  constructor
  · intro hmem
    exact h.reached number (.inl hmem)
  · rintro ⟨root, hroot, hreach⟩
    induction hreach with
    | refl => exact hseen (h.roots root hroot)
    | tail _ himport ih => exact hseen (h.imports _ ih _ himport)

end Explores

end Search

/-! ## The search of `importedBy` -/

/-- With enough fuel nothing is left to visit. -/
theorem run_reach (hfuel : Search.load graph ⟨seen, todo⟩ ≤ fuel) :
    Relation.ReflTransGen (Search.Step graph) ⟨seen, todo⟩ ⟨graph.reach fuel seen todo, []⟩ := by
  induction fuel generalizing seen todo with
  | zero =>
    obtain rfl : todo = [] :=
      List.length_eq_zero_iff.1 (Nat.eq_zero_of_add_eq_zero_right (Nat.le_zero.1 hfuel))
    exact .refl
  | succ fuel ih =>
    cases todo with
    | nil => exact .refl
    | cons number rest =>
      rw [reach]
      split
      · next hseen =>
        have hstep : Search.Step graph ⟨seen, number :: rest⟩ ⟨seen, rest⟩ := .skip (.refl _) hseen
        exact .head hstep (ih (Nat.le_of_lt_succ (hstep.load_lt.trans_le hfuel)))
      · next hseen =>
        have hstep : Search.Step graph ⟨seen, number :: rest⟩
            ⟨number :: seen, graph.importsOf number ++ rest⟩ := .see (.refl _) hseen (.refl _)
        exact .head hstep (ih (Nat.le_of_lt_succ (hstep.load_lt.trans_le hfuel)))

/-- At the start everything is still to do: a visit for each root and one for each import. -/
theorem load_start (graph : LibraryGraph) (roots : List Nat) :
    Search.load graph ⟨[], roots⟩ = roots.length + graph.importCount := by
  rw [Search.load, unexplored_nil]

/-- The search of `importedBy` is a run that visits everything. -/
theorem run_importedBy (graph : LibraryGraph) (roots : List Nat) :
    Relation.ReflTransGen (Search.Step graph) ⟨[], roots⟩ ⟨graph.importedBy roots, []⟩ :=
  run_reach (load_start graph roots).le

/-- What is imported by some roots is what is reached from them. -/
theorem mem_importedBy : number ∈ graph.importedBy roots ↔ graph.ReachedFrom roots number :=
  (Search.Explores.run (run_importedBy graph roots)).mem_seen_iff rfl

/-- The roots are among what they import. -/
theorem subset_importedBy (graph : LibraryGraph) (roots : List Nat) :
    roots ⊆ graph.importedBy roots :=
  fun _ hroot => mem_importedBy.2 (.of_mem hroot)

/-- What is imported by something that roots import is imported by the roots as well. -/
theorem mem_importedBy_of_mem_importsOf {importer imported : Nat}
    (h : importer ∈ graph.importedBy roots) (himported : imported ∈ graph.importsOf importer) :
    imported ∈ graph.importedBy roots :=
  mem_importedBy.2 ((mem_importedBy.1 h).tail himported)

/-- What is imported by the roots is reached from one of them through recorded imports. -/
theorem importedBy_sound (h : number ∈ graph.importedBy roots) :
    ∃ root ∈ roots,
      Relation.ReflTransGen graph.Imports (graph.nameOf root) (graph.nameOf number) := by
  obtain ⟨root, hroot, hreach⟩ := mem_importedBy.1 h
  exact ⟨root, hroot, hreach.lift graph.nameOf fun a b hmem => ⟨a, b, hmem, rfl, rfl⟩⟩

end LibraryGraph

end TreeLang
