import Mathlib.Data.List.Chain
import TreeLang.Proofs.Library.Reachability
import TreeLang.Proofs.Library.Recording
import TreeLang.Proofs.Library.Sorting

/-!
# Cycles of imports

Sorting a graph fails exactly when the graph has a cycle of imports, and it names one. The imports
of implicit libraries that are added to a graph stand in no cycle: they lead from the outside to
what the implicit libraries import, and nothing there leads back.
-/

namespace TreeLang

variable {α β : Type}

/-- A path of steps that ends where it begins, after one step at least. -/
structure IsCycle (Step : α → α → Prop) (path : List α) : Prop where
  isChain : path.IsChain Step
  closed : path.head? = path.getLast?
  two_le_length : 2 ≤ path.length

namespace IsCycle

variable {Step Step' : α → α → Prop} {path : List α}

/-- A cycle is mapped to a cycle by whatever preserves the steps. -/
theorem map {Other : β → β → Prop} (h : IsCycle Step path) (f : α → β)
    (hstep : ∀ a b, Step a b → Other (f a) (f b)) : IsCycle Other (path.map f) where
  isChain := List.isChain_map_of_isChain f hstep h.isChain
  closed := by rw [List.head?_map, List.getLast?_map, h.closed]
  two_le_length := by rw [List.length_map]; exact h.two_le_length

/-- From the end of a step on a cycle there is a way back to its beginning. -/
theorem reaches_back (h : IsCycle Step path) {before after : List α} {a b : α}
    (hpath : path = before ++ a :: b :: after) : Relation.ReflTransGen Step b a := by
  have hchain := h.isChain
  have hclosed := h.closed
  subst hpath
  -- the way goes on to the end, which is the beginning, and from there to the step
  have hend : Relation.ReflTransGen Step b ((b :: after).getLast (List.cons_ne_nil _ _)) := by
    apply List.relationReflTransGen_of_exists_isChain_cons after ?_ rfl
    exact hchain.right_of_append.tail
  have hbegin : ∀ first, (before ++ [a]).head? = some first →
      Relation.ReflTransGen Step first a := by
    intro first hfirst
    have hprefix : (before ++ [a]).IsChain Step := by
      apply hchain.prefix
      exact ⟨b :: after, by simp⟩
    cases before with
    | nil =>
      obtain rfl : a = first := by simpa using hfirst
      exact .refl
    | cons other rest =>
      obtain rfl : other = first := by simpa using hfirst
      exact List.relationReflTransGen_of_exists_isChain_cons (rest ++ [a]) hprefix (by simp)
  refine hend.trans (hbegin _ ?_)
  have hhead : (before ++ a :: b :: after).head? = (before ++ [a]).head? := by
    cases before <;> rfl
  rw [← hhead, hclosed, List.getLast?_append_of_ne_nil _ (List.cons_ne_nil _ _),
    List.getLast?_cons_cons, List.getLast?_eq_getLast_of_ne_nil (List.cons_ne_nil _ _)]

/-- The steps of a cycle have any property that follows from there being a way back. -/
theorem strengthen (h : IsCycle Step path)
    (hstep : ∀ a b, Step a b → Relation.ReflTransGen Step b a → Step' a b) :
    IsCycle Step' path where
  isChain := by
    apply List.isChain_iff_forall_rel_of_append_cons_cons.2
    intro a b before after hpath
    have hab : Step a b :=
      List.isChain_iff_forall_rel_of_append_cons_cons.1 h.isChain hpath
    exact hstep a b hab (h.reaches_back hpath)
  closed := h.closed
  two_le_length := h.two_le_length

/-- Steps that each go down come back nowhere. -/
theorem not_of_rank (rank : α → Nat) (hstep : ∀ a b, Step a b → rank b < rank a) :
    ¬ IsCycle Step path := by
  intro h
  have hlength := h.two_le_length
  match path, h with
  | a :: b :: after, h =>
    have hdown : ∀ c, Relation.ReflTransGen Step b c → rank c ≤ rank b := by
      intro c hc
      induction hc with
      | refl => exact Nat.le_refl _
      | tail _ hlast ih => exact Nat.le_trans (Nat.le_of_lt (hstep _ _ hlast)) ih
    have hab : rank b < rank a := hstep a b (List.isChain_cons_cons.1 h.isChain).1
    have hpath : a :: b :: after = [] ++ a :: b :: after := rfl
    have hback := hdown a (h.reaches_back hpath)
    omega

end IsCycle

namespace LibraryGraph

variable {graph : LibraryGraph} {path : List Nat} {names : List String} {number : Nat}

/-! ## What sorting reports -/

/-- A fold that fails does so at one of its steps. -/
theorem exists_of_foldlM_eq_error {σ ε : Type} {step : σ → α → Except ε σ} {list : List α}
    {state : σ} {error : ε} (h : list.foldlM step state = .error error) :
    ∃ a ∈ list, ∃ before, step before a = .error error := by
  induction list generalizing state with
  | nil => cases h
  | cons a rest ih =>
    rw [List.foldlM_cons] at h
    cases hfirst : step state a with
    | error other =>
      rw [hfirst] at h
      cases h
      exact ⟨a, List.mem_cons_self, state, hfirst⟩
    | ok next =>
      rw [hfirst] at h
      obtain ⟨b, hb, before, hbefore⟩ := ih h
      exact ⟨b, List.mem_cons_of_mem _ hb, before, hbefore⟩

/-- The names from the earlier visit of a library back to it. -/
theorem cycleTo_append_cons {before after : List Nat} (h : number ∉ before) :
    graph.cycleTo (before ++ number :: after) number =
      (number :: after ++ [number]).map graph.nameOf := by
  have hdrop : (before ++ number :: after).dropWhile (· ≠ number) = number :: after := by
    rw [List.dropWhile_append_of_pos]
    · simp
    · intro other hother
      have hne : other ≠ number := by
        rintro rfl
        exact h hother
      simpa using hne
  rw [cycleTo, hdrop]

/-- The path back to a library on the path is a cycle. -/
theorem isCycle_cycleTo
    (hpath : (path ++ [number]).IsChain
      fun importer imported => imported ∈ graph.importsOf importer)
    (hnumber : number ∈ path) : IsCycle graph.Imports (graph.cycleTo path number) := by
  obtain ⟨before, after, rfl, hbefore⟩ := List.eq_append_cons_of_mem hnumber
  have hcycle : IsCycle (fun importer imported => imported ∈ graph.importsOf importer)
      (number :: after ++ [number]) := by
    refine ⟨?_, ?_, ?_⟩
    · rw [List.append_assoc] at hpath
      exact hpath.right_of_append
    · rw [List.getLast?_concat]
      rfl
    · simp
  rw [cycleTo_append_cons hbefore]
  exact hcycle.map graph.nameOf fun a b himport => ⟨a, b, himport, rfl, rfl⟩

/-- How a search fails: it has followed imports to a library that is on its path already. -/
structure ComesBack (graph : LibraryGraph) (path : List Nat) (number : Nat) : Prop where
  isChain : (path ++ [number]).IsChain fun importer imported => imported ∈ graph.importsOf importer
  nodup : path.Nodup
  mem : number ∈ path

/-- A visit that fails reports where the search comes back to its path, when what leads to it is a
path of imports. -/
theorem comesBack_of_visit_eq_error {fuel : Nat} {order : List Nat}
    (hpath : (path ++ [number]).IsChain
      fun importer imported => imported ∈ graph.importsOf importer)
    (hnodup : path.Nodup) (h : graph.visit fuel path order number = .error names) :
    ∃ path' number', graph.ComesBack path' number' ∧ names = graph.cycleTo path' number' := by
  -- by induction on the fuel: either this visit finds its number on the path, or an import of it
  -- fails
  induction fuel generalizing path order number with
  | zero =>
    rw [visit] at h
    split at h
    · cases h
    split at h
    · next hmem =>
      cases h
      exact ⟨path, number, ⟨hpath, hnodup, hmem⟩, rfl⟩
    · cases h
  | succ fuel ih =>
    rw [visit] at h
    split at h
    · cases h
    split at h
    · next hmem =>
      cases h
      exact ⟨path, number, ⟨hpath, hnodup, hmem⟩, rfl⟩
    -- the number is new, so that the path may be made longer by it
    next hnew =>
    cases hfold : (graph.byName (graph.importsOf number)).foldlM
        (graph.visit fuel (path ++ [number])) order with
    | ok next =>
      simp only [hfold] at h
      cases h
    | error other =>
      simp only [hfold] at h
      cases h
      -- the fold stops at the first import whose visit fails
      obtain ⟨imported, himported, before, hvisit⟩ := exists_of_foldlM_eq_error hfold
      have himport : imported ∈ graph.importsOf number := (graph.mem_byName _).1 himported
      have hlonger : ((path ++ [number]) ++ [imported]).IsChain
          fun importer imported => imported ∈ graph.importsOf importer := by
        apply hpath.append (List.isChain_singleton _)
        simpa using himport
      have hnodup' : (path ++ [number]).Nodup :=
        hnodup.append (List.nodup_singleton _) (List.disjoint_singleton.2 hnew)
      exact ih hlonger hnodup' hvisit

/-- Sorting a graph that fails reports where the search comes back to its path. -/
theorem comesBack_of_sorted_eq_error (h : graph.sorted = .error names) :
    ∃ path number, graph.ComesBack path number ∧ names = graph.cycleTo path number := by
  obtain ⟨number, -, before, hvisit⟩ := exists_of_foldlM_eq_error h
  have hpath : ([] ++ [number]).IsChain fun importer imported =>
      imported ∈ graph.importsOf importer := List.isChain_singleton _
  exact comesBack_of_visit_eq_error hpath List.nodup_nil hvisit

/-- Sorting a graph that fails reports a cycle of imports. -/
theorem isCycle_of_sorted_eq_error (h : graph.sorted = .error names) :
    IsCycle graph.Imports names := by
  obtain ⟨path, number, hback, rfl⟩ := comesBack_of_sorted_eq_error h
  exact isCycle_cycleTo hback.isChain hback.mem

/-- A graph that can be sorted has no cycle of imports: each import leads to an earlier place. -/
theorem WellFormed.not_isCycle_of_sorted (h : graph.WellFormed) {order : List Nat}
    (hsorted : graph.sorted = .ok order) : ¬ IsCycle graph.Imports names := by
  obtain ⟨hfirst, hmem⟩ := h.sorted_importsFirst hsorted
  apply IsCycle.not_of_rank fun name => (order.map graph.nameOf).idxOf name
  intro a b himports
  have ha : a ∈ order.map graph.nameOf := by
    obtain ⟨importer, imported, himport, rfl, -⟩ := himports
    exact List.mem_map_of_mem ((hmem importer).2 (lt_size_of_mem_importsOf himport))
  obtain ⟨before, after, horder, hnew⟩ := List.eq_append_cons_of_mem ha
  have hb : b ∈ before := hfirst.name_mem_of_eq_append h horder himports
  have hplace : (before ++ a :: after).idxOf a = before.length := by
    rw [List.idxOf_append_of_notMem hnew, List.idxOf_cons_self, Nat.add_zero]
  rw [horder, hplace, List.idxOf_append_of_mem hb]
  exact List.idxOf_lt_length_of_mem hb

/-! ## Implicit imports -/

/-- A library that roots import leads to nothing that they do not import, even when all others are
made to depend on the roots. -/
theorem WellFormed.beneath_of_reaches (h : graph.WellFormed) {implicit : List Nat}
    (himplicit : ∀ number ∈ implicit, number < graph.size) {a b : String}
    (ha : ∃ number ∈ graph.importedBy implicit, number < graph.size ∧ graph.nameOf number = a)
    (hreach : Relation.ReflTransGen (graph.withImplicit implicit).Imports a b) :
    ∃ number ∈ graph.importedBy implicit, number < graph.size ∧ graph.nameOf number = b := by
  induction hreach with
  | refl => exact ha
  | @tail c d _ himports ih =>
    obtain ⟨number, hbeneath, hlt, rfl⟩ := ih
    rcases ((h.withImplicit himplicit).imports_iff _ _).1 himports with hwritten | hadded
    · obtain ⟨importer, imported, himport, hname, rfl⟩ := hwritten
      obtain rfl : importer = number :=
        h.nameOf_inj (lt_size_of_mem_importsOf himport) hlt hname
      exact ⟨imported, mem_importedBy_of_mem_importsOf hbeneath himport,
        h.lt_of_mem_importsOf _ _ himport, rfl⟩
    · obtain ⟨⟨outside, hlt', hout, hname⟩, -, -⟩ := hadded
      obtain rfl : outside = number := h.nameOf_inj hlt' hlt hname
      exact absurd hbeneath hout

/-- The imports that are added for implicit libraries stand in no cycle. -/
theorem WellFormed.isCycle_withImplicit_iff (h : graph.WellFormed) {implicit : List Nat}
    (himplicit : ∀ number ∈ implicit, number < graph.size) :
    IsCycle (graph.withImplicit implicit).Imports names ↔ IsCycle graph.Imports names := by
  have hgrows := h.withImplicit himplicit
  constructor
  · intro hcycle
    apply hcycle.strengthen
    intro a b himports hback
    rcases (hgrows.imports_iff a b).1 himports with hwritten | hadded
    · exact hwritten
    · -- the end of an added import is a root, from which nothing leads to the outside
      obtain ⟨⟨outside, hlt, hout, rfl⟩, hroot, -⟩ := hadded
      obtain ⟨root, hmem, rfl⟩ := List.mem_map.1 hroot
      have hbeneath : ∃ number ∈ graph.importedBy implicit,
          number < graph.size ∧ graph.nameOf number = graph.nameOf root :=
        ⟨root, graph.subset_importedBy implicit hmem, himplicit root hmem, rfl⟩
      obtain ⟨number, hnumber, hlt', hname⟩ := h.beneath_of_reaches himplicit hbeneath hback
      obtain rfl : number = outside := h.nameOf_inj hlt' hlt hname
      exact absurd hnumber hout
  · intro hcycle
    exact hcycle.strengthen fun a b himports _ => (hgrows.imports_iff a b).2 (.inl himports)

end LibraryGraph

end TreeLang
