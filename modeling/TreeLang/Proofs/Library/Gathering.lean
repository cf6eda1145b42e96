import Mathlib.Data.List.Flatten
import Mathlib.Data.List.Nodup
import TreeLang.Library.Splice

/-!
# The libraries that a program needs

The search for libraries reads each library once, in the order in which libraries are first named.
What it finds is what the program needs, no more and no less. It comes to an end within its bound,
because every name that it looks up is a name it started with or is written in a library that it has
read.
-/

namespace TreeLang

namespace Shelf

variable {shelf : Shelf} {name : String} {fuel : Nat} {todo : List String}
  {found result : List (String × Program)}

/-- The first name is that of a library at hand, which imports the second one. -/
def Imports (shelf : Shelf) (importer imported : String) : Prop :=
  ∃ library, shelf.find importer = some library ∧ imported ∈ library.imports

/-- The names of the libraries that a program needs: those that it imports, the implicit ones at
hand, and what these import. -/
inductive Needs (shelf : Shelf) (implicit : List String) (program : Program) : String → Prop
  | named {name : String} (h : name ∈ program.imports) : Needs shelf implicit program name
  | implicit {name : String} (h : name ∈ implicit) (available : shelf.has name) :
      Needs shelf implicit program name
  | imported {importer imported : String} (h : Needs shelf implicit program importer)
      (imports : shelf.Imports importer imported) : Needs shelf implicit program imported

/-- Libraries of a shelf by their names, each once. -/
structure Holds (shelf : Shelf) (libraries : List (String × Program)) : Prop where
  nodup : (libraries.map Prod.fst).Nodup
  find_eq : ∀ entry ∈ libraries, shelf.find entry.1 = some entry.2

/-- All that is imported by some libraries is among them, or is still to be looked up. -/
def ClosedBut (libraries : List (String × Program)) (todo : List String) : Prop :=
  ∀ entry ∈ libraries, ∀ name ∈ entry.2.imports, name ∈ libraries.map Prod.fst ∨ name ∈ todo

/-- The number of imports written in the libraries of a shelf that are not found yet. -/
def unread (shelf : Shelf) (found : List (String × Program)) : Nat :=
  importCount (shelf.filter fun entry => entry.1 ∉ found.map Prod.fst)

/-! ## The bound -/

/-- The imports on a shelf are those of its first library and of the others. -/
theorem importCount_cons (entry : String × Program) (shelf : Shelf) :
    importCount (entry :: shelf) = entry.2.imports.length + importCount shelf := by
  rw [importCount, importCount, List.flatMap_cons, List.length_append]

/-- Fewer libraries have fewer imports. -/
theorem importCount_le_of_sublist {shelf' : Shelf} (h : shelf'.Sublist shelf) :
    importCount shelf' ≤ importCount shelf := (h.flatMap _).length_le

/-- Leaving out a library takes its imports away. -/
theorem importCount_filter_ne (keep : String → Bool) {library : Program}
    (hfind : shelf.find name = some library) (hkeep : keep name) :
    importCount (shelf.filter fun entry => keep entry.1 && entry.1 ≠ name) +
        library.imports.length ≤ importCount (shelf.filter fun entry => keep entry.1) := by
  induction shelf with
  | nil => cases hfind
  | cons entry rest ih =>
    rw [Table.find] at hfind
    by_cases hname : entry.1 = name
    -- this is the library that is left out; a later one of the same name goes with it
    · rw [if_pos hname] at hfind
      cases hfind
      have hrest := importCount_le_of_sublist (List.monotone_filter_right rest
        (p := fun entry => keep entry.1 && entry.1 ≠ name) (q := fun entry => keep entry.1)
        fun entry hentry => (Bool.and_eq_true_iff.1 hentry).1)
      simp only [List.filter_cons, hname, hkeep, ne_eq, not_true_eq_false, decide_false,
        Bool.and_false, Bool.false_eq_true, if_false, if_true, importCount_cons]
      rw [Nat.add_comm]
      exact Nat.add_le_add_left hrest _
    · rw [if_neg hname] at hfind
      have hrest := ih hfind
      simp only [List.filter_cons, hname, ne_eq, not_false_eq_true, decide_true, Bool.and_true]
      split
      · rw [importCount_cons, importCount_cons, Nat.add_assoc]
        exact Nat.add_le_add_left hrest _
      · exact hrest

/-- Before anything is found all imports of the shelf are unread. -/
theorem unread_nil (shelf : Shelf) : shelf.unread [] = shelf.importCount :=
  congrArg importCount (List.filter_eq_self.2 fun _ _ => decide_eq_true List.not_mem_nil)

/-- What is read is not read again. -/
theorem unread_concat {library : Program} (hfind : shelf.find name = some library)
    (hnew : name ∉ found.map Prod.fst) :
    shelf.unread (found ++ [(name, library)]) + library.imports.length ≤ shelf.unread found := by
  have hkept : (fun entry : String × Program =>
      decide (entry.1 ∉ (found ++ [(name, library)]).map Prod.fst)) =
        fun entry => decide (entry.1 ∉ found.map Prod.fst) && decide (entry.1 ≠ name) := by
    funext entry
    rw [← Bool.decide_and, decide_eq_decide, List.map_append, List.mem_append, not_or]
    exact and_congr_right fun _ => not_congr List.mem_singleton
  rw [unread, hkept]
  have hkeep : decide (name ∉ found.map Prod.fst) = true := decide_eq_true hnew
  exact importCount_filter_ne (fun name => decide (name ∉ found.map Prod.fst)) hfind hkeep

/-! ## The search -/

/-- A library of the shelf that is new may join those that are found. -/
theorem Holds.concat {library : Program} (h : shelf.Holds found)
    (hfind : shelf.find name = some library) (hnew : name ∉ found.map Prod.fst) :
    shelf.Holds (found ++ [(name, library)]) where
  nodup := by
    rw [List.map_append]
    exact h.nodup.append (List.nodup_singleton _) (List.disjoint_singleton.2 hnew)
  find_eq := List.forall_mem_append.2 ⟨h.find_eq, List.forall_mem_singleton.2 hfind⟩

/-- Looking up a name that was found already. -/
theorem ClosedBut.drop (h : ClosedBut found (name :: todo)) (hname : name ∈ found.map Prod.fst) :
    ClosedBut found todo := by
  intro entry hentry other hother
  rcases h entry hentry other hother with hfound | htodo
  · exact .inl hfound
  · rcases List.mem_cons.1 htodo with rfl | htodo
    · exact .inl hname
    · exact .inr htodo

/-- Finding a library leaves its imports to be looked up. -/
theorem ClosedBut.concat (h : ClosedBut found (name :: todo)) (library : Program) :
    ClosedBut (found ++ [(name, library)]) (todo ++ library.imports) := by
  rw [ClosedBut, List.map_append]
  refine List.forall_mem_append.2 ⟨fun entry hentry other hother => ?_,
    List.forall_mem_singleton.2 fun other hother => .inr (List.mem_append_right _ hother)⟩
  rcases h entry hentry other hother with hfound | htodo
  · exact .inl (List.mem_append_left _ hfound)
  · rcases List.mem_cons.1 htodo with rfl | htodo
    · exact .inl (List.mem_append_right _ (List.mem_singleton_self _))
    · exact .inr (List.mem_append_left _ htodo)

/-- What a search finds: libraries of the shelf, among them all that were to be looked up, and all
that is imported by what is found. -/
structure Gathered (shelf : Shelf) (found : List (String × Program)) (todo : List String)
    (result : List (String × Program)) : Prop where
  holds : shelf.Holds result
  found_subset : found.map Prod.fst ⊆ result.map Prod.fst
  todo_subset : todo ⊆ result.map Prod.fst
  closed : ClosedBut result []

/-- A search with enough fuel that does not fail has gathered all that was to be looked up. -/
theorem gathered_of_gather (hfuel : todo.length + shelf.unread found ≤ fuel)
    (hfound : shelf.Holds found) (hclosed : ClosedBut found todo)
    (h : shelf.gather fuel found todo = .ok result) : shelf.Gathered found todo result := by
  -- each step uses up a name, and the imports that it adds are no longer unread
  induction fuel generalizing found todo with
  | zero =>
    have htodo : todo = [] := List.length_eq_zero_iff.1 (by omega)
    subst htodo
    cases h
    exact ⟨hfound, List.Subset.refl _, List.nil_subset _, hclosed⟩
  | succ fuel ih =>
    cases todo with
    | nil =>
      cases h
      exact ⟨hfound, List.Subset.refl _, List.nil_subset _, hclosed⟩
    | cons name todo =>
      rw [List.length_cons] at hfuel
      rw [gather] at h
      split at h
      · next hname =>
        rw [Table.has_iff] at hname
        have hresult := ih (by omega) hfound (hclosed.drop hname) h
        exact { hresult with
          todo_subset := List.cons_subset.2
            ⟨hresult.found_subset hname, hresult.todo_subset⟩ }
      next hname =>
      rw [Table.has_iff] at hname
      split at h
      · cases h
      · next library hfind =>
        have hunread := unread_concat hfind hname
        have hresult := ih (by rw [List.length_append]; omega) (hfound.concat hfind hname)
          (hclosed.concat library) h
        have hsubset := hresult.found_subset
        rw [List.map_append] at hsubset
        refine ⟨hresult.holds, List.Subset.trans (List.subset_append_left _ _) hsubset,
          List.cons_subset.2
            ⟨?_, List.Subset.trans (List.subset_append_left _ _) hresult.todo_subset⟩,
          hresult.closed⟩
        exact hsubset (List.mem_append_right _ (List.mem_singleton_self _))

/-- All that a search finds has a property of names which what it starts from has, and which is
passed on by imports. -/
theorem gather_sound {P : String → Prop} (himports : ∀ a b, P a → shelf.Imports a b → P b)
    (hfound : ∀ name ∈ found.map Prod.fst, P name) (htodo : ∀ name ∈ todo, P name)
    (h : shelf.gather fuel found todo = .ok result) : ∀ name ∈ result.map Prod.fst, P name := by
  induction fuel generalizing found todo with
  | zero =>
    cases h
    exact hfound
  | succ fuel ih =>
    cases todo with
    | nil =>
      cases h
      exact hfound
    | cons name todo =>
      obtain ⟨hname, htodo⟩ := List.forall_mem_cons.1 htodo
      rw [gather] at h
      split at h
      · exact ih hfound htodo h
      split at h
      · cases h
      · next library hfind =>
        refine ih ?_ ?_ h
        · rw [List.map_append]
          exact List.forall_mem_append.2 ⟨hfound, List.forall_mem_singleton.2 hname⟩
        · exact List.forall_mem_append.2 ⟨htodo, fun other hother =>
            himports name other hname ⟨library, hfind, hother⟩⟩

/-- A search finds what the program needs. -/
structure Meets (shelf : Shelf) (implicit : List String) (program : Program)
    (libraries : List (String × Program)) : Prop where
  holds : shelf.Holds libraries
  mem_names_iff : ∀ name, name ∈ libraries.map Prod.fst ↔ shelf.Needs implicit program name

/-- The search finds the libraries that a program needs, each once. -/
theorem needed_meets {implicit : List String} {program : Program}
    (h : shelf.needed implicit program = .ok result) : shelf.Meets implicit program result := by
  have hgathered : shelf.Gathered [] (program.imports ++ implicit.filter shelf.has) result := by
    refine gathered_of_gather (Nat.le_of_eq ?_) ⟨List.nodup_nil, nofun⟩ nofun h
    rw [unread_nil]
  refine ⟨hgathered.holds, fun name => ⟨?_, fun hneeds => ?_⟩⟩
  · refine gather_sound (fun a b ha hb => .imported ha hb) nofun ?_ h name
    intro root hroot
    rcases List.mem_append.1 hroot with hroot | hroot
    · exact .named hroot
    · obtain ⟨hroot, havailable⟩ := List.mem_filter.1 hroot
      exact .implicit hroot havailable
  · induction hneeds with
    | named hname => exact hgathered.todo_subset (List.mem_append_left _ hname)
    | implicit hname havailable =>
      exact hgathered.todo_subset
        (List.mem_append_right _ (List.mem_filter.2 ⟨hname, havailable⟩))
    | @imported importer imported _ himports ih =>
      obtain ⟨library, hfind, hmem⟩ := himports
      obtain ⟨entry, hentry, rfl⟩ := List.mem_map.1 ih
      rw [hgathered.holds.find_eq entry hentry] at hfind
      cases hfind
      exact (hgathered.closed entry hentry imported hmem).resolve_right (List.not_mem_nil)

end Shelf

end TreeLang
