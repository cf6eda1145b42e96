import TreeLang.Proofs.Library.Cycles
import TreeLang.Proofs.Library.Ids

/-!
# When splicing fails

Splicing fails for one of three reasons, and the first that holds is the one that it reports: a name
that is imported and not at hand, a cycle of imports between libraries, and too few ids for the
nodes of the libraries.
-/

namespace TreeLang

namespace Shelf

variable {shelf : Shelf} {implicit : List String} {program : Program} {fuel : Nat}
  {found libraries : List (String × Program)} {todo path : List String} {name : String}

/-- A name that is not at hand, though the program or a library that it needs imports it. -/
def Lacks (shelf : Shelf) (implicit : List String) (program : Program) (name : String) : Prop :=
  shelf.find name = none ∧
    (name ∈ program.imports ∨
      ∃ importer, shelf.Needs implicit program importer ∧ shelf.Imports importer name)

/-- A library that the program needs imports another one. -/
def Links (shelf : Shelf) (implicit : List String) (program : Program) (a b : String) : Prop :=
  shelf.Needs implicit program a ∧ shelf.Imports a b ∧ a ≠ b

/-! ## Names that are not at hand -/

/-- What is lacking is needed as well, and an implicit library is needed only when it is at hand. -/
theorem lacks_iff :
    shelf.Lacks implicit program name ↔
      shelf.Needs implicit program name ∧ shelf.find name = none := by
  constructor
  · rintro ⟨hfind, hname | ⟨importer, hneeds, himports⟩⟩
    · exact ⟨.named hname, hfind⟩
    · exact ⟨.imported hneeds himports, hfind⟩
  · rintro ⟨hneeds, hfind⟩
    refine ⟨hfind, ?_⟩
    cases hneeds with
    | named hname => exact .inl hname
    | implicit _ available =>
      rw [Table.has, hfind] at available
      cases available
    | imported hneeds himports => exact .inr ⟨_, hneeds, himports⟩

/-- A search that fails reports a name that is not at hand, and that has a property which what it
starts from has and which is passed on by imports. -/
theorem gather_eq_error {P : String → Prop} {error : SpliceError}
    (himports : ∀ a b, P a → shelf.Imports a b → P b) (htodo : ∀ name ∈ todo, P name)
    (h : shelf.gather fuel found todo = .error error) :
    ∃ name, error = .libraryNotFound name ∧ P name ∧ shelf.find name = none := by
  induction fuel generalizing found todo with
  | zero => cases h
  | succ fuel ih =>
    cases todo with
    | nil => cases h
    | cons name rest =>
      obtain ⟨hname, hrest⟩ := List.forall_mem_cons.1 htodo
      rw [gather] at h
      split at h
      · exact ih hrest h
      split at h
      · next hfind =>
        cases h
        exact ⟨name, rfl, hname, hfind⟩
      · next library hfind =>
        refine ih ?_ h
        intro other hother
        rcases List.mem_append.1 hother with hother | hother
        · exact hrest other hother
        · exact himports name other hname ⟨library, hfind, hother⟩

/-- The search fails exactly when something is lacking, and it reports such a name. -/
theorem needed_eq_error {error : SpliceError} (h : shelf.needed implicit program = .error error) :
    ∃ name, error = .libraryNotFound name ∧ shelf.Lacks implicit program name := by
  have htodo : ∀ name ∈ program.imports ++ implicit.filter shelf.has,
      shelf.Needs implicit program name := by
    intro name hname
    rcases List.mem_append.1 hname with hname | hname
    · exact .named hname
    · obtain ⟨hname, available⟩ := List.mem_filter.1 hname
      exact .implicit hname available
  obtain ⟨name, rfl, hneeds, hfind⟩ :=
    gather_eq_error (fun a b ha hb => .imported ha hb) htodo h
  exact ⟨name, rfl, lacks_iff.2 ⟨hneeds, hfind⟩⟩

/-- Nothing is lacking where the search comes to a good end. -/
theorem Meets.not_lacks (h : shelf.Meets implicit program libraries) (name : String) :
    ¬ shelf.Lacks implicit program name := by
  intro hlacks
  obtain ⟨hneeds, hfind⟩ := lacks_iff.1 hlacks
  obtain ⟨entry, hentry, rfl⟩ := List.mem_map.1 ((h.mem_names_iff name).2 hneeds)
  rw [h.holds.find_eq entry hentry] at hfind
  cases hfind

/-! ## Cycles -/

/-- A cycle of the graph that libraries are sorted by is one of imports written in them. -/
theorem Meets.isCycle_graphOf_iff (h : shelf.Meets implicit program libraries) :
    IsCycle (shelf.graphOf implicit libraries).Imports path ↔
      IsCycle (shelf.Links implicit program) path := by
  have hwritten := (LibraryGraph.written_grows libraries).wellFormed
  have hroots : ∀ number ∈ shelf.roots implicit libraries,
      number < (LibraryGraph.written libraries).size :=
    fun number hnumber => (Meets.mem_roots_iff.1 hnumber).1
  have hlinks : (LibraryGraph.written libraries).Imports = shelf.Links implicit program := by
    funext a b
    exact propext h.written_imports_iff
  rw [graphOf, hwritten.isCycle_withImplicit_iff hroots, hlinks]

/-- A cycle takes libraries that the program needs. -/
theorem Meets.ne_nil_of_isCycle (h : shelf.Meets implicit program libraries)
    (hcycle : IsCycle (shelf.Links implicit program) path) : libraries ≠ [] := by
  rintro rfl
  have hlength := hcycle.two_le_length
  match path, hcycle with
  | a :: b :: after, hcycle =>
    have hlinks := (List.isChain_cons_cons.1 hcycle.isChain).1
    exact absurd ((h.mem_names_iff a).2 hlinks.1) List.not_mem_nil

end Shelf

/-! ## Room for ids -/

/-- Identifiers are equal when their numbers are. -/
theorem NodeId.eq_of_value_eq {a b : NodeId} (h : a.value = b.value) : a = b := by
  cases a
  cases b
  cases h
  rfl

/-- There is no supply after the last id, and only then. -/
theorem IdSupply.after?_eq_none_iff {latest : NodeId} :
    after? (some latest) = none ↔ latest = NodeId.last := by
  have hle := latest.value_le_last
  have hlast : NodeId.last.value + 1 = 0x10000000000000000 := rfl
  rw [after?, NodeId.ofNat?, Option.map_eq_none_iff]
  constructor
  · intro h
    split at h
    · cases h
    · exact NodeId.eq_of_value_eq (by omega)
  · rintro rfl
    rw [dif_neg (by omega)]

/-- The number of nodes of some libraries. -/
def nodeTotal (libraries : List (String × Program)) : Nat :=
  (libraries.flatMap fun entry => entry.2.nodes).length

/-- The nodes of several libraries are counted together. -/
theorem foldr_nodeCount_eq (libraries : List (String × Program)) :
    libraries.foldr (fun entry count => entry.2.nodeCount + count) 0 = nodeTotal libraries := by
  rw [foldr_nodeCount, List.flatMap_map, nodeTotal]

/-- The ids above those of a program do not suffice for some more nodes: they are fewer, or there
are none because the program has the last one. -/
def Program.LacksRoomFor (program : Program) (count : Nat) : Prop :=
  NodeId.last.value - (program.maxId.value + 1) < count ∨ program.maxId = NodeId.last

/-- A supply that continues after a program has an id for each of some nodes, where there is
room. -/
theorem Program.lacksRoomFor_iff {program : Program} {count : Nat} {ids : IdSupply}
    (h : IdSupply.after? (some program.maxId) = some ids) :
    program.LacksRoomFor count ↔ ids.remaining < count := by
  have hne : program.maxId ≠ NodeId.last := by
    intro hlast
    rw [IdSupply.after?_eq_none_iff.2 hlast] at h
    cases h
  rw [LacksRoomFor, or_iff_left hne, IdSupply.remaining, IdSupply.peek_of_after? h]

/-! ## Splicing step by step -/

section Outcomes

variable {shelf : Shelf} {implicit : List String} {program : Program}
  {found : List (String × Program)}

/-- An error of the search for libraries is that of the splice. -/
theorem splice_of_needed_eq_error {error : SpliceError}
    (h : shelf.needed implicit program = .error error) :
    splice shelf implicit program = .error error := by
  rw [splice, h]
  rfl

/-- A program that needs no library is spliced as it is. -/
theorem splice_of_needed_eq_nil (h : shelf.needed implicit program = .ok []) :
    splice shelf implicit program = .ok program := by
  rw [splice, h]
  rfl

/-- A cycle among the libraries that are found is the error of the splice. -/
theorem splice_of_sorted_eq_error {path : List String}
    (h : shelf.needed implicit program = .ok found) (hfound : found ≠ [])
    (hsorted : (shelf.graphOf implicit found).sorted = .error path) :
    splice shelf implicit program = .error (.cycle path) := by
  have hempty : found.isEmpty = false := List.isEmpty_eq_false_iff.2 hfound
  rw [Shelf.graphOf, Shelf.roots] at hsorted
  simp only [splice, h, bind, Except.bind, hempty, Bool.false_eq_true, if_false, hsorted]
  rfl

/-- Sorted libraries are spliced, unless the ids do not suffice. -/
theorem splice_of_sorted_eq_ok {order : List Nat}
    (h : shelf.needed implicit program = .ok found) (hfound : found ≠ [])
    (hsorted : (shelf.graphOf implicit found).sorted = .ok order) :
    (program.LacksRoomFor (nodeTotal found) ∧
        splice shelf implicit program = .error (.idsExhausted (nodeTotal found))) ∨
      (¬ program.LacksRoomFor (nodeTotal found) ∧
        ∃ q, splice shelf implicit program = .ok q) := by
  have hempty : found.isEmpty = false := List.isEmpty_eq_false_iff.2 hfound
  rw [Shelf.graphOf, Shelf.roots] at hsorted
  simp only [splice, h, bind, Except.bind, hempty, Bool.false_eq_true, if_false, hsorted,
    foldr_nodeCount_eq]
  cases hids : IdSupply.after? (some program.maxId) with
  | none => exact .inl ⟨.inr (IdSupply.after?_eq_none_iff.1 hids), rfl⟩
  | some ids =>
    by_cases hroom : ids.remaining < nodeTotal found
    · refine .inl ⟨(Program.lacksRoomFor_iff hids).2 hroom, ?_⟩
      simp only [hroom, if_true]
      rfl
    · refine .inr ⟨fun hlacks => hroom ((Program.lacksRoomFor_iff hids).1 hlacks), ?_⟩
      simp only [hroom, if_false]
      exact ⟨_, rfl⟩

end Outcomes

/-- Splicing fails for exactly these reasons. It reports a name that is lacking when there is one;
otherwise a cycle of imports between different libraries when there is one; otherwise that the ids
do not suffice for the nodes of the libraries when they do not, and there is a library. What it
reports is such a name, such a cycle, and the number of these nodes. -/
theorem splice_failures (shelf : Shelf) (implicit : List String) (program : Program) :
    ((∃ name, splice shelf implicit program = .error (.libraryNotFound name)) ↔
        ∃ name, shelf.Lacks implicit program name) ∧
      (∀ name, splice shelf implicit program = .error (.libraryNotFound name) →
        shelf.Lacks implicit program name) ∧
      ((¬ ∃ name, shelf.Lacks implicit program name) →
        ((∃ path, splice shelf implicit program = .error (.cycle path)) ↔
            ∃ path, IsCycle (shelf.Links implicit program) path) ∧
          (∀ path, splice shelf implicit program = .error (.cycle path) →
            IsCycle (shelf.Links implicit program) path) ∧
          ((¬ ∃ path, IsCycle (shelf.Links implicit program) path) →
            ∃ libraries, shelf.Meets implicit program libraries ∧
              ((∃ count, splice shelf implicit program = .error (.idsExhausted count)) ↔
                libraries ≠ [] ∧ program.LacksRoomFor (nodeTotal libraries)) ∧
              (∀ count, splice shelf implicit program = .error (.idsExhausted count) →
                count = nodeTotal libraries))) := by
  -- the three reasons are told apart in the order in which splicing looks for them
  cases hneeded : shelf.needed implicit program with
  | error error =>
    obtain ⟨name, rfl, hlacks⟩ := Shelf.needed_eq_error hneeded
    have hsplice := splice_of_needed_eq_error hneeded
    refine ⟨⟨fun _ => ⟨name, hlacks⟩, fun _ => ⟨name, hsplice⟩⟩, fun other hother => ?_,
      fun hnone => absurd ⟨name, hlacks⟩ hnone⟩
    rw [hsplice] at hother
    cases hother
    exact hlacks
  | ok found =>
    have hmeets := Shelf.needed_meets hneeded
    have hnone : ¬ ∃ name, shelf.Lacks implicit program name := by
      -- with everything found no name is lacking, as the libraries found are all that are needed
      rintro ⟨name, hlacks⟩
      exact hmeets.not_lacks name hlacks
    cases hsorted : (shelf.graphOf implicit found).sorted with
    -- the graph's links are the imports of the libraries found, so that its cycle is one of theirs
    | error path =>
      have hcycle : IsCycle (shelf.Links implicit program) path :=
        hmeets.isCycle_graphOf_iff.1 (LibraryGraph.isCycle_of_sorted_eq_error hsorted)
      have hsplice :=
        splice_of_sorted_eq_error hneeded (hmeets.ne_nil_of_isCycle hcycle) hsorted
      have hexists : ∃ path, IsCycle (shelf.Links implicit program) path := ⟨path, hcycle⟩
      simp [hsplice, hnone, hexists, hcycle]
    | ok order =>
      have hgraph := (Shelf.Meets.grows_graphOf shelf implicit found).wellFormed
      have hacyclic : ¬ ∃ path, IsCycle (shelf.Links implicit program) path := by
        rintro ⟨path, hpath⟩
        exact hgraph.not_isCycle_of_sorted hsorted (hmeets.isCycle_graphOf_iff.2 hpath)
      -- without libraries the program is returned before ids are counted
      by_cases hfound : found = []
      · subst hfound
        have hsplice := splice_of_needed_eq_nil hneeded
        simp only [hsplice, hnone, hacyclic]
        simpa using ⟨[], hmeets, fun hne => absurd rfl hne⟩
      · rcases splice_of_sorted_eq_ok hneeded hfound hsorted with
          ⟨hroom, hsplice⟩ | ⟨hroom, q, hsplice⟩
        · simp only [hsplice, hnone, hacyclic]
          simpa using ⟨found, hmeets, ⟨hfound, hroom⟩, rfl⟩
        · simp only [hsplice, hnone, hacyclic]
          simpa using ⟨found, hmeets, fun _ => hroom⟩

/-- Two libraries that import each other, beside an implicit one that imports itself and nothing
else. -/
def ringShelf : Shelf := [
  ("Left", ⟨.ofNat 0, [importOf 1 "Right"]⟩),
  ("Right", ⟨.ofNat 0, [importOf 1 "Left"]⟩),
  ("Prelude", ⟨.ofNat 0, [importOf 1 "Prelude"]⟩)]

/-- A program that imports one of the two. -/
def ringProgram : Program := ⟨.ofNat 0, [importOf 1 "Left"]⟩

/-- The ring of the two libraries is reported; nothing is lacking in it, and the implicit library
that imports itself is no cycle. -/
theorem splice_failures_ring :
    (¬ ∃ name, ringShelf.Lacks ["Prelude", "Missing"] ringProgram name) ∧
      ∃ path, splice ringShelf ["Prelude", "Missing"] ringProgram = .error (.cycle path) := by
  have hleft : ringShelf.Needs ["Prelude", "Missing"] ringProgram "Left" :=
    .named List.mem_cons_self
  have hto : ringShelf.Imports "Left" "Right" := ⟨_, rfl, List.mem_cons_self⟩
  have hfrom : ringShelf.Imports "Right" "Left" := ⟨_, rfl, List.mem_cons_self⟩
  have hcycle : IsCycle (ringShelf.Links ["Prelude", "Missing"] ringProgram)
      ["Left", "Right", "Left"] := by
    refine ⟨?_, rfl, by decide⟩
    apply List.isChain_cons_cons.2
    refine ⟨⟨hleft, hto, by decide⟩, List.isChain_pair.2 ⟨.imported hleft hto, hfrom, by decide⟩⟩
  have hneeded : ∃ found, ringShelf.needed ["Prelude", "Missing"] ringProgram = .ok found :=
    ⟨_, rfl⟩
  obtain ⟨found, hneeded⟩ := hneeded
  have hnone : ¬ ∃ name, ringShelf.Lacks ["Prelude", "Missing"] ringProgram name := by
    rintro ⟨name, hlacks⟩
    exact (Shelf.needed_meets hneeded).not_lacks name hlacks
  obtain ⟨-, -, hcycles⟩ := splice_failures ringShelf ["Prelude", "Missing"] ringProgram
  exact ⟨hnone, (hcycles hnone).1.2 ⟨_, hcycle⟩⟩

end TreeLang
