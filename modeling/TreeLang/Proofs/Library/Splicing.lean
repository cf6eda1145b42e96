import TreeLang.Proofs.Library.Gathering
import TreeLang.Proofs.Library.Reachability
import TreeLang.Proofs.Library.Recording
import TreeLang.Proofs.Library.Sorting
import TreeLang.Proofs.Tree.Renumbering

/-!
# What splicing puts in front of a program

Splicing puts each library that a program needs in front of it, once, after the libraries that it
depends on, and with ids that the program does not have.
-/

namespace TreeLang

variable {shelf : Shelf} {implicit : List String} {program q : Program}
  {libraries : List (String × Program)} {a b name : String}

namespace Shelf

/-- An implicit library at hand, or one that such a library imports, directly or through others. -/
def IsBeneath (shelf : Shelf) (implicit : List String) (name : String) : Prop :=
  ∃ root ∈ implicit, shelf.has root ∧ Relation.ReflTransGen shelf.Imports root name

/-- The names of the libraries that a program needs, in an order in which they can be spliced. -/
structure Orders (shelf : Shelf) (implicit : List String) (program : Program)
    (order : List String) : Prop where
  nodup : order.Nodup
  mem_iff : ∀ name, name ∈ order ↔ shelf.Needs implicit program name
  /-- A library comes after every other one that it imports. -/
  imports_first : ∀ before name after, order = before ++ name :: after →
    ∀ other, shelf.Imports name other → other ≠ name → other ∈ before
  /-- A library that no implicit one depends on comes after all of these. -/
  implicit_first : ∀ before name after, order = before ++ name :: after →
    ¬ shelf.IsBeneath implicit name → ∀ other ∈ implicit, shelf.has other → other ∈ before

/-! ## The graph -/

/-- The numbers of the implicit libraries at hand. -/
def roots (shelf : Shelf) (implicit : List String) (libraries : List (String × Program)) :
    List Nat :=
  (implicit.filter shelf.has).filterMap (LibraryGraph.written libraries).resolve?

/-- The graph that the libraries of a program are sorted by. -/
def graphOf (shelf : Shelf) (implicit : List String) (libraries : List (String × Program)) :
    LibraryGraph :=
  (LibraryGraph.written libraries).withImplicit (shelf.roots implicit libraries)

namespace Meets

/-- The libraries that are found are those that are needed, as the shelf has them. -/
theorem mem_iff (h : shelf.Meets implicit program libraries) {library : Program} :
    (name, library) ∈ libraries ↔
      shelf.Needs implicit program name ∧ shelf.find name = some library := by
  constructor
  · intro hmem
    exact ⟨(h.mem_names_iff name).1 (List.mem_map_of_mem hmem), h.holds.find_eq _ hmem⟩
  · rintro ⟨hneeds, hfind⟩
    obtain ⟨entry, hentry, rfl⟩ := List.mem_map.1 ((h.mem_names_iff name).2 hneeds)
    rw [h.holds.find_eq entry hentry] at hfind
    cases hfind
    exact hentry

/-- The graph of written imports has the names that are needed. -/
theorem mem_written_names_iff (h : shelf.Meets implicit program libraries) :
    name ∈ (LibraryGraph.written libraries).names ↔ shelf.Needs implicit program name := by
  rw [(LibraryGraph.written_grows libraries).mem_names_iff]
  constructor
  · rintro (hmem | ⟨⟨importer, library⟩, hentry, rfl | himport⟩)
    · cases hmem
    · exact (h.mem_iff.1 hentry).1
    · obtain ⟨hneeds, hfind⟩ := h.mem_iff.1 hentry
      exact .imported hneeds ⟨library, hfind, himport⟩
  · intro hneeds
    obtain ⟨entry, hentry, rfl⟩ := List.mem_map.1 ((h.mem_names_iff name).2 hneeds)
    exact .inr ⟨entry, hentry, .inl rfl⟩

/-- The graph of written imports has the imports between different libraries that are needed. -/
theorem written_imports_iff (h : shelf.Meets implicit program libraries) :
    (LibraryGraph.written libraries).Imports a b ↔
      shelf.Needs implicit program a ∧ shelf.Imports a b ∧ a ≠ b := by
  rw [(LibraryGraph.written_grows libraries).imports_iff,
    or_iff_right (LibraryGraph.not_imports_empty a b)]
  constructor
  · rintro ⟨⟨importer, library⟩, hentry, rfl, himport, hne⟩
    obtain ⟨hneeds, hfind⟩ := h.mem_iff.1 hentry
    exact ⟨hneeds, ⟨library, hfind, himport⟩, hne⟩
  · rintro ⟨hneeds, ⟨library, hfind, himport⟩, hne⟩
    exact ⟨(a, library), h.mem_iff.2 ⟨hneeds, hfind⟩, rfl, himport, hne⟩

/-- The roots are the libraries of the graph that are implicit and on the shelf. -/
theorem mem_roots_iff {number : Nat} :
    number ∈ shelf.roots implicit libraries ↔
      number < (LibraryGraph.written libraries).size ∧
        (LibraryGraph.written libraries).nameOf number ∈ implicit ∧
        shelf.has ((LibraryGraph.written libraries).nameOf number) := by
  have hwritten := (LibraryGraph.written_grows libraries).wellFormed
  simp only [roots, List.mem_filterMap, List.mem_filter, hwritten.resolve?_eq_some_iff]
  constructor
  · rintro ⟨name, ⟨hname, havailable⟩, hlt, rfl⟩
    exact ⟨hlt, hname, havailable⟩
  · rintro ⟨hlt, hname, havailable⟩
    exact ⟨_, ⟨hname, havailable⟩, hlt, rfl⟩

/-- The graph adds to the written imports that each library outside of what the roots import depends
on all roots. -/
theorem grows_graphOf (shelf : Shelf) (implicit : List String)
    (libraries : List (String × Program)) :
    LibraryGraph.Grows (LibraryGraph.written libraries) (shelf.graphOf implicit libraries)
      (fun _ => False) fun a b =>
        (∃ number < (LibraryGraph.written libraries).size,
          number ∉ (LibraryGraph.written libraries).importedBy (shelf.roots implicit libraries) ∧
            (LibraryGraph.written libraries).nameOf number = a) ∧
          b ∈ (shelf.roots implicit libraries).map (LibraryGraph.written libraries).nameOf ∧
          a ≠ b :=
  (LibraryGraph.written_grows libraries).wellFormed.withImplicit fun _ hnumber =>
    (mem_roots_iff.1 hnumber).1

/-- The graph has the names that are needed, and no others. -/
theorem mem_graphOf_names_iff (h : shelf.Meets implicit program libraries) :
    name ∈ (shelf.graphOf implicit libraries).names ↔ shelf.Needs implicit program name := by
  rw [(grows_graphOf shelf implicit libraries).mem_names_iff, or_false, h.mem_written_names_iff]

/-- A written import between different libraries is one of the graph. -/
theorem graphOf_imports_of_imports (h : shelf.Meets implicit program libraries)
    (hneeds : shelf.Needs implicit program a) (himports : shelf.Imports a b) (hne : a ≠ b) :
    (shelf.graphOf implicit libraries).Imports a b :=
  ((grows_graphOf shelf implicit libraries).imports_iff a b).2
    (.inl (h.written_imports_iff.2 ⟨hneeds, himports, hne⟩))

/-- What is beneath the roots in the graph is beneath the implicit libraries. -/
theorem isBeneath_of_mem_importedBy (h : shelf.Meets implicit program libraries) {number : Nat}
    (hmem : number ∈ (LibraryGraph.written libraries).importedBy
      (shelf.roots implicit libraries)) :
    shelf.IsBeneath implicit ((LibraryGraph.written libraries).nameOf number) := by
  obtain ⟨root, hroot, hreach⟩ := LibraryGraph.importedBy_sound hmem
  obtain ⟨-, hname, havailable⟩ := mem_roots_iff.1 hroot
  exact ⟨_, hname, havailable, Relation.ReflTransGen.mono
    (fun _ _ himports => (h.written_imports_iff.1 himports).2.1) _ _ hreach⟩

/-- A library that is not beneath the implicit ones depends on each of these in the graph. -/
theorem graphOf_imports_of_implicit (h : shelf.Meets implicit program libraries)
    (hneeds : shelf.Needs implicit program a) (hbeneath : ¬ shelf.IsBeneath implicit a)
    (hb : b ∈ implicit) (havailable : shelf.has b) :
    (shelf.graphOf implicit libraries).Imports a b := by
  refine ((grows_graphOf shelf implicit libraries).imports_iff a b).2 (.inr ⟨?_, ?_, ?_⟩)
  · obtain ⟨number, hlt, rfl⟩ := LibraryGraph.exists_of_mem_names (h.mem_written_names_iff.2 hneeds)
    exact ⟨number, hlt, fun hmem => hbeneath (h.isBeneath_of_mem_importedBy hmem), rfl⟩
  · obtain ⟨number, hlt, rfl⟩ := LibraryGraph.exists_of_mem_names
      (h.mem_written_names_iff.2 (.implicit hb havailable))
    exact List.mem_map_of_mem (mem_roots_iff.2 ⟨hlt, hb, havailable⟩)
  · rintro rfl
    exact hbeneath ⟨a, hb, havailable, .refl⟩

/-- The sorted graph gives the order. -/
theorem orders (h : shelf.Meets implicit program libraries) {order : List Nat}
    (hsorted : (shelf.graphOf implicit libraries).sorted = .ok order) :
    shelf.Orders implicit program (order.map (shelf.graphOf implicit libraries).nameOf) := by
  have hgraph := (grows_graphOf shelf implicit libraries).wellFormed
  obtain ⟨hfirst, hmem⟩ := hgraph.sorted_importsFirst hsorted
  -- the order holds the numbers of all that is needed, each of them once
  have hneeds : ∀ name, name ∈ order.map (shelf.graphOf implicit libraries).nameOf ↔
      shelf.Needs implicit program name := by
    intro name
    rw [← h.mem_graphOf_names_iff]
    constructor
    · intro hname
      obtain ⟨number, hnumber, rfl⟩ := List.mem_map.1 hname
      exact LibraryGraph.nameOf_mem_names ((hmem number).1 hnumber)
    · intro hname
      obtain ⟨number, hlt, rfl⟩ := LibraryGraph.exists_of_mem_names hname
      exact List.mem_map_of_mem ((hmem number).2 hlt)
  have hneeds_of_eq : ∀ before name after,
      order.map (shelf.graphOf implicit libraries).nameOf = before ++ name :: after →
        shelf.Needs implicit program name := by
    intro before name after horder
    rw [← hneeds, horder]
    exact List.mem_append_right _ List.mem_cons_self
  -- dependencies come first, be they written imports or the implicit ones
  refine ⟨?_, hneeds, fun before name after horder other himports hne => ?_,
    fun before name after horder hbeneath other hother havailable => ?_⟩
  · exact hfirst.nodup.map_on fun a ha b hb =>
      hgraph.nameOf_inj ((hmem a).1 ha) ((hmem b).1 hb)
  · exact hfirst.name_mem_of_eq_append hgraph horder (h.graphOf_imports_of_imports
      (hneeds_of_eq before name after horder) himports (Ne.symm hne))
  · exact hfirst.name_mem_of_eq_append hgraph horder (h.graphOf_imports_of_implicit
      (hneeds_of_eq before name after horder) hbeneath hother havailable)

end Meets

end Shelf

/-! ## Copies -/

/-- The statements that are put in front are those of the libraries with fresh ids. -/
theorem spliceBlocks_eq (programs : List Program) (ids : IdSupply) :
    spliceBlocks programs ids =
      (renumberList Program.reidentify programs ids).1.flatMap Program.block := by
  induction programs generalizing ids with
  | nil => rfl
  | cons first rest ih =>
    rw [renumberList_cons, List.flatMap_cons, ← ih]
    rfl

/-- The copies of some libraries with fresh ids keep their shapes. -/
theorem forall₂_reidentify {order : List String} {libraries : List Program}
    (h : List.Forall₂ (fun name library => shelf.find name = some library) order libraries)
    (ids : IdSupply) :
    List.Forall₂ (fun name copy => ∃ library, shelf.find name = some library ∧
      copy.shape = library.shape) order (renumberList Program.reidentify libraries ids).1 := by
  induction h generalizing ids with
  | nil => exact .nil
  | @cons name library order libraries hfind _ ih =>
    exact .cons ⟨library, hfind, library.shape_renumber IdSupply.assign ids⟩ (ih _)

/-- Copies of some libraries in front of a program. Their ids are from a supply that continues after
the ids of the program, and `rest` is what is left of it. -/
structure SplicedWith (program q : Program) (libraries : List Program) (ids : IdSupply)
    (copies : List Program) (rest : IdSupply) : Prop where
  copies_eq : renumberList Program.reidentify libraries ids = (copies, rest)
  id_eq : q.id = program.id
  block_eq : q.block = copies.flatMap Program.block ++ program.block
  enough : (libraries.flatMap Program.nodes).length ≤ ids.remaining
  after : libraries ≠ [] → IdSupply.after? (some program.maxId) = some ids

/-- The nodes of some libraries are counted one library after the other. -/
theorem foldr_nodeCount (libraries : List (String × Program)) :
    libraries.foldr (fun entry count => entry.2.nodeCount + count) 0 =
      ((libraries.map Prod.snd).flatMap Program.nodes).length := by
  induction libraries with
  | nil => rfl
  | cons entry rest ih =>
    rw [List.foldr_cons, ih, List.map_cons, List.flatMap_cons, List.length_append]
    rfl

/-- A successful splice either has nothing to put in front, or has sorted what it found and has ids
for all of it. -/
theorem splice_eq_ok (h : splice shelf implicit program = .ok q) :
    ∃ found, shelf.needed implicit program = .ok found ∧
      (found = [] ∧ q = program ∨ ∃ order ids,
        (shelf.graphOf implicit found).sorted = .ok order ∧
          IdSupply.after? (some program.maxId) = some ids ∧
          ((found.map Prod.snd).flatMap Program.nodes).length ≤ ids.remaining ∧
          q = { program with
            block := spliceBlocks (order.filterMap fun number =>
              Table.find ((shelf.graphOf implicit found).nameOf number) found) ids ++
                program.block }) := by
  rw [splice] at h
  cases hneeded : shelf.needed implicit program with
  | error e =>
    rw [hneeded] at h
    cases h
  | ok found =>
    rw [hneeded] at h
    refine ⟨found, rfl, ?_⟩
    simp only [bind, Except.bind] at h
    -- past a name that is lacking, one guard after the other: nothing found, a cycle, too few ids
    split at h
    · next hempty =>
      cases h
      exact .inl ⟨List.isEmpty_iff.1 hempty, rfl⟩
    split at h
    · cases h
    next order hsorted =>
    split at h
    · cases h
    next ids hids =>
    split at h
    · cases h
    next henough =>
    cases h
    refine .inr ⟨order, ids, hsorted, hids, ?_, rfl⟩
    rw [← foldr_nodeCount]
    exact Nat.le_of_not_lt henough

/-- Looking up a list in which nothing is missing gives one result for each item. -/
theorem forall₂_filterMap {α β : Type} {R : α → β → Prop} {f : α → Option β} {list : List α}
    (h : ∀ a ∈ list, ∃ b, f a = some b ∧ R a b) : List.Forall₂ R list (list.filterMap f) := by
  induction list with
  | nil => exact .nil
  | cons a rest ih =>
    obtain ⟨⟨b, hb, hR⟩, hrest⟩ := List.forall_mem_cons.1 h
    rw [List.filterMap_cons_some hb]
    exact .cons hR (ih hrest)

/-- What is found under the keys of a table that holds no key twice. -/
theorem Table.filterMap_find_keys {α : Type} {table : Table String α}
    (distinct : (table.map Prod.fst).Nodup) :
    (table.map Prod.fst).filterMap (fun key => table.find key) = table.map Prod.snd := by
  rw [List.filterMap_map, ← List.filterMap_eq_map]
  exact List.filterMap_congr fun entry hentry => Table.find_eq_some_of_mem distinct hentry

/-- A successful splice puts the libraries that the program needs in front of it, in an order in
which they can be spliced. -/
theorem splice_orders (h : splice shelf implicit program = .ok q) :
    ∃ order libraries ids copies rest, shelf.Orders implicit program order ∧
      List.Forall₂ (fun name library => shelf.find name = some library) order libraries ∧
      SplicedWith program q libraries ids copies rest := by
  obtain ⟨found, hneeded, ⟨rfl, rfl⟩ | ⟨numbers, ids, hsorted, hids, henough, rfl⟩⟩ :=
    splice_eq_ok h
  · have hmeets := Shelf.needed_meets hneeded
    refine ⟨[], [], .start, [], .start, ⟨List.nodup_nil, hmeets.mem_names_iff, ?_, ?_⟩, .nil,
      ⟨rfl, rfl, rfl, Nat.zero_le _, fun hne => absurd rfl hne⟩⟩
    · intro before name after horder
      cases before <;> cases horder
    · intro before name after horder
      cases before <;> cases horder
  · have hmeets := Shelf.needed_meets hneeded
    have horders := hmeets.orders hsorted
    set order := numbers.map (shelf.graphOf implicit found).nameOf
    set libraries := order.filterMap fun name => Table.find name found
    have hlibraries : libraries = numbers.filterMap fun number =>
        Table.find ((shelf.graphOf implicit found).nameOf number) found := List.filterMap_map
    -- ids were counted for the libraries as they were found, and are given out in their order
    have hperm : List.Perm libraries (found.map Prod.snd) := by
      rw [← Table.filterMap_find_keys hmeets.holds.nodup]
      refine List.Perm.filterMap _ ((List.perm_ext_iff_of_nodup horders.nodup
        hmeets.holds.nodup).2 fun name => ?_)
      rw [horders.mem_iff, hmeets.mem_names_iff]
    refine ⟨order, libraries, ids, _, _, horders, forall₂_filterMap fun name hname => ?_,
      ⟨rfl, rfl, ?_, ?_, fun _ => hids⟩⟩
    · obtain ⟨entry, hentry, rfl⟩ :=
        List.mem_map.1 ((hmeets.mem_names_iff name).2 ((horders.mem_iff name).1 hname))
      exact ⟨entry.2, Table.find_eq_some_of_mem hmeets.holds.nodup hentry,
        hmeets.holds.find_eq entry hentry⟩
    · rw [hlibraries, spliceBlocks_eq]
    · rwa [(hperm.flatMap_right Program.nodes).length_eq]

/-- What a successful splice gives: the block of each library that the program needs, once and after
what the library depends on, with its ids changed and nothing else, and then the block of the
program as it was. A program that needs no library stays as it is. -/
theorem splice_correct (h : splice shelf implicit program = .ok q) :
    ((∀ name, ¬ shelf.Needs implicit program name) → q = program) ∧
      ∃ order copies, shelf.Orders implicit program order ∧
        List.Forall₂ (fun name copy => ∃ library, shelf.find name = some library ∧
          copy.shape = library.shape) order copies ∧
        q.id = program.id ∧ q.block = copies.flatMap Program.block ++ program.block := by
  obtain ⟨order, libraries, ids, copies, rest, horders, hfind, hspliced⟩ := splice_orders h
  have hcopies := forall₂_reidentify hfind ids
  rw [hspliced.copies_eq] at hcopies
  refine ⟨fun hnone => ?_, order, copies, horders, hcopies, hspliced.id_eq, hspliced.block_eq⟩
  have horder : order = [] :=
    List.eq_nil_iff_forall_not_mem.2 fun name hname => hnone name ((horders.mem_iff name).1 hname)
  subst horder
  cases hcopies
  exact congrArg₂ Program.mk hspliced.id_eq hspliced.block_eq

/-- An import of a library, with the ids from `id` on. -/
def importOf (id : Nat) (name : String) : Statement :=
  .declaration (.ofNat id) (.library (.ofNat (id + 1)) ⟨.ofNat (id + 2), name⟩)

/-- A diamond of libraries, one of which imports itself, beside an implicit library with an import
of its own. They share their ids, and some ids stand twice in one library. -/
def diamondShelf : Shelf := [
  ("Top", ⟨.ofNat 0, [importOf 1 "Left", importOf 4 "Right"]⟩),
  ("Left", ⟨.ofNat 0, [importOf 1 "Base"]⟩),
  ("Right", ⟨.ofNat 0, [importOf 1 "Base", importOf 1 "Right"]⟩),
  ("Base", ⟨.ofNat 0, [.placeholder (.ofNat 1)]⟩),
  ("Prelude", ⟨.ofNat 0, [importOf 1 "Core"]⟩),
  ("Core", ⟨.ofNat 0, [.placeholder (.ofNat 1)]⟩)]

/-- A program that imports the diamond, with ids of its libraries. -/
def diamondProgram : Program := ⟨.ofNat 0, [importOf 1 "Top"]⟩

/-- The graph that the diamond is sorted by. -/
def diamondGraph : LibraryGraph where
  libraries := [⟨"Top", [1, 2, 3]⟩, ⟨"Left", [5, 3]⟩, ⟨"Right", [5, 3]⟩, ⟨"Prelude", [4]⟩,
    ⟨"Core", []⟩, ⟨"Base", [3]⟩]

/-- The order of the libraries of the diamond. -/
theorem sorted_diamondGraph : diamondGraph.sorted = .ok [4, 3, 5, 1, 2, 0] := by
  have hsize : diamondGraph.size = 6 := rfl
  have hall : diamondGraph.byName (List.range 6) = [5, 4, 1, 3, 2, 0] := by
    simp [LibraryGraph.byName, List.mergeSort, LibraryGraph.nameOf, diamondGraph, List.range_succ]
  have htop : diamondGraph.byName [1, 2, 3] = [1, 3, 2] := by
    simp [LibraryGraph.byName, List.mergeSort, LibraryGraph.nameOf, diamondGraph]
  have hbase : diamondGraph.byName [5, 3] = [5, 3] := by
    simp [LibraryGraph.byName, List.mergeSort, LibraryGraph.nameOf, diamondGraph]
  have hone : ∀ number, diamondGraph.byName [number] = [number] := fun number =>
    List.mergeSort_singleton number
  have hnone : diamondGraph.byName [] = [] := List.mergeSort_nil
  have himports : diamondGraph.importsOf 0 = [1, 2, 3] ∧ diamondGraph.importsOf 1 = [5, 3] ∧
      diamondGraph.importsOf 2 = [5, 3] ∧ diamondGraph.importsOf 3 = [4] ∧
      diamondGraph.importsOf 4 = [] ∧ diamondGraph.importsOf 5 = [3] :=
    ⟨rfl, rfl, rfl, rfl, rfl, rfl⟩
  simp [LibraryGraph.sorted, LibraryGraph.visit, hsize, hall, htop, hbase, hone, hnone, himports,
    bind, Except.bind, pure, Except.pure]

/-- The libraries of the diamond, in the order in which they are found. -/
def diamondLibraries : List (String × Program) :=
  ["Top", "Prelude", "Left", "Right", "Core", "Base"].filterMap fun name =>
    (diamondShelf.find name).map (name, ·)

/-- What splicing the diamond gives, without the identifiers of the copies worked out. -/
theorem splice_diamond : splice diamondShelf ["Prelude", "Missing"] diamondProgram =
    .ok ⟨.ofNat 0, spliceBlocks (["Core", "Prelude", "Base", "Left", "Right", "Top"].filterMap
      fun name => diamondShelf.find name) ⟨.ofNat 4⟩ ++ diamondProgram.block⟩ := by
  have hneeded : diamondShelf.needed ["Prelude", "Missing"] diamondProgram =
      .ok diamondLibraries := rfl
  have hgraph : (LibraryGraph.written diamondLibraries).withImplicit
      ((["Prelude", "Missing"].filter diamondShelf.has).filterMap
        (LibraryGraph.written diamondLibraries).resolve?) = diamondGraph := rfl
  rw [splice, hneeded]
  simp only [bind, Except.bind]
  rw [hgraph, sorted_diamondGraph]
  rfl

/-- The libraries of the diamond are put in front of the program after what they import and after
the implicit library, which comes after its own import. -/
theorem splice_correct_diamond :
    ∃ q, splice diamondShelf ["Prelude", "Missing"] diamondProgram = .ok q ∧
      q.imports = ["Core", "Base", "Base", "Right", "Left", "Right", "Top"] ∧
      ∃ order copies, diamondShelf.Orders ["Prelude", "Missing"] diamondProgram order ∧
        List.Forall₂ (fun name copy => ∃ library, diamondShelf.find name = some library ∧
          copy.shape = library.shape) order copies ∧
        q.id = diamondProgram.id ∧
        q.block = copies.flatMap Program.block ++ diamondProgram.block :=
  ⟨_, splice_diamond, rfl, (splice_correct splice_diamond).2⟩

end TreeLang
