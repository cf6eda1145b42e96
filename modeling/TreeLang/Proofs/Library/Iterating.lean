import TreeLang.Proofs.Library.Failures
import TreeLang.Proofs.Library.Ordering
import TreeLang.Proofs.Scope.Noting
import TreeLang.Proofs.Scope.Visible

/-!
# Splicing in any order

Splicing may go through its tables in any order, and the implicit libraries may be listed in any
order. Libraries are found in another order then, and have other numbers in the graph, but the graph
holds the same names and records the same imports, and so what is spliced is the same.
-/

namespace TreeLang

namespace LibraryGraph

variable {graph graph' : LibraryGraph} {importer number : Nat} {roots roots' : List Nat}
  {name : String}

/-! ## Graphs of libraries are built call by call -/

/-- Steps that are calls keep a graph built, one after the other. -/
theorem Built.foldl {α : Type} {step : LibraryGraph → α → LibraryGraph} (h : graph.Built)
    {list : List α}
    (hstep : ∀ a ∈ list, ∀ later : LibraryGraph, later.Built → graph.names <+: later.names →
      (step later a).Built ∧ later.names <+: (step later a).names) :
    (list.foldl step graph).Built := by
  induction list generalizing graph with
  | nil => exact h
  | cons a rest ih =>
    obtain ⟨hbuilt, hgrow⟩ := hstep a List.mem_cons_self graph h (List.prefix_refl _)
    exact ih hbuilt fun b hb later hlater hprefix =>
      hstep b (List.mem_cons_of_mem _ hb) later hlater (hgrow.trans hprefix)

/-- Recording a library is adding it and depending on its imports, so the graph stays one that is
built by calls. -/
theorem Built.recordLibrary (h : graph.Built) (entry : String × Program) :
    (graph.recordLibrary entry).Built := by
  obtain ⟨-, himporter, -⟩ := h.wellFormed.add entry.1
  refine (h.add entry.1).foldl fun name _ later hlater hprefix => ?_
  have hlt : (graph.add entry.1).1 < later.size :=
    Nat.lt_of_lt_of_le himporter (size_le_of_names_grow hprefix)
  obtain ⟨hadd, himported, -⟩ := hlater.wellFormed.add name
  have hlt' := Nat.lt_of_lt_of_le hlt (size_le_of_names_grow hadd.names_prefix)
  exact ⟨(hlater.add name).depend hlt' himported,
    Grows.names_prefix (hlater.wellFormed.recordImport hlt name)⟩

/-- Recording libraries one after the other builds a graph by calls. -/
theorem Built.recordAll (h : graph.Built) (libraries : List (String × Program)) :
    (libraries.foldl LibraryGraph.recordLibrary graph).Built :=
  h.foldl fun entry _ _ hlater _ =>
    ⟨hlater.recordLibrary entry, Grows.names_prefix (hlater.wellFormed.recordLibrary entry)⟩

/-- An importer of the graph may depend on any libraries of the graph. -/
theorem Built.dependAll (h : graph.Built) (himporter : importer < graph.size)
    (hroots : ∀ root ∈ roots, root < graph.size) :
    (roots.foldl (fun graph root => graph.depend importer root) graph).Built :=
  h.foldl fun root hroot later hlater hprefix => by
    have hsize := size_le_of_names_grow hprefix
    have hlt := Nat.lt_of_lt_of_le himporter hsize
    have hlt' := Nat.lt_of_lt_of_le (hroots root hroot) hsize
    exact ⟨hlater.depend hlt hlt', Grows.names_prefix (hlater.wellFormed.depend hlt hlt')⟩

/-- Making all other libraries depend on some roots is done by calls as well. -/
theorem Built.withImplicit (h : graph.Built) (hroots : ∀ root ∈ roots, root < graph.size) :
    (graph.withImplicit roots).Built := by
  refine h.foldl fun importer himporter later hlater hprefix => ?_
  have hsize := size_le_of_names_grow hprefix
  have hlt : importer < later.size :=
    Nat.lt_of_lt_of_le (List.mem_range.1 (List.mem_filter.1 himporter).1) hsize
  have hroots' : ∀ root ∈ roots, root < later.size := fun root hroot =>
    Nat.lt_of_lt_of_le (hroots root hroot) hsize
  exact ⟨hlater.dependAll hlt hroots',
    Grows.names_prefix (hlater.wellFormed.dependAll hlt hroots')⟩

/-! ## Implicit imports by name -/

/-- What is reached from a root by names is found from the root by numbers. -/
theorem WellFormed.mem_importedBy_iff (h : graph.WellFormed)
    (hroots : ∀ root ∈ roots, root < graph.size) (hlt : number < graph.size) :
    number ∈ graph.importedBy roots ↔ ∃ root ∈ roots.map graph.nameOf,
      Relation.ReflTransGen graph.Imports root (graph.nameOf number) := by
  constructor
  · intro hmem
    obtain ⟨root, hroot, hreach⟩ := importedBy_sound hmem
    exact ⟨graph.nameOf root, List.mem_map_of_mem hroot, hreach⟩
  · rintro ⟨_, hname, hreach⟩
    obtain ⟨root, hroot, rfl⟩ := List.mem_map.1 hname
    generalize hname : graph.nameOf number = name at hreach
    induction hreach generalizing number with
    | refl =>
      rw [h.nameOf_inj hlt (hroots root hroot) hname]
      exact subset_importedBy graph roots hroot
    | tail _ himports ih =>
      obtain ⟨importer, imported, hmem, rfl, rfl⟩ := himports
      rw [h.nameOf_inj hlt (h.lt_of_mem_importsOf importer imported hmem) hname]
      exact mem_importedBy_of_mem_importsOf (ih (lt_size_of_mem_importsOf hmem) rfl) hmem

/-- The libraries outside of the roots and of their imports, by name. -/
theorem WellFormed.exists_outside_iff (h : graph.WellFormed)
    (hroots : ∀ root ∈ roots, root < graph.size) :
    (∃ number < graph.size, number ∉ graph.importedBy roots ∧ graph.nameOf number = name) ↔
      name ∈ graph.names ∧ ¬ ∃ root ∈ roots.map graph.nameOf,
        Relation.ReflTransGen graph.Imports root name := by
  constructor
  · rintro ⟨number, hlt, hout, rfl⟩
    exact ⟨nameOf_mem_names hlt, mt (h.mem_importedBy_iff hroots hlt).2 hout⟩
  · rintro ⟨hname, hout⟩
    obtain ⟨number, hlt, rfl⟩ := exists_of_mem_names hname
    exact ⟨number, hlt, mt (h.mem_importedBy_iff hroots hlt).1 hout, rfl⟩

/-- Implicit imports of libraries of the same names, in graphs that agree. -/
theorem Agrees.withImplicit (h : graph.Agrees graph') (hgraph : graph.WellFormed)
    (hgraph' : graph'.WellFormed) (hroots : ∀ root ∈ roots, root < graph.size)
    (hroots' : ∀ root ∈ roots', root < graph'.size)
    (hnames : ∀ name, name ∈ roots.map graph.nameOf ↔ name ∈ roots'.map graph'.nameOf) :
    (graph.withImplicit roots).Agrees (graph'.withImplicit roots') := by
  have hgrows := hgraph.withImplicit hroots
  have hgrows' := hgraph'.withImplicit hroots'
  have himports : graph.Imports = graph'.Imports := by
    funext a b
    exact propext (h.imports_iff a b)
  refine ⟨fun name => ?_, fun a b => ?_⟩
  · rw [hgrows.mem_names_iff, hgrows'.mem_names_iff, h.mem_names_iff]
  · rw [hgrows.imports_iff, hgrows'.imports_iff, hgraph.exists_outside_iff hroots,
      hgraph'.exists_outside_iff hroots', himports, h.mem_names_iff, hnames]
    simp only [hnames]

/-- Libraries that are recorded in a graph of some of their names, instead of an empty one. -/
theorem Built.recordAll_agrees_written (h : graph.Built) {libraries : List (String × Program)}
    (hnames : ∀ name ∈ graph.names, name ∈ (written libraries).names)
    (himports : ∀ a b, ¬ graph.Imports a b) :
    (libraries.foldl LibraryGraph.recordLibrary graph).Agrees (written libraries) := by
  have hgrows := h.wellFormed.foldl fun entry (_ : entry ∈ libraries) _ hlater _ =>
    hlater.recordLibrary entry
  have hwritten := written_grows libraries
  refine ⟨fun name => ?_, fun a b => ?_⟩
  · rw [hgrows.mem_names_iff]
    refine ⟨?_, fun hname => .inr (((hwritten.mem_names_iff name).1 hname).resolve_left nofun)⟩
    rintro (hname | hnew)
    · exact hnames name hname
    · exact (hwritten.mem_names_iff name).2 (.inr hnew)
  · rw [hgrows.imports_iff, hwritten.imports_iff, or_iff_right (himports a b),
      or_iff_right (not_imports_empty a b)]

/-! ## Names added one after the other -/

/-- Adds names to a graph, and gives their numbers. -/
def addAll : List String → LibraryGraph → List Nat × LibraryGraph
  | [], graph => ([], graph)
  | name :: rest, graph =>
    let (number, graph) := graph.add name
    let (numbers, graph) := addAll rest graph
    (number :: numbers, graph)

/-- Adding several names builds a graph by calls, in which exactly these names are new, and gives
the numbers of the libraries in the order of the names. -/
theorem Built.addAll (h : graph.Built) (names : List String) :
    (addAll names graph).2.Built ∧
      Grows graph (LibraryGraph.addAll names graph).2 (· ∈ names) (fun _ _ => False) ∧
      (∀ number ∈ (LibraryGraph.addAll names graph).1,
        number < (LibraryGraph.addAll names graph).2.size) ∧
      (LibraryGraph.addAll names graph).1.map (LibraryGraph.addAll names graph).2.nameOf =
        names := by
  induction names generalizing graph with
  | nil => exact ⟨h, (Grows.refl h.wellFormed).congr (by simp) (by simp), nofun, rfl⟩
  | cons first rest ih =>
    obtain ⟨hadd, hlt, hname⟩ := h.wellFormed.add first
    obtain ⟨hbuilt, hgrows, hsizes, hnames⟩ := ih (h.add first)
    have hprefix := hgrows.names_prefix
    rw [LibraryGraph.addAll]
    refine ⟨hbuilt, (hadd.trans hgrows).congr (by simp) (by simp), ?_, ?_⟩
    · exact List.forall_mem_cons.2
        ⟨Nat.lt_of_lt_of_le hlt (size_le_of_names_grow hprefix), hsizes⟩
    · rw [List.map_cons, hnames, nameOf_eq_of_names_grow hprefix hlt, hname]

end LibraryGraph

/-! ## Tables of libraries -/

/-- In any order, a table without repeated keys holds the same values. -/
theorem Table.find_eq_of_perm {α : Type} {table table' : Table String α}
    (h : table.Perm table') (distinct : table.Distinct) (key : String) :
    table.find key = table'.find key := by
  have distinct' : table'.Distinct := (h.map Prod.fst).nodup_iff.1 distinct
  refine Option.ext fun value => ?_
  rw [← Table.mem_iff_find distinct, ← Table.mem_iff_find distinct', h.mem_iff]

namespace Shelf

variable {shelf : Shelf} {implicit implicit' : List String} {program : Program}
  {libraries libraries' : List (String × Program)}

/-- Libraries of a shelf are known by their names. -/
theorem Holds.perm (h : shelf.Holds libraries) (h' : shelf.Holds libraries')
    (hnames : ∀ name, name ∈ libraries.map Prod.fst ↔ name ∈ libraries'.map Prod.fst) :
    libraries.Perm libraries' := by
  have hmem {libraries : List (String × Program)} (h : shelf.Holds libraries)
      (entry : String × Program) :
      entry ∈ libraries ↔ entry.1 ∈ libraries.map Prod.fst ∧ shelf.find entry.1 = some entry.2 := by
    refine ⟨fun hentry => ⟨List.mem_map_of_mem hentry, h.find_eq entry hentry⟩, ?_⟩
    rintro ⟨hname, hfind⟩
    obtain ⟨other, hother, heq⟩ := List.mem_map.1 hname
    rw [← heq, h.find_eq other hother] at hfind
    rwa [← Prod.ext heq (Option.some.inj hfind)]
  refine (List.perm_ext_iff_of_nodup h.nodup.of_map h'.nodup.of_map).2 fun entry => ?_
  rw [hmem h, hmem h', hnames]

/-- Putting a library of the shelf under its name leaves a table of libraries of the shelf. -/
theorem Holds.put (h : shelf.Holds libraries) {name : String} {library : Program}
    (hfind : shelf.find name = some library) : shelf.Holds (Table.put name library libraries) where
  nodup := Table.Distinct.put h.nodup name library
  find_eq := fun entry hentry => by
    have hput := (Table.mem_iff_find (Table.Distinct.put h.nodup name library)).1 hentry
    rw [Table.find_put] at hput
    split at hput
    · next hname => rw [hname, hfind, hput]
    · exact h.find_eq entry (Table.mem_of_find hput)

/-- Libraries of a shelf that are put into a table of such libraries. -/
theorem Holds.putAll (h : shelf.Holds libraries)
    (hfind : ∀ entry ∈ libraries', shelf.find entry.1 = some entry.2) :
    shelf.Holds (Table.putAll libraries libraries') ∧
      ∀ name, name ∈ (Table.putAll libraries libraries').map Prod.fst ↔
        name ∈ libraries.map Prod.fst ∨ name ∈ libraries'.map Prod.fst := by
  induction libraries' generalizing libraries with
  | nil => exact ⟨h, fun name => (or_iff_left List.not_mem_nil).symm⟩
  | cons entry rest ih =>
    obtain ⟨hentry, hrest⟩ := List.forall_mem_cons.1 hfind
    obtain ⟨hholds, hnames⟩ := ih (h.put hentry) hrest
    refine ⟨hholds, fun name => (hnames name).trans ?_⟩
    rw [Table.keys_put, List.map_cons, List.mem_cons]
    split
    · next hknown => grind
    · rw [List.mem_append, List.mem_singleton, or_assoc]

/-- What a program needs depends on which of the implicit libraries are at hand. -/
theorem Needs.congr (h : ∀ name, shelf.has name → name ∈ implicit → name ∈ implicit')
    {name : String} (hneeds : shelf.Needs implicit program name) :
    shelf.Needs implicit' program name := by
  induction hneeds with
  | named hname => exact .named hname
  | implicit hname available => exact .implicit (h _ available hname) available
  | imported _ himports ih => exact .imported ih himports

end Shelf

/-! ## Splicing in an order of iteration -/

/-- Puts libraries that are sorted by a graph in front of a program; `needed` is the number of their
nodes. -/
def assemble (libraries : Shelf) (graph : LibraryGraph) (needed : Nat) (program : Program) :
    Except SpliceError Program :=
  if libraries.isEmpty then .ok program
  else
    match graph.sorted with
    | .error path => .error (.cycle path)
    | .ok order =>
      match IdSupply.after? (some program.maxId) with
      | none => .error (.idsExhausted needed)
      | some ids =>
        if ids.remaining < needed then .error (.idsExhausted needed)
        else
          .ok { program with
            block := spliceBlocks
              (order.filterMap fun number => Table.find (graph.nameOf number) libraries) ids ++
                program.block }

/-- A splice finds the libraries that are needed, and assembles them with the graph and the number
of nodes that are computed from them. -/
theorem splice_eq_assemble (shelf : Shelf) (implicit : List String) (program : Program) :
    splice shelf implicit program =
      (shelf.needed implicit program).bind fun libraries =>
        assemble libraries (shelf.graphOf implicit libraries)
          (libraries.foldr (fun entry count => entry.2.nodeCount + count) 0) program := by
  rw [splice]
  cases shelf.needed implicit program with
  | error error => rfl
  | ok libraries => rfl

/-- What is assembled depends on the libraries, in any order, and on the names in the order of the
graph. -/
theorem assemble_congr {libraries libraries' : Shelf} {graph graph' : LibraryGraph} {needed : Nat}
    {program : Program} (hperm : libraries.Perm libraries') (distinct : libraries.Distinct)
    (hsorted : graph.sortedNames = graph'.sortedNames) :
    assemble libraries graph needed program = assemble libraries' graph' needed program := by
  -- the order matters for the names alone, and what is found for a name is the same in both
  have hfound (graph : LibraryGraph) (libraries : Shelf) (order : List Nat) :
      (order.filterMap fun number => Table.find (graph.nameOf number) libraries) =
        (order.map graph.nameOf).filterMap fun name => Table.find name libraries := by
    rw [List.filterMap_map]
    rfl
  have hfind : (fun name => Table.find name libraries) = fun name => Table.find name libraries' :=
    funext (Table.find_eq_of_perm hperm distinct)
  rw [assemble, assemble, hperm.isEmpty_eq]
  simp only [hfound, hfind]
  rw [LibraryGraph.sortedNames, LibraryGraph.sortedNames] at hsorted
  -- sorting gives two orders with the same names, or the same cycle
  cases horder : graph.sorted with
  | error path =>
    cases horder' : graph'.sorted with
    | error path' =>
      rw [horder, horder'] at hsorted
      cases hsorted
      rfl
    | ok order' =>
      rw [horder, horder'] at hsorted
      cases hsorted
  | ok order =>
    cases horder' : graph'.sorted with
    | error path' =>
      rw [horder, horder'] at hsorted
      cases hsorted
    | ok order' =>
      rw [horder, horder'] at hsorted
      simp only [Except.ok.inj hsorted]

/-- The implicit libraries at hand, as they are listed. -/
def Shelf.available (shelf : Shelf) (implicit : List String) : List (String × Program) :=
  implicit.filterMap fun name => (shelf.find name).map fun library => (name, library)

/-- Splicing with tables that are gone through in the order that `iterate` gives. The implicit
libraries are loaded first and get the first numbers. -/
def spliceIterating (iterate : Shelf → Shelf) (shelf : Shelf) (implicit : List String)
    (program : Program) : Except SpliceError Program := do
  let available := shelf.available implicit
  let (roots, graph) := LibraryGraph.empty.addAll (available.map Prod.fst)
  let loaded := Table.putAll [] available
  let libraries ← shelf.needed ((iterate loaded).map Prod.fst) program
  let graph := libraries.foldl LibraryGraph.recordLibrary graph
  let loaded := Table.putAll loaded libraries
  let needed := (iterate loaded).foldr (fun entry count => entry.2.nodeCount + count) 0
  assemble loaded (graph.withImplicit roots) needed program

namespace Shelf

variable {shelf : Shelf} {implicit implicit' : List String} {program : Program}
  {libraries libraries' : List (String × Program)} {name : String}

/-- A library that is available implicitly is the one that the shelf has under its name. -/
theorem find_of_mem_available {entry : String × Program} (h : entry ∈ shelf.available implicit) :
    shelf.find entry.1 = some entry.2 := by
  obtain ⟨name, -, hentry⟩ := List.mem_filterMap.1 h
  obtain ⟨library, hfind, rfl⟩ := Option.map_eq_some_iff.1 hentry
  exact hfind

/-- Available are the implicit libraries that the shelf has. -/
theorem mem_map_available_iff :
    name ∈ (shelf.available implicit).map Prod.fst ↔ name ∈ implicit ∧ shelf.has name := by
  simp only [available, List.mem_map, List.mem_filterMap, Option.map_eq_some_iff, Table.has,
    Option.isSome_iff_exists]
  constructor
  · rintro ⟨_, ⟨other, hother, library, hfind, rfl⟩, rfl⟩
    exact ⟨hother, library, hfind⟩
  · rintro ⟨hname, library, hfind⟩
    exact ⟨(name, library), ⟨name, hname, library, hfind, rfl⟩, rfl⟩

/-- The names of the table of implicit libraries, in any order. -/
theorem mem_keys_iff {iterate : Shelf → Shelf} (hiterate : ∀ table, (iterate table).Perm table) :
    name ∈ (iterate (Table.putAll [] (shelf.available implicit))).map Prod.fst ↔
      name ∈ implicit ∧ shelf.has name := by
  have hempty : shelf.Holds [] := ⟨List.nodup_nil, nofun⟩
  obtain ⟨-, hnames⟩ := hempty.putAll fun entry (hentry : entry ∈ shelf.available implicit) =>
    find_of_mem_available hentry
  rw [((hiterate _).map Prod.fst).mem_iff, hnames, mem_map_available_iff]
  exact or_iff_right List.not_mem_nil

/-- What a search finds meets what is needed with other implicit libraries, when the same ones of
them are at hand. -/
theorem Meets.congr (h : shelf.Meets implicit program libraries)
    (hsame : ∀ name, shelf.has name → (name ∈ implicit ↔ name ∈ implicit')) :
    shelf.Meets implicit' program libraries where
  holds := h.holds
  mem_names_iff name := by
    rw [h.mem_names_iff]
    exact ⟨.congr fun name available => (hsame name available).1,
      .congr fun name available => (hsame name available).2⟩

/-- What a program needs is found in some order. -/
theorem Meets.perm (h : shelf.Meets implicit program libraries)
    (h' : shelf.Meets implicit program libraries') : libraries.Perm libraries' :=
  h.holds.perm h'.holds fun name => by rw [h.mem_names_iff, h'.mem_names_iff]

/-- Two tables of the libraries that a program needs give graphs that agree, whatever their
orders. -/
theorem Meets.written_agrees (h : shelf.Meets implicit program libraries)
    (h' : shelf.Meets implicit program libraries') :
    (LibraryGraph.written libraries).Agrees (LibraryGraph.written libraries') where
  mem_names_iff name := by rw [h.mem_written_names_iff, h'.mem_written_names_iff]
  imports_iff a b := by rw [h.written_imports_iff, h'.written_imports_iff]

/-- The roots are the implicit libraries that the shelf has, whatever the order of the table. -/
theorem Meets.mem_map_roots_iff (h : shelf.Meets implicit program libraries) :
    name ∈ (shelf.roots implicit libraries).map (LibraryGraph.written libraries).nameOf ↔
      name ∈ implicit ∧ shelf.has name := by
  rw [List.mem_map]
  constructor
  · rintro ⟨number, hnumber, rfl⟩
    exact (mem_roots_iff.1 hnumber).2
  · rintro ⟨hname, available⟩
    obtain ⟨number, hlt, rfl⟩ :=
      LibraryGraph.exists_of_mem_names (h.mem_written_names_iff.2 (.implicit hname available))
    exact ⟨number, mem_roots_iff.2 ⟨hlt, hname, available⟩, rfl⟩

end Shelf

open LibraryGraph (written addAll recordLibrary)

variable {iterate : Shelf → Shelf} {shelf : Shelf} {implicit implicit' : List String}
  {program : Program} {libraries libraries' : List (String × Program)}

/-- The graph in which the implicit libraries have the first numbers is sorted alike. -/
theorem Shelf.Meets.sortedNames_eq (h : shelf.Meets implicit program libraries)
    (h' : shelf.Meets implicit program libraries')
    (hsame : ∀ name, name ∈ implicit ↔ name ∈ implicit') :
    let added := addAll ((shelf.available implicit').map Prod.fst) .empty
    ((libraries'.foldl recordLibrary added.2).withImplicit added.1).sortedNames =
      (shelf.graphOf implicit libraries).sortedNames := by
  intro added
  obtain ⟨hadded, hgrows, hsizes, hnumbers⟩ :=
    LibraryGraph.Built.empty.addAll ((shelf.available implicit').map Prod.fst)
  -- both graphs are built by recording, and the names that were added first keep their numbers
  have hrecorded : (libraries'.foldl recordLibrary added.2).Built := hadded.recordAll libraries'
  have hwritten : (written libraries).Built := LibraryGraph.Built.empty.recordAll libraries
  have hkept : added.2.names <+: (libraries'.foldl recordLibrary added.2).names :=
    LibraryGraph.Grows.names_prefix (hadded.wellFormed.foldl
      fun entry (_ : entry ∈ libraries') _ hlater _ => hlater.recordLibrary entry)
  have hlt : ∀ number ∈ added.1, number < (libraries'.foldl recordLibrary added.2).size :=
    fun number hnumber =>
      Nat.lt_of_lt_of_le (hsizes number hnumber) (LibraryGraph.size_le_of_names_grow hkept)
  have hnames : added.1.map (libraries'.foldl recordLibrary added.2).nameOf =
      (shelf.available implicit').map Prod.fst := by
    rw [← hnumbers]
    exact List.map_congr_left fun number hnumber =>
      LibraryGraph.nameOf_eq_of_names_grow hkept (hsizes number hnumber)
  -- recording the libraries after the implicit names holds and records the same as without them
  have hagrees : (libraries'.foldl recordLibrary added.2).Agrees (written libraries') := by
    refine hadded.recordAll_agrees_written (fun name hname => ?_) fun a b himports => ?_
    · rcases (hgrows.mem_names_iff name).1 hname with hempty | hname
      · cases hempty
      · obtain ⟨hname, available⟩ := mem_map_available_iff.1 hname
        exact h'.mem_written_names_iff.2 (.implicit ((hsame name).2 hname) available)
    · rcases (hgrows.imports_iff a b).1 himports with hempty | hfalse
      · exact LibraryGraph.not_imports_empty a b hempty
      · exact hfalse
  have hroots : ∀ number ∈ shelf.roots implicit libraries, number < (written libraries).size :=
    fun number hnumber => (mem_roots_iff.1 hnumber).1
  -- what remains is that the roots have the same names
  refine (hrecorded.withImplicit hlt).sortedNames_eq (hwritten.withImplicit hroots)
    ((hagrees.trans (h'.written_agrees h)).withImplicit hrecorded.wellFormed
      hwritten.wellFormed hlt hroots fun name => ?_)
  rw [hnames, h.mem_map_roots_iff, mem_map_available_iff, hsame]

/-- The table of all libraries that are loaded holds those that the program needs. -/
theorem Shelf.Meets.putAll_perm (h : shelf.Meets implicit program libraries)
    (hsame : ∀ name, name ∈ implicit ↔ name ∈ implicit') :
    shelf.Holds (Table.putAll (Table.putAll [] (shelf.available implicit')) libraries) ∧
      (Table.putAll (Table.putAll [] (shelf.available implicit')) libraries).Perm libraries := by
  have hempty : shelf.Holds [] := ⟨List.nodup_nil, nofun⟩
  obtain ⟨hloaded, hkeys⟩ := hempty.putAll
    fun entry (hentry : entry ∈ shelf.available implicit') => find_of_mem_available hentry
  obtain ⟨hholds, hnames⟩ := hloaded.putAll h.holds.find_eq
  refine ⟨hholds, hholds.perm h.holds fun name => (hnames name).trans (or_iff_right_of_imp ?_)⟩
  intro hname
  obtain ⟨hname, available⟩ :=
    mem_map_available_iff.1 (((hkeys name).1 hname).resolve_left List.not_mem_nil)
  exact (h.mem_names_iff name).2 (.implicit ((hsame name).2 hname) available)

/-- The number of nodes does not depend on the order of the libraries. -/
theorem nodeTotal_eq_of_perm (h : libraries.Perm libraries') :
    nodeTotal libraries = nodeTotal libraries' := by
  rw [nodeTotal, nodeTotal, (h.flatMap_right _).length_eq]

/-- In any order, splicing comes to the same end, unless a library is not found: then only the name
that is reported may differ. -/
theorem spliceIterating_eq_or (hiterate : ∀ table, (iterate table).Perm table)
    (hsame : ∀ name, name ∈ implicit ↔ name ∈ implicit') :
    spliceIterating iterate shelf implicit' program = splice shelf implicit program ∨
      (∃ name, spliceIterating iterate shelf implicit' program = .error (.libraryNotFound name)) ∧
        ∃ name, splice shelf implicit program = .error (.libraryNotFound name) := by
  -- the order of iteration shows only in the order of the implicit names, which have the same
  -- members
  set keys := (iterate (Table.putAll [] (shelf.available implicit'))).map Prod.fst with hkeys
  have hmem : ∀ name, shelf.has name → (name ∈ keys ↔ name ∈ implicit) := by
    intro name available
    rw [hkeys, Shelf.mem_keys_iff hiterate, hsame, and_iff_left available]
  have hiterating : spliceIterating iterate shelf implicit' program =
      (shelf.needed keys program).bind fun libraries =>
        assemble (Table.putAll (Table.putAll [] (shelf.available implicit')) libraries)
          ((libraries.foldl recordLibrary
            (addAll ((shelf.available implicit').map Prod.fst) .empty).2).withImplicit
              (addAll ((shelf.available implicit').map Prod.fst) .empty).1)
          ((iterate (Table.putAll (Table.putAll [] (shelf.available implicit')) libraries)).foldr
            (fun entry count => entry.2.nodeCount + count) 0) program := rfl
  rw [hiterating, splice_eq_assemble]
  -- both orders find all that is needed, or neither of them does
  cases hneeded' : shelf.needed keys program with
  | error error' =>
    obtain ⟨name', rfl, hlacks'⟩ := Shelf.needed_eq_error hneeded'
    cases hneeded : shelf.needed implicit program with
    | error error =>
      obtain ⟨name, rfl, -⟩ := Shelf.needed_eq_error hneeded
      exact .inr ⟨⟨name', rfl⟩, name, rfl⟩
    | ok libraries =>
      have hmeets := (Shelf.needed_meets hneeded).congr fun name available =>
        (hmem name available).symm
      exact absurd hlacks' (hmeets.not_lacks name')
  | ok libraries' =>
    have hmeets' := (Shelf.needed_meets hneeded').congr hmem
    cases hneeded : shelf.needed implicit program with
    | error error =>
      obtain ⟨name, rfl, hlacks⟩ := Shelf.needed_eq_error hneeded
      exact absurd hlacks (hmeets'.not_lacks name)
    | ok libraries =>
      have hmeets := Shelf.needed_meets hneeded
      -- the same libraries are found, in another order and so with the same total of nodes
      obtain ⟨hholds, hperm⟩ := hmeets'.putAll_perm hsame
      have hfound := hperm.trans (hmeets'.perm hmeets)
      refine .inl ?_
      simp only [Except.bind]
      rw [foldr_nodeCount_eq, foldr_nodeCount_eq,
        nodeTotal_eq_of_perm ((hiterate _).trans hfound)]
      exact assemble_congr hfound hholds.nodup (hmeets.sortedNames_eq hmeets' hsame)

/-- A splice that iterates tables in another order, for a list of implicit libraries with the same
members, has the same result. -/
theorem spliceIterating_eq_ok_iff (hiterate : ∀ table, (iterate table).Perm table)
    (hsame : ∀ name, name ∈ implicit ↔ name ∈ implicit') (q : Program) :
    spliceIterating iterate shelf implicit' program = .ok q ↔
      splice shelf implicit program = .ok q := by
  rcases spliceIterating_eq_or hiterate hsame with heq | ⟨⟨name', herror'⟩, name, herror⟩
  · rw [heq]
  · rw [herror, herror']
    exact ⟨nofun, nofun⟩

/-- Graphs that hold the same names and record the same imports are sorted alike, whatever calls
built them: they give the same names in the same order, or the same cycle. So a successful splice
depends neither on the order in which implicit libraries are listed, nor on the orders in which
tables are gone through. -/
theorem splice_any_order :
    (∀ graph graph' : LibraryGraph, graph.Built → graph'.Built → graph.Agrees graph' →
      graph.sortedNames = graph'.sortedNames) ∧
      ∀ (iterate : Shelf → Shelf) (shelf : Shelf) (implicit implicit' : List String)
        (program q : Program), (∀ table, (iterate table).Perm table) →
          (∀ name, name ∈ implicit ↔ name ∈ implicit') →
            (splice shelf implicit' program = .ok q ↔ splice shelf implicit program = .ok q) ∧
              (spliceIterating iterate shelf implicit' program = .ok q ↔
                splice shelf implicit program = .ok q) := by
  refine ⟨fun graph graph' hgraph hgraph' h => hgraph.sortedNames_eq hgraph' h, ?_⟩
  intro iterate shelf implicit implicit' program q hiterate hsame
  have hid : ∀ table : Shelf, (id table).Perm table := fun table => .refl table
  refine ⟨?_, spliceIterating_eq_ok_iff hiterate hsame q⟩
  exact (spliceIterating_eq_ok_iff hid (fun name => Iff.rfl) q).symm.trans
    (spliceIterating_eq_ok_iff hid hsame q)

/-- The diamond of libraries recorded from either end, and spliced with its tables reversed and the
implicit library listed twice. -/
theorem splice_any_order_reversed :
    (written diamondLibraries).names ≠ (written diamondLibraries.reverse).names ∧
      (written diamondLibraries).sortedNames = (written diamondLibraries.reverse).sortedNames ∧
      ∃ q, spliceIterating List.reverse diamondShelf ["Missing", "Prelude", "Prelude"]
        diamondProgram = .ok q := by
  have hbuilt : (written diamondLibraries).Built := LibraryGraph.Built.empty.recordAll _
  have hbuilt' : (written diamondLibraries.reverse).Built := LibraryGraph.Built.empty.recordAll _
  have hagrees : (written diamondLibraries).Agrees (written diamondLibraries.reverse) := by
    have hgrows := LibraryGraph.written_grows diamondLibraries
    have hgrows' := LibraryGraph.written_grows diamondLibraries.reverse
    refine ⟨fun name => ?_, fun a b => ?_⟩
    · rw [hgrows.mem_names_iff, hgrows'.mem_names_iff]
      simp only [List.mem_reverse]
    · rw [hgrows.imports_iff, hgrows'.imports_iff]
      simp only [List.mem_reverse]
  have hsame : ∀ name,
      name ∈ ["Prelude", "Missing"] ↔ name ∈ ["Missing", "Prelude", "Prelude"] := by
    simp [or_comm]
  obtain ⟨hgraphs, hsplices⟩ := splice_any_order
  obtain ⟨-, hiterating⟩ :=
    hsplices List.reverse diamondShelf _ _ diamondProgram _ List.reverse_perm hsame
  exact ⟨by decide, hgraphs _ _ hbuilt hbuilt' hagrees, _, hiterating.2 splice_diamond⟩

end TreeLang
