/-!
# Import graphs

A graph records which library imports which. Libraries are numbered in the order in which they are
added. `sorted` lists them with imported libraries first, and visits libraries and their imports in
the order of their names, so its answer does not depend on their numbers.
-/

namespace TreeLang

/-- A library of a graph: its name and the numbers of the libraries that it imports. -/
structure LibraryEntry where
  name : String
  imports : List Nat
  deriving DecidableEq

/-- Libraries with their imports; the number of a library is its place in the list. The program
holds these numbers in 32 bits, so the numbers here are its own for fewer than `2 ^ 32`
libraries. -/
structure LibraryGraph where
  libraries : List LibraryEntry := []
  deriving DecidableEq

namespace LibraryGraph

/-- The graph without libraries. -/
def empty : LibraryGraph := {}

/-- The number of libraries. -/
def size (graph : LibraryGraph) : Nat := graph.libraries.length

/-- The number of the library with a name. -/
def resolve? (graph : LibraryGraph) (name : String) : Option Nat :=
  graph.libraries.findIdx? fun library => library.name = name

/-- The name of a library. -/
def nameOf (graph : LibraryGraph) (number : Nat) : String :=
  match graph.libraries[number]? with
  | some library => library.name
  | none => ""

/-- The libraries that a library imports. -/
def importsOf (graph : LibraryGraph) (number : Nat) : List Nat :=
  match graph.libraries[number]? with
  | some library => library.imports
  | none => []

/-- Adds a library without imports, unless its name is known. -/
def add (graph : LibraryGraph) (name : String) : Nat × LibraryGraph :=
  match graph.resolve? name with
  | some number => (number, graph)
  | none => (graph.size, { libraries := graph.libraries ++ [{ name, imports := [] }] })

/-- Records an import once. A library does not count as importing itself. -/
def depend (graph : LibraryGraph) (importer imported : Nat) : LibraryGraph :=
  if importer = imported then graph
  else
    { libraries := graph.libraries.modify importer fun library =>
        if imported ∈ library.imports then library
        else { library with imports := library.imports ++ [imported] } }

/-- The number of recorded imports. -/
def importCount (graph : LibraryGraph) : Nat :=
  (graph.libraries.flatMap fun library => library.imports).length

/-! ## Reachability -/

/-- Adds to `seen` what is reached from the libraries still to visit, `todo`. -/
def reach (graph : LibraryGraph) : Nat → List Nat → List Nat → List Nat
  | fuel + 1, seen, number :: todo =>
    if number ∈ seen then graph.reach fuel seen todo
    else graph.reach fuel (number :: seen) (graph.importsOf number ++ todo)
  | _, seen, _ => seen

/-- The roots and all that they import, directly or through others. A visit is due to a root or to
an import, which bounds their number. -/
def importedBy (graph : LibraryGraph) (roots : List Nat) : List Nat :=
  graph.reach (roots.length + graph.importCount) [] roots

/-! ## Sorting -/

/-- Libraries in the order of their names. -/
def byName (graph : LibraryGraph) (numbers : List Nat) : List Nat :=
  numbers.mergeSort fun a b => graph.nameOf a ≤ graph.nameOf b

/-- The path from the earlier visit of a library back to it, as names. -/
def cycleTo (graph : LibraryGraph) (path : List Nat) (number : Nat) : List String :=
  ((path.dropWhile (· ≠ number)) ++ [number]).map graph.nameOf

/-- Visits a library after the libraries that it imports. `path` is the chain of imports that leads
here, and `order` what is done already. Reaching a library on the path is a cycle. The path does not
repeat a library, which bounds its length. -/
def visit (graph : LibraryGraph) : Nat → List Nat → List Nat → Nat → Except (List String) (List Nat)
  | fuel, path, order, number =>
    if number ∈ order then .ok order
    else if number ∈ path then .error (graph.cycleTo path number)
    else
      match fuel with
      | 0 => .ok order
      | fuel + 1 => do
        let order ← (graph.byName (graph.importsOf number)).foldlM
          (graph.visit fuel (path ++ [number])) order
        .ok (order ++ [number])

/-- All libraries, each after those that it imports, or the names on a cycle of imports. -/
def sorted (graph : LibraryGraph) : Except (List String) (List Nat) :=
  (graph.byName (List.range graph.size)).foldlM (graph.visit graph.size []) []

end LibraryGraph

/-- The text that names a cycle of imports. -/
def cycleText (path : List String) : String := "import cycle: " ++ " -> ".intercalate path

end TreeLang
