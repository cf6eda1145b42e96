import TreeLang.Library.Graph
import TreeLang.Table
import TreeLang.Tree.Edit

/-!
# Splicing

A program names the libraries that it uses at its top level. Splicing puts the statements of these
libraries, and of those that they import, in front of the program's own, imported ones first. The
nodes of the libraries get ids above all ids of the program. Some libraries are used without being
named: every library outside of them and of their imports comes after them.
-/

namespace TreeLang

/-- The libraries at hand, by name. -/
abbrev Shelf := Table String Program

/-- Why a program cannot be spliced. -/
inductive SpliceError where
  | libraryNotFound (name : String)
  | cycle (path : List String)
  | idsExhausted (needed : Nat)
  deriving DecidableEq

/-- The text of an error. -/
def SpliceError.message : SpliceError → String
  | .libraryNotFound name => "library `" ++ name ++ "` not found"
  | .cycle path => cycleText path
  | .idsExhausted needed => s!"not enough node ids left to splice {needed} library nodes"

namespace Shelf

/-- The number of imports written in the libraries of a shelf. -/
def importCount (shelf : Shelf) : Nat :=
  (shelf.flatMap fun entry => entry.2.imports).length

/-- Adds to `found` the libraries reached from the names still to look up, in the order in which
they are named. -/
def gather (shelf : Shelf) :
    Nat → List (String × Program) → List String → Except SpliceError (List (String × Program))
  | fuel + 1, found, name :: todo =>
    if Table.has name found then shelf.gather fuel found todo
    else
      match shelf.find name with
      | none => .error (.libraryNotFound name)
      | some library => shelf.gather fuel (found ++ [(name, library)]) (todo ++ library.imports)
  | _, found, _ => .ok found

/-- The libraries that a program needs: those that it imports, the implicit ones at hand, and what
these import. A name is looked up because the program, the implicit list or a library gives it,
which bounds the number of steps. -/
def needed (shelf : Shelf) (implicit : List String) (program : Program) :
    Except SpliceError (List (String × Program)) :=
  let todo := program.imports ++ implicit.filter shelf.has
  shelf.gather (todo.length + shelf.importCount) [] todo

end Shelf

/-- The graph of the imports that are written in some libraries. -/
def LibraryGraph.written (libraries : List (String × Program)) : LibraryGraph :=
  libraries.foldl (fun graph entry =>
    let (importer, graph) := graph.add entry.1
    entry.2.imports.foldl (fun graph name =>
      let (imported, graph) := graph.add name
      graph.depend importer imported) graph) .empty

/-- Lets every library outside of the implicit ones and of their imports import the implicit
ones. -/
def LibraryGraph.withImplicit (graph : LibraryGraph) (implicit : List Nat) : LibraryGraph :=
  let beneath := graph.importedBy implicit
  let outside := (List.range graph.size).filter fun number => number ∉ beneath
  outside.foldl (fun graph number =>
    implicit.foldl (fun graph library => graph.depend number library) graph) graph

/-- The statements of libraries in an order, with fresh ids. -/
def spliceBlocks : List Program → IdSupply → List Statement
  | [], _ => []
  | library :: rest, ids =>
    let (library, ids) := library.reidentify ids
    library.block ++ spliceBlocks rest ids

/-- Puts the libraries that a program needs in front of its statements. -/
def splice (shelf : Shelf) (implicit : List String) (program : Program) :
    Except SpliceError Program := do
  let libraries ← shelf.needed implicit program
  if libraries.isEmpty then return program
  let written := LibraryGraph.written libraries
  let graph := written.withImplicit ((implicit.filter shelf.has).filterMap written.resolve?)
  match graph.sorted with
  | .error path => throw (.cycle path)
  | .ok order =>
    let needed := libraries.foldr (fun entry count => entry.2.nodeCount + count) 0
    match IdSupply.after? (some program.maxId) with
    | none => throw (.idsExhausted needed)
    | some ids =>
      if ids.remaining < needed then throw (.idsExhausted needed)
      let ordered := order.filterMap fun number => Table.find (graph.nameOf number) libraries
      return { program with block := spliceBlocks ordered ids ++ program.block }

end TreeLang
