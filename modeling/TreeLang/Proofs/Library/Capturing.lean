import TreeLang.Proofs.Library.Ids
import TreeLang.Proofs.Scope.Beneath

/-!
# Splicing captures no names

The libraries come before the program, in the frame that its top level has as well. What they bind
there is older than all bindings of the program, and their nodes have ids that are not in it. So an
identifier of the program that the program resolves by itself keeps what it refers to, even where a
library binds the same name, and one that is still unresolved was unresolved before.
-/

namespace TreeLang

/-- A spliced program is the program with the blocks of the copies in front. -/
theorem SplicedWith.eq_prepend {program q : Program} {programs copies : List Program}
    {ids rest : IdSupply} (h : SplicedWith program q programs ids copies rest) :
    q = program.prepend (copies.flatMap Program.block) :=
  congrArg₂ Program.mk h.id_eq h.block_eq

/-- In what a successful splice gives, every identifier of the program that refers to a pattern in
the program alone refers to this pattern, under its id and under that of its name, and no identifier
of the program is unresolved that was not unresolved before. -/
theorem splice_captures_nothing {shelf : Shelf} {implicit : List String} {program q : Program}
    (h : splice shelf implicit program = .ok q) (distinct : (program.nodes.map Node.id).Nodup) :
    (∀ id used pattern, .expression (.identifier id used) ∈ program.nodes →
      (program.resolve none).patternFor id = some pattern →
        ∀ key ∈ (Expression.identifier id used).useKeys,
          (q.resolve none).patternFor key = some pattern) ∧
      ∀ id ∈ program.nodes.map Node.id, id ∈ (q.resolve none).unresolved →
        id ∈ (program.resolve none).unresolved := by
  obtain ⟨order, libraries, ids, copies, rest, -, -, hspliced⟩ := splice_orders h
  have hids : (q.nodes.map Node.id).Nodup := hspliced.nodup_ids distinct
  obtain rfl := hspliced.eq_prepend
  refine ⟨fun id used pattern he hpattern key hkey => ?_, fun id hid hnone => ?_⟩
  · exact Program.patternFor_prepend hids he hpattern hkey
  · exact Program.unresolved_prepend hids hid hnone

/-- A library with `let x`. -/
def wordsShelf : Shelf := [
  ("Words", ⟨.ofNat 0,
    [.declaration (.ofNat 1) (.value (.ofNat 2) ⟨.ofNat 3, "x"⟩ none none)]⟩)]

/-- The library is imported, and `x` is used, then declared, and used again; `z` is not declared. -/
def borrowingProgram : Program where
  id := .ofNat 0
  block := [
    importOf 1 "Words",
    .expression (.ofNat 4) (.identifier (.ofNat 5) ⟨.ofNat 6, "x", false⟩),
    .declaration (.ofNat 7) (.value (.ofNat 8) ⟨.ofNat 9, "x"⟩ none none),
    .expression (.ofNat 10) (.identifier (.ofNat 11) ⟨.ofNat 12, "x", false⟩),
    .expression (.ofNat 13) (.identifier (.ofNat 14) ⟨.ofNat 15, "z", false⟩)]

/-- Splicing the library of words in front of the program that borrows a name. -/
theorem splice_borrowing : splice wordsShelf [] borrowingProgram =
    .ok (borrowingProgram.prepend
      [.declaration (.ofNat 17) (.value (.ofNat 18) ⟨.ofNat 19, "x"⟩ none none)]) := by
  have hneeded : wordsShelf.needed [] borrowingProgram = .ok wordsShelf := rfl
  have hgraph : (LibraryGraph.written wordsShelf).withImplicit
      ((([] : List String).filter wordsShelf.has).filterMap
        (LibraryGraph.written wordsShelf).resolve?) = ⟨[⟨"Words", []⟩]⟩ := rfl
  have hsorted : (⟨[⟨"Words", []⟩]⟩ : LibraryGraph).sorted = .ok [0] := by
    have hone : (⟨[⟨"Words", []⟩]⟩ : LibraryGraph).byName [0] = [0] := List.mergeSort_singleton 0
    have hnone : (⟨[⟨"Words", []⟩]⟩ : LibraryGraph).byName [] = [] := List.mergeSort_nil
    have himports : (⟨[⟨"Words", []⟩]⟩ : LibraryGraph).importsOf 0 = [] := rfl
    simp [LibraryGraph.sorted, LibraryGraph.visit, LibraryGraph.size, List.range_succ, hone, hnone,
      himports, bind, Except.bind, pure, Except.pure]
  rw [splice, hneeded]
  simp only [bind, Except.bind]
  rw [hgraph, hsorted]
  rfl

/-- The second `x` is the one of the program, though the library has an `x` as well. The first one
is unresolved in the program alone, and is the one of the library then. -/
theorem splice_captures_nothing_borrowing :
    ∃ q, splice wordsShelf [] borrowingProgram = .ok q ∧
      (borrowingProgram.nodes.map Node.id).Nodup ∧
      (borrowingProgram.resolve none).patternFor (.ofNat 11) = some (.ofNat 9) ∧
      (∀ key ∈ [NodeId.ofNat 11, .ofNat 12],
        (q.resolve none).patternFor key = some (.ofNat 9)) ∧
      (borrowingProgram.resolve none).unresolved = [.ofNat 5, .ofNat 14] ∧
      (q.resolve none).unresolved = [.ofNat 14] ∧
      (q.resolve none).patternFor (.ofNat 5) = some (.ofNat 19) ∧
      (∀ id ∈ borrowingProgram.nodes.map Node.id, id ∈ (q.resolve none).unresolved →
        id ∈ (borrowingProgram.resolve none).unresolved) := by
  have hdistinct : (borrowingProgram.nodes.map Node.id).Nodup := by decide
  have hpattern : (borrowingProgram.resolve none).patternFor (.ofNat 11) = some (.ofNat 9) := by
    decide +kernel
  obtain ⟨hkept, hunresolved⟩ := splice_captures_nothing splice_borrowing hdistinct
  have hnode : .expression (.identifier (.ofNat 11) ⟨.ofNat 12, "x", false⟩) ∈
      borrowingProgram.nodes :=
    List.mem_of_getElem? (show borrowingProgram.nodes[11]? = some _ from rfl)
  exact ⟨_, splice_borrowing, hdistinct, hpattern, hkept _ _ _ hnode hpattern, by decide +kernel,
    by decide +kernel, by decide +kernel, hunresolved⟩

end TreeLang
