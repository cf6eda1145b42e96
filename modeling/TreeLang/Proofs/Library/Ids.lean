import TreeLang.Proofs.Library.Splicing

/-!
# The ids of what is spliced

The supply continues after the largest id of the program and has an id left for every node of the
libraries. What it hands out is new to the program, whatever ids the libraries had.
-/

namespace TreeLang

variable {shelf : Shelf} {implicit : List String} {program q : Program}

/-- The ids of a program are its own and those of its statements. -/
theorem Program.ids_outline (program : Program) :
    program.outline.ids =
      program.id :: program.block.flatMap fun statement => statement.outline.ids := by
  rw [outline, Outline.ids_node, Statement.outlines_eq_map, List.flatMap_map]
  rfl

namespace SplicedWith

variable {programs copies : List Program} {ids rest : IdSupply} {id own : NodeId}

/-- The supply has handed out one id for each node of the libraries, without a gap. -/
theorem values (h : SplicedWith program q programs ids copies rest) :
    (copies.flatMap fun copy => copy.outline.ids).map NodeId.value =
        List.range' ids.peek.value (programs.flatMap Program.nodes).length ∧
      rest.peek.value = ids.peek.value + (programs.flatMap Program.nodes).length := by
  have hids := Program.reidentify_ids programs h.enough
  rwa [h.copies_eq] at hids

/-- No two nodes of the copies have one identifier. -/
theorem nodup (h : SplicedWith program q programs ids copies rest) :
    (copies.flatMap fun copy => copy.outline.ids).Nodup :=
  .of_map NodeId.value (h.values.1 ▸ List.nodup_range')

/-- The identifiers of the copies are taken from the supply, one after the other. -/
theorem mem_range (h : SplicedWith program q programs ids copies rest)
    (hid : id ∈ copies.flatMap fun copy => copy.outline.ids) :
    ids.peek.value ≤ id.value ∧
      id.value < ids.peek.value + (programs.flatMap Program.nodes).length := by
  have hvalue : id.value ∈ (copies.flatMap fun copy => copy.outline.ids).map NodeId.value :=
    List.mem_map_of_mem hid
  rwa [h.values.1, List.mem_range'_1] at hvalue

/-- The last identifier that there is does not occur in the copies. -/
theorem lt_last (h : SplicedWith program q programs ids copies rest)
    (hid : id ∈ copies.flatMap fun copy => copy.outline.ids) : id.value < NodeId.last.value := by
  have hlt := (h.mem_range hid).2
  have henough := h.enough
  have hlast := ids.peek.value_le_last
  rw [IdSupply.remaining] at henough
  omega

/-- The identifiers of the copies come after those of the program. -/
theorem own_lt (h : SplicedWith program q programs ids copies rest)
    (hid : id ∈ copies.flatMap fun copy => copy.outline.ids) (hown : own ∈ program.outline.ids) :
    own.value < id.value := by
  have hprograms : programs ≠ [] := by
    rintro rfl
    obtain ⟨rfl, rfl⟩ := Prod.mk.inj h.copies_eq
    cases hid
  have hpeek := IdSupply.peek_of_after? (h.after hprograms)
  have hle := Program.le_maxId hown
  have hge := (h.mem_range hid).1
  omega

/-- The nodes of the libraries and those of the program have different ids. -/
theorem nodup_ids (h : SplicedWith program q programs ids copies rest)
    (distinct : program.outline.ids.Nodup) : q.outline.ids.Nodup := by
  have hids : q.outline.ids = program.id ::
      ((copies.flatMap fun copy => copy.block.flatMap fun statement => statement.outline.ids) ++
        program.block.flatMap fun statement => statement.outline.ids) := by
    rw [q.ids_outline, h.id_eq, h.block_eq, List.flatMap_append, List.flatMap_assoc]
  have hsublist : (copies.flatMap fun copy => copy.block.flatMap fun statement =>
      statement.outline.ids).Sublist (copies.flatMap fun copy => copy.outline.ids) := by
    refine List.Sublist.flatMap_right _ fun copy _ => ?_
    rw [copy.ids_outline]
    exact List.sublist_cons_self _ _
  have hdisjoint : List.Disjoint program.outline.ids
      (copies.flatMap fun copy => copy.block.flatMap fun statement => statement.outline.ids) :=
    fun id hown hid => Nat.lt_irrefl _ (h.own_lt (hsublist.subset hid) hown)
  have hperm : List.Perm q.outline.ids (program.outline.ids ++
      copies.flatMap fun copy => copy.block.flatMap fun statement => statement.outline.ids) := by
    rw [hids, program.ids_outline, List.cons_append]
    exact List.perm_append_comm.cons _
  exact hperm.nodup_iff.2 (distinct.append (h.nodup.sublist hsublist) hdisjoint)

end SplicedWith

/-- No two ids collide in what a successful splice gives. The nodes of the libraries get ids above
all ids of the program, each its own, one for each node, and below the last id, at which the supply
would stay; the program keeps its own. -/
theorem splice_ids (h : splice shelf implicit program = .ok q) :
    ∃ libraries ids copies rest, SplicedWith program q libraries ids copies rest ∧
      (∀ library ∈ libraries, ∃ name, shelf.find name = some library) ∧
      (∀ id ∈ copies.flatMap fun copy => copy.outline.ids, ∀ own ∈ program.outline.ids,
        own.value < id.value) ∧
      (copies.flatMap fun copy => copy.outline.ids).Nodup ∧
      (∀ id ∈ copies.flatMap fun copy => copy.outline.ids, id.value < NodeId.last.value) ∧
      rest.peek.value = ids.peek.value + (libraries.flatMap Program.nodes).length ∧
      (program.outline.ids.Nodup → q.outline.ids.Nodup) := by
  obtain ⟨order, libraries, ids, copies, rest, -, hfind, hspliced⟩ := splice_orders h
  refine ⟨libraries, ids, copies, rest, hspliced, fun library hlibrary => ?_,
    fun id hid own hown => hspliced.own_lt hid hown, hspliced.nodup,
    fun id hid => hspliced.lt_last hid, hspliced.values.2, hspliced.nodup_ids⟩
  obtain ⟨number, hnumber, rfl⟩ := List.getElem_of_mem hlibrary
  obtain ⟨hlength, hget⟩ := List.forall₂_iff_get.1 hfind
  exact ⟨_, hget number (hlength ▸ hnumber) hnumber⟩

/-- The libraries of the diamond get other ids than the program, which has ids of theirs. Their
roots, which are left out, get ids as well. -/
theorem splice_ids_diamond :
    ∃ q, splice diamondShelf ["Prelude", "Missing"] diamondProgram = .ok q ∧
      q.outline.ids.map NodeId.value =
        [0, 5, 7, 8, 9, 11, 13, 14, 15, 17, 18, 19, 20, 21, 22, 24, 25, 26, 27, 28, 29, 1, 2, 3] ∧
      q.outline.ids.Nodup := by
  obtain ⟨-, -, -, -, -, -, -, -, -, -, hdistinct⟩ := splice_ids splice_diamond
  exact ⟨_, splice_diamond, by decide, hdistinct (by decide)⟩

end TreeLang
