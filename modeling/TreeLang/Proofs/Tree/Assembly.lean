import Mathlib.Data.List.Induction
import Mathlib.Data.List.Nodup
import Mathlib.Logic.Relation
import TreeLang.Proofs.Tree.Steps

/-!
# Built trees have distinct ids

A run of a build script is told by its entries, one for each step: what the step has made, from
which earlier pieces. Where no piece is used twice and the ids do not run out, the ids of each piece
are distinct, and pieces share ids only where one of them is in the other.
-/

namespace TreeLang

namespace Workbench

/-! ## Runs -/

/-- A step of a script, and what it has made if it was carried out. -/
structure Entry where
  step : BuildStep
  product : Option Product

namespace Entry

/-- The ids in what a step has made. -/
def ids (entry : Entry) : List NodeId := (entry.product.map Product.ids).getD []

/-- The places of the pieces that a step has used. -/
def parts (entry : Entry) : List Nat :=
  if entry.product.isSome then entry.step.operands else []

/-- How many ids a step has drawn. -/
def allocations (entry : Entry) : Nat := if entry.product.isSome then entry.step.allocations else 0

/-- The piece that a step has left for later ones. -/
def piece? (entry : Entry) : Option Piece := entry.product.bind Product.piece?

end Entry

/-- The entry of a step. -/
def entry (bench : Workbench) (step : BuildStep) : Entry := ⟨step, (bench.run step).1⟩

/-- The entries of a run of a script. -/
def entries : Workbench → List BuildStep → List Entry
  | _, [] => []
  | bench, step :: rest => bench.entry step :: entries (bench.run step).2 rest

/-- The workbench after a run of a script. -/
def after (bench : Workbench) (script : List BuildStep) : Workbench :=
  script.foldl (fun bench step => (bench.run step).2) bench

/-- A step at the end of a script adds the entry that the bench gives it. -/
theorem entries_concat (bench : Workbench) (script : List BuildStep) (step : BuildStep) :
    entries bench (script ++ [step]) =
      entries bench script ++ [(bench.after script).entry step] := by
  induction script generalizing bench with
  | nil => rfl
  | cons first rest ih =>
    rw [List.cons_append, entries, ih, entries, List.cons_append]
    rfl

/-- A step at the end of a script is run on the bench that the script leaves. -/
theorem after_concat (bench : Workbench) (script : List BuildStep) (step : BuildStep) :
    bench.after (script ++ [step]) = ((bench.after script).run step).2 := by
  rw [after, List.foldl_append]
  rfl

/-- What a step does with a workbench: it draws ids, files a piece, and what it makes has the ids
that are drawn and those of the pieces that it uses. -/
structure Files (bench : Workbench) (entry : Entry) (after : Workbench) : Prop where
  supply_eq : after.ids = bench.ids.skip entry.allocations
  pieces_eq : after.pieces = bench.pieces ++ [entry.piece?]
  exists_given : ∃ given, bench.Supplies entry.parts given ∧
    entry.ids.Perm (bench.ids.upcoming entry.allocations ++ given.flatMap Outline.ids)

/-- A step draws ids and uses pieces when it is carried out, and does nothing when it is not. -/
theorem files_run (bench : Workbench) (step : BuildStep) :
    bench.Files (bench.entry step) (bench.run step).2 := by
  rw [entry, run]
  cases hplan : bench.plan? step with
  | none => exact ⟨rfl, rfl, [], .nil, .refl _⟩
  | some build =>
    obtain ⟨given, hgiven, hdraws⟩ := plan?_spec hplan
    exact ⟨hdraws.supply_eq _, rfl, given, hgiven, hdraws.ids_perm _⟩

/-- The piece of the first place is made from that of the second one, or from pieces that are, or it
is the same. -/
def Contains (entries : List Entry) : Nat → Nat → Prop :=
  Relation.ReflTransGen fun whole part => ∃ entry, entries[whole]? = some entry ∧ part ∈ entry.parts

/-- The ids in each product are distinct, and products share ids only where one contains the
other. -/
structure Apart (entries : List Entry) : Prop where
  nodup : ∀ entry ∈ entries, entry.ids.Nodup
  disjoint : ∀ {i j : Nat} {entry entry' : Entry}, entries[i]? = some entry →
    entries[j]? = some entry' → ¬ Contains entries i j → ¬ Contains entries j i →
      entry.ids.Disjoint entry'.ids

section Concat

variable {made : List Entry} {entry : Entry} {i j : Nat}

/-- What is contained in an entry is still so when another one is added. -/
theorem Contains.concat (h : Contains made i j) : Contains (made ++ [entry]) i j := by
  refine Relation.ReflTransGen.mono (fun whole part hstep => ?_) i j h
  obtain ⟨found, hfound, hpart⟩ := hstep
  have hlt := (List.getElem?_eq_some_iff.1 hfound).1
  exact ⟨found, List.getElem?_append_left hlt ▸ hfound, hpart⟩

/-- Only a piece that was used is in another one. -/
theorem Contains.eq_or_mem_parts (h : Contains made i j) :
    i = j ∨ j ∈ made.flatMap Entry.parts := by
  rcases Relation.ReflTransGen.cases_tail h with heq | ⟨whole, -, found, hfound, hpart⟩
  · exact .inl heq.symm
  · exact .inr (List.mem_flatMap.2 ⟨found, List.mem_of_getElem? hfound, hpart⟩)

/-- The ids at a place. -/
def idsAt (made : List Entry) (place : Nat) : List NodeId :=
  (made[place]?.map Entry.ids).getD []

/-- The ids at a place are those of its entry. -/
theorem idsAt_eq {place : Nat} (h : made[place]? = some entry) : idsAt made place = entry.ids := by
  rw [idsAt, h]
  rfl

/-- Pieces that were not used before are not in one another, so they share no ids. -/
theorem Apart.nodup_flatMap (h : Apart made) {parts : List Nat}
    (hparts : ∀ part ∈ parts, part < made.length) (hdistinct : parts.Nodup)
    (hroot : ∀ {i part}, part ∈ parts → Contains made i part → i = part) :
    (parts.flatMap (idsAt made)).Nodup := by
  rw [List.nodup_flatMap]
  constructor
  · intro part hpart
    have hplace := List.getElem?_eq_getElem (hparts part hpart)
    rw [idsAt_eq hplace]
    exact h.nodup _ (List.getElem_mem _)
  · refine hdistinct.pairwise_of_forall_ne fun part hpart other hother hne => ?_
    have hplace := List.getElem?_eq_getElem (hparts part hpart)
    have hplace' := List.getElem?_eq_getElem (hparts other hother)
    change (idsAt made part).Disjoint (idsAt made other)
    rw [idsAt_eq hplace, idsAt_eq hplace']
    exact h.disjoint hplace hplace' (fun hin => hne (hroot hother hin))
      (fun hin => hne (hroot hpart hin).symm)

/-- A product with new ids and with pieces that were not used before is apart from all others but
for those that are in it. -/
theorem Apart.concat (h : Apart made) {own : List NodeId}
    (hids : entry.ids.Perm (own ++ entry.parts.flatMap (idsAt made))) (hown : own.Nodup)
    (hnew : ∀ id ∈ own, ∀ e ∈ made, id ∉ e.ids) (hparts : ∀ part ∈ entry.parts, part < made.length)
    (honce : ((made ++ [entry]).flatMap Entry.parts).Nodup) : Apart (made ++ [entry]) := by
  rw [List.flatMap_append, List.flatMap_singleton] at honce
  obtain ⟨-, hdistinct, hunused⟩ := List.nodup_append.1 honce
  have hroot : ∀ {i part}, part ∈ entry.parts → Contains made i part → i = part :=
    fun hpart hin => hin.eq_or_mem_parts.resolve_right fun hmem => hunused _ hmem _ hpart rfl
  have hlast : (made ++ [entry])[made.length]? = some entry := List.getElem?_concat_length
  -- an old product is apart from the parts of the new one, and so from the new one
  have hdisjoint : ∀ {j e}, made[j]? = some e → ¬ Contains (made ++ [entry]) made.length j →
      entry.ids.Disjoint e.ids := by
    intro j e hj hout id hid hid'
    rcases List.mem_append.1 (hids.mem_iff.1 hid) with hid | hid
    · exact hnew id hid e (List.mem_of_getElem? hj) hid'
    · obtain ⟨part, hpart, hid⟩ := List.mem_flatMap.1 hid
      have hplace := List.getElem?_eq_getElem (hparts part hpart)
      have hpartOut : ¬ Contains made part j := fun hin =>
        hout (.head ⟨entry, hlast, hpart⟩ hin.concat)
      have hpartNotIn : ¬ Contains made j part := fun hin =>
        hpartOut (hroot hpart hin ▸ .refl)
      rw [idsAt_eq hplace] at hid
      exact h.disjoint hplace hj hpartOut hpartNotIn hid hid'
  have hcases : ∀ {i e}, (made ++ [entry])[i]? = some e →
      made[i]? = some e ∨ i = made.length ∧ e = entry := by
    intro i e hi
    rcases Nat.lt_trichotomy i made.length with hlt | rfl | hgt
    · exact .inl (List.getElem?_append_left hlt ▸ hi)
    · exact .inr ⟨rfl, Option.some.inj (hi.symm.trans hlast)⟩
    · have hlength := (List.getElem?_eq_some_iff.1 hi).1
      rw [List.length_append, List.length_singleton] at hlength
      omega
  constructor
  · intro e he
    rcases List.mem_append.1 he with he | he
    · exact h.nodup e he
    · obtain rfl := List.mem_singleton.1 he
      rw [hids.nodup_iff, List.nodup_append]
      refine ⟨hown, h.nodup_flatMap hparts hdistinct hroot, fun id hid id' hid' heq => ?_⟩
      obtain ⟨part, hpart, hid'⟩ := List.mem_flatMap.1 hid'
      have hplace := List.getElem?_eq_getElem (hparts part hpart)
      rw [idsAt_eq hplace, ← heq] at hid'
      exact hnew id hid _ (List.getElem_mem _) hid'
  · intro i j e e' hi hj hout hnotIn
    rcases hcases hi with hold | ⟨rfl, rfl⟩
    · rcases hcases hj with hold' | ⟨rfl, rfl⟩
      · exact h.disjoint hold hold' (fun hin => hout hin.concat) (fun hin => hnotIn hin.concat)
      · exact List.disjoint_comm.1 (hdisjoint hold hnotIn)
    · rcases hcases hj with hold' | ⟨rfl, -⟩
      · exact hdisjoint hold' hout
      · exact absurd .refl hout

end Concat

/-! ## What a run keeps -/

/-- How many ids a run has drawn. -/
def allocated (made : List Entry) : Nat :=
  made.foldl (fun drawn entry => drawn + entry.allocations) 0

/-- What a run keeps: the supply has moved on, the pieces are there for later steps, and all ids are
those that were drawn; and the products are apart. -/
structure Assembled (ids : IdSupply) (made : List Entry) (bench : Workbench) : Prop where
  supply_eq : bench.ids = ids.skip (allocated made)
  pieces_eq : bench.pieces = made.map Entry.piece?
  mem_upcoming : ∀ entry ∈ made, ∀ id ∈ entry.ids, id ∈ ids.upcoming (allocated made)
  apart : Apart made

section Assembled

variable {ids : IdSupply} {made : List Entry} {bench : Workbench}

/-- The allocations of an entry that is added count as well. -/
theorem allocated_concat (made : List Entry) (entry : Entry) :
    allocated (made ++ [entry]) = allocated made + entry.allocations := by
  rw [allocated, List.foldl_append]
  rfl

/-- A piece on the workbench is in the entry of its place. -/
theorem Assembled.idsAt_eq (h : Assembled ids made bench) {place : Nat} {outline : Outline}
    (hplace : bench.Holds place outline) :
    place < made.length ∧ idsAt made place = outline.ids := by
  obtain ⟨piece, hpiece, rfl⟩ := hplace
  have hfound : bench.pieces[place]? = some (some piece) := Option.join_eq_some_iff.1 hpiece
  rw [h.pieces_eq, List.getElem?_map, Option.map_eq_some_iff] at hfound
  obtain ⟨entry, hentry, hsome⟩ := hfound
  obtain ⟨product, hproduct, hpiece⟩ := Option.bind_eq_some_iff.1 hsome
  refine ⟨(List.getElem?_eq_some_iff.1 hentry).1, ?_⟩
  rw [Workbench.idsAt_eq hentry, Entry.ids, hproduct]
  cases product with
  | piece found =>
    cases hpiece
    rfl
  | id | pattern | identifier => cases hpiece

/-- The trees that are supplied to a step stand at earlier places, and have the ids that are
recorded there. -/
theorem Assembled.idsAt_supplied (h : Assembled ids made bench) {places : List Nat}
    {given : List Outline} (hgiven : bench.Supplies places given) :
    (∀ place ∈ places, place < made.length) ∧
      places.flatMap (idsAt made) = given.flatMap Outline.ids := by
  induction hgiven with
  | nil => exact ⟨nofun, rfl⟩
  | cons hfirst _ ih =>
    obtain ⟨hlt, hids⟩ := h.idsAt_eq hfirst
    exact ⟨List.forall_mem_cons.2 ⟨hlt, ih.1⟩, by rw [List.flatMap_cons, hids, ih.2]; rfl⟩

/-- A bench without entries is assembled. -/
theorem assembled_nil (ids : IdSupply) : Assembled ids [] { ids } where
  supply_eq := rfl
  pieces_eq := rfl
  mem_upcoming _ h := absurd h List.not_mem_nil
  apart.nodup _ h := absurd h List.not_mem_nil
  apart.disjoint h := nomatch h

/-- What one step keeps. -/
theorem Assembled.concat (h : Assembled ids made bench) {entry : Entry} {after : Workbench}
    (hfiles : bench.Files entry after)
    (hroom : allocated (made ++ [entry]) ≤ ids.remaining + 1)
    (honce : ((made ++ [entry]).flatMap Entry.parts).Nodup) :
    Assembled ids (made ++ [entry]) after := by
  obtain ⟨given, hgiven, hids⟩ := hfiles.exists_given
  obtain ⟨hparts, hgivenIds⟩ := h.idsAt_supplied hgiven
  have hupcoming : ids.upcoming (allocated (made ++ [entry])) =
      ids.upcoming (allocated made) ++ bench.ids.upcoming entry.allocations := by
    rw [allocated_concat, ids.upcoming_add, h.supply_eq]
  -- the ids that are drawn now are not among those that were drawn before
  have hnodup := IdSupply.nodup_upcoming hroom
  rw [hupcoming] at hnodup
  obtain ⟨-, hown, hnew⟩ := List.nodup_append.1 hnodup
  refine ⟨?_, ?_, ?_, ?_⟩
  · rw [hfiles.supply_eq, h.supply_eq, allocated_concat, ids.skip_add]
  · rw [hfiles.pieces_eq, h.pieces_eq, List.map_append, List.map_singleton]
  · intro e he id hid
    rw [hupcoming, List.mem_append]
    rcases List.mem_append.1 he with hold | hlast
    · exact .inl (h.mem_upcoming e hold id hid)
    · obtain rfl := List.mem_singleton.1 hlast
      rw [hids.mem_iff, List.mem_append, ← hgivenIds] at hid
      refine hid.symm.imp_left fun hid => ?_
      obtain ⟨part, hpart, hid⟩ := List.mem_flatMap.1 hid
      have hplace := List.getElem?_eq_getElem (hparts part hpart)
      rw [Workbench.idsAt_eq hplace] at hid
      exact h.mem_upcoming _ (List.getElem_mem _) id hid
  · rw [← hgivenIds] at hids
    exact h.apart.concat hids hown
      (fun id hid e he hid' => hnew id (h.mem_upcoming e he id hid') id hid rfl) hparts honce

/-- What a whole run keeps. -/
theorem assembled_entries (script : List BuildStep)
    (hroom : allocated (entries { ids } script) ≤ ids.remaining + 1)
    (honce : ((entries { ids } script).flatMap Entry.parts).Nodup) :
    Assembled ids (entries { ids } script) (after { ids } script) := by
  induction script using List.reverseRecOn with
  | nil => exact assembled_nil ids
  | append_singleton script step ih =>
    rw [entries_concat] at hroom honce ⊢
    have hroom' : allocated (entries { ids } script) ≤ ids.remaining + 1 := by
      rw [allocated_concat] at hroom
      omega
    have honce' : ((entries { ids } script).flatMap Entry.parts).Nodup := by
      rw [List.flatMap_append] at honce
      exact (List.nodup_append.1 honce).1
    rw [after_concat]
    exact (ih hroom' honce').concat (files_run _ step) hroom honce

end Assembled

/-- Built trees have distinct ids: where the ids suffice and no piece is used twice, the ids of each
product are distinct, and products that do not contain one another share none. After a program, none
of the ids is one of the program. -/
theorem entries_apart (ids : IdSupply) (script : List BuildStep)
    (hroom : allocated (entries { ids } script) ≤ ids.remaining + 1)
    (honce : ((entries { ids } script).flatMap Entry.parts).Nodup) :
    Apart (entries { ids } script) ∧
      ∀ program : Program, IdSupply.after? (some program.maxId) = some ids →
        ∀ entry ∈ entries { ids } script, ∀ id ∈ entry.ids, id ∉ program.nodes.map Node.id := by
  have hassembled := assembled_entries script hroom honce
  refine ⟨hassembled.apart, fun program hafter entry hentry id hid hmem => ?_⟩
  have hle := IdSupply.le_of_mem_upcoming (hassembled.mem_upcoming entry hentry id hid)
  have hmax := Program.le_maxId hmem
  have hpeek := IdSupply.peek_of_after? hafter
  omega

/-- `func identity<T>(x: Number) -> Number { return x }` as a program, and `y` apart from it. -/
def identityScript : List BuildStep :=
  [.typeNamed "Number" [], .parameter none "x" 0, .typeNamed "Number" [], .ident "x",
    .resultStatement 3, .function "identity" ["T"] [1] 2 [4], .declaration 5, .program [6],
    .ident "y"]

/-- The function is made after its parameter, its type and its block; its own ids and those of its
name and of its type parameter come after theirs. The `y` is in no other piece. -/
theorem entries_apart_identity :
    let program : Program := ⟨.ofNat 7, []⟩
    let made := entries { ids := ⟨.ofNat 8⟩ } identityScript
    IdSupply.after? (some program.maxId) = some ⟨.ofNat 8⟩ ∧
      allocated made ≤ IdSupply.remaining ⟨.ofNat 8⟩ + 1 ∧ (made.flatMap Entry.parts).Nodup ∧
      Apart made ∧ (∀ entry ∈ made, ∀ id ∈ entry.ids, id ∉ program.nodes.map Node.id) ∧
      made.map (fun entry => entry.ids.map NodeId.value) =
        [[9, 8], [11, 10, 9, 8], [13, 12], [15, 14], [16, 15, 14],
          [20, 17, 13, 12, 19, 18, 11, 10, 9, 8, 16, 15, 14],
          [21, 20, 17, 13, 12, 19, 18, 11, 10, 9, 8, 16, 15, 14],
          [22, 21, 20, 17, 13, 12, 19, 18, 11, 10, 9, 8, 16, 15, 14], [24, 23]] := by
  intro program made
  have hafter : IdSupply.after? (some program.maxId) = some ⟨.ofNat 8⟩ := by decide
  have hroom : allocated made ≤ IdSupply.remaining ⟨.ofNat 8⟩ + 1 := by decide +kernel
  have honce : (made.flatMap Entry.parts).Nodup := by decide +kernel
  obtain ⟨hapart, hnew⟩ := entries_apart ⟨.ofNat 8⟩ identityScript hroom honce
  exact ⟨hafter, hroom, honce, hapart, hnew program hafter, by decide +kernel⟩

end Workbench

end TreeLang
