import TreeLang.Proofs.Scope.Containment
import TreeLang.Proofs.Typing.Recording
import TreeLang.Proofs.Typing.Rescoping

/-!
# Programs that go on

Statements at the end of a program do not disturb what is found out about the statements before
them. Name resolution has done all its work there when it comes to the new ones. Inference then asks
another scope, that of the longer program, but this scope refers to the same from every expression
of the program, since what it holds beside that is noted under ids of the new statements.
-/

namespace TreeLang

open Generator (Extends visit)
open Outline (tourAll)
open Resolver (gathered performAll targetsOf targetsOf_sublist)

/-- The program with more statements at its end. -/
def Program.extend (program : Program) (more : List Statement) : Program :=
  { program with block := program.block ++ more }

/-- All that is found by one inference is found by another. -/
structure Inference.Within (earlier later : Inference) : Prop where
  nodeTerms : ∀ {id term}, earlier.nodeTerms.find id = some term →
    later.nodeTerms.find id = some term
  patternTerms : ∀ {id term}, earlier.patternTerms.find id = some term →
    later.patternTerms.find id = some term
  /-- The constraints are the first ones of the other inference. -/
  constraints : earlier.constraints <+: later.constraints
  /-- The errors are the first ones of the other inference. -/
  errors : earlier.errors <+: later.errors

variable {program : Program} {more : List Statement}

/-! ## The walk goes on -/

namespace Program

/-- The outlines of a longer program are those of the program and of what is appended. -/
theorem outlines_extend (program : Program) (more : List Statement) :
    Statement.outlines (program.extend more).block =
      Statement.outlines program.block ++ Statement.outlines more :=
  Statement.outlines_append program.block more

/-- The ids of a longer program are those of the program and of what is appended. -/
theorem ids_extend (program : Program) (more : List Statement) :
    (program.extend more).outline.ids =
      program.outline.ids ++ (Statement.outlines more).flatMap Outline.ids := by
  rw [outline, outline, Outline.ids_node, Outline.ids_node, outlines_extend, List.flatMap_append]
  rfl

/-- What is done in a longer program is done in the program, and then in what is appended. -/
theorem actions_extend (program : Program) (more : List Statement) :
    (program.extend more).outline.actions =
      program.outline.actions ++ (Statement.outlines more).flatMap Outline.actions := by
  have hactions : ∀ program : Program, program.outline.actions =
      (Statement.outlines program.block).flatMap Outline.actions := by
    intro program
    rw [← Outline.actionsAll_eq_flatMap]
    exact List.append_nil _
  rw [hactions, hactions, outlines_extend, List.flatMap_append]

/-- A tour of a longer program goes on after that of the program. -/
theorem tour_extend (program : Program) (more : List Statement) (g : Generator) :
    (program.extend more).outline.tour visit g =
      tourAll visit (Statement.outlines more) (program.outline.tour visit g) := by
  have htour : ∀ program : Program, program.outline.tour visit g =
      tourAll visit (Statement.outlines program.block) g := fun _ => rfl
  rw [htour, htour, outlines_extend, Outline.tourAll_append]

/-- Inference is a tour of the program that starts with the scope. -/
theorem infer_eq_tour (program : Program) (scope : Scope) :
    program.infer scope = (program.outline.tour visit { scope }).inference := by
  rw [infer, program.walk_eq_tour Generator.visit_neverStops]

/-! ## Name resolution -/

/-- The ids of the new statements are not in the program. -/
theorem disjoint_extend (distinct : ((program.extend more).nodes.map Node.id).Nodup) :
    List.Disjoint program.outline.ids ((Statement.outlines more).flatMap Outline.ids) := by
  have hids : (program.extend more).outline.ids.Nodup := distinct
  rw [ids_extend, List.nodup_append'] at hids
  exact hids.2.2

/-- With distinct ids the actions of a longer program note apart. -/
theorem apart_extend (distinct : ((program.extend more).nodes.map Node.id).Nodup) :
    Resolver.Action.Apart
      (program.outline.actions ++ (Statement.outlines more).flatMap Outline.actions) :=
  actions_extend program more ▸ (program.extend more).outline_faithful.apart distinct

/-- Name resolution of a program is kept by that of a longer one. -/
theorem resolve_within_extend (distinct : ((program.extend more).nodes.map Node.id).Nodup) :
    (program.resolve none).Within ((program.extend more).resolve none) := by
  rw [resolve_none_eq_performAll, resolve_none_eq_performAll, actions_extend]
  exact (apart_extend distinct).within

/-- From the nodes of the program, the scope of the longer one refers to nothing else. -/
theorem patternFor_extend (distinct : ((program.extend more).nodes.map Node.id).Nodup)
    {id : NodeId} (hid : id ∈ program.outline.ids) :
    ((program.extend more).resolve none).patternFor id = (program.resolve none).patternFor id := by
  have hboth := apart_extend distinct
  have hholds := (hboth.of_isPrefix (List.prefix_append _ _)).holds
  ext pattern
  refine ⟨fun hlater => ?_, (resolve_within_extend distinct).patternFor⟩
  rw [resolve_none_eq_performAll, actions_extend, hboth.holds.patternFor_iff,
    Resolver.gathered_append, List.mem_append] at hlater
  rw [resolve_none_eq_performAll, hholds.patternFor_iff]
  refine hlater.resolve_right fun hnew => ?_
  -- an entry from the new statements would be noted under one of their ids
  have hkey := Resolver.mem_keys_of_mem_gathered targetsOf_sublist hnew
  rw [List.flatMap_assoc, List.mem_flatMap] at hkey
  obtain ⟨c, hc, hkey⟩ := hkey
  have hfaithful := Statement.outlines_faithful more c hc
  exact disjoint_extend distinct hid
    (List.mem_flatMap.2 ⟨c, hc, Note.mem_all_iff.1 (hfaithful.keys_subperm.subset hkey)⟩)

end Program

/-! ## Inference -/

namespace Generator.Extends

variable {typed declared : List NodeId} {scope : Scope} {g : Generator} {id : NodeId} {term : Term}

/-- Where nothing was known, terms are known at the given ids only. -/
theorem mem_typed (h : Extends typed declared { scope } g) (hterm : g.nodeTerm id = some term) :
    id ∈ typed := by
  by_contra hid
  cases (h.nodes id hid).symm.trans hterm

/-- What is declared at the end of a tour was declared in the outline. -/
theorem mem_declared (h : Extends typed declared { scope } g)
    (hterm : g.patternTerm id = some term) : id ∈ declared := by
  by_contra hid
  cases (h.patterns id hid).symm.trans hterm

end Generator.Extends

/-- What is found for the statements of a program is found for them in the longer program. -/
theorem Program.infer_within_extend (distinct : ((program.extend more).nodes.map Node.id).Nodup) :
    (program.infer (program.resolve none)).Within
      ((program.extend more).infer ((program.extend more).resolve none)) := by
  set scope := program.resolve none
  set later := (program.extend more).resolve none
  have hdisjoint := disjoint_extend distinct
  -- the walk over the program does the same under the scope of the longer one
  have hunder : program.outline.tour visit { scope := later } =
      (program.outline.tour visit { scope }).under later := by
    have hstart : ({ scope := later } : Generator) = .under later { scope } := rfl
    rw [hstart]
    exact Outline.tour_under fun e he => patternFor_extend distinct (Outline.mem_ids.2 ⟨_, he, rfl⟩)
  have hstarted := program.outline_faithful.extends_tour { scope }
  rw [infer_eq_tour, infer_eq_tour, tour_extend, hunder]
  generalize program.outline.tour visit { scope } = g at hstarted
  -- the walk over the new statements gives terms to them only
  have hfaithful := Statement.outlines_faithful more
  have hmore := Outline.extends_tourAll (fun c hc => (hfaithful c hc).extends_tour) (g.under later)
  refine ⟨fun {id term} hterm => ?_, fun {id term} hterm => ?_, hmore.constrained, hmore.reported⟩
  · exact (hmore.nodes id (hdisjoint (hstarted.mem_typed hterm))).trans hterm
  · have hid := program.outline_faithful.declared_subset_ids (hstarted.mem_declared hterm)
    refine (hmore.patterns id fun hnew => ?_).trans hterm
    exact hdisjoint hid (Outline.flatMap_declared_subset_ids hfaithful hnew)

/-- Statements at the end of a program do not disturb the analysis of those before them: all that is
known of the program and all that is inferred for it is known and inferred in the longer one too. -/
theorem Program.analysis_within_extend {program : Program} {more : List Statement}
    (distinct : ((program.extend more).nodes.map Node.id).Nodup) :
    (program.resolve none).Within ((program.extend more).resolve none) ∧
      (program.infer (program.resolve none)).Within
        ((program.extend more).infer ((program.extend more).resolve none)) :=
  ⟨resolve_within_extend distinct, infer_within_extend distinct⟩

/-- `late()`, then `func same<T>(x: T) -> T { return x }`, and `same(late)`. -/
def earlyProgram : Program where
  id := .ofNat 0
  block := [
    .expression (.ofNat 1) (.call (.ofNat 2) (.identifier (.ofNat 3) ⟨.ofNat 4, "late", false⟩) []),
    .declaration (.ofNat 5) (.function (.ofNat 6) ⟨.ofNat 7, "same"⟩
      (.named (.ofNat 8) ⟨.ofNat 9, "T", false⟩ [])
      [.parameter (.ofNat 10) ⟨.ofNat 11, "T"⟩]
      [.parameter (.ofNat 12) none ⟨.ofNat 13, "x"⟩
        (.named (.ofNat 14) ⟨.ofNat 15, "T", false⟩ []) none]
      [.result (.ofNat 16) (.identifier (.ofNat 17) ⟨.ofNat 18, "x", false⟩)]),
    .expression (.ofNat 19) (.call (.ofNat 20) (.identifier (.ofNat 21) ⟨.ofNat 22, "same", false⟩)
      [.argument (.ofNat 23) none (.identifier (.ofNat 24) ⟨.ofNat 25, "late", false⟩)])]

/-- `func late() -> _ {}`, and `late()` once more. -/
def lateStatements : List Statement := [
  .declaration (.ofNat 26) (.function (.ofNat 27) ⟨.ofNat 28, "late"⟩ (.placeholder (.ofNat 29)) []
    [] []),
  .expression (.ofNat 30) (.call (.ofNat 31) (.identifier (.ofNat 32) ⟨.ofNat 33, "late", false⟩)
    [])]

/-- A function that is declared at the end is known to the call after it, and to no use before: the
first call stays an error, and the variables of the terms keep their names. -/
theorem analysis_within_extend_early :
    ((earlyProgram.extend lateStatements).nodes.map Node.id).Nodup ∧
      (earlyProgram.resolve none).Within ((earlyProgram.extend lateStatements).resolve none) ∧
      (earlyProgram.infer (earlyProgram.resolve none)).Within
        ((earlyProgram.extend lateStatements).infer
          ((earlyProgram.extend lateStatements).resolve none)) ∧
      (earlyProgram.resolve none).unresolved = [.ofNat 3, .ofNat 24] ∧
      (earlyProgram.infer (earlyProgram.resolve none)).errors =
        [.notAFunction (.ofNat 2) (some (.evar "1"))] ∧
      (earlyProgram.infer (earlyProgram.resolve none)).constraints =
        [⟨.gen "T2", .evar "3"⟩, ⟨.evar "4", .evar "5"⟩] ∧
      ((earlyProgram.extend lateStatements).resolve none).unresolved = [.ofNat 3, .ofNat 24] ∧
      ((earlyProgram.extend lateStatements).resolve none).patternFor (.ofNat 32) =
        some (.ofNat 28) := by
  have hdistinct : ((earlyProgram.extend lateStatements).nodes.map Node.id).Nodup := by decide
  obtain ⟨hscope, hinference⟩ := Program.analysis_within_extend hdistinct
  exact ⟨hdistinct, hscope, hinference, by decide +kernel, by decide +kernel, by decide +kernel,
    by decide +kernel, by decide +kernel⟩

end TreeLang
