import TreeLang.Proofs.Scope.Registering

/-!
# Name resolution cut short

What a walk has noted stays noted: the entries of its tables, the declarations in its namespaces and
the identifiers that refer to nothing are still there at the end of any longer walk. The walk up to
a target is the whole one cut short, so its scope is within the one of the whole walk, and the
frames are those that the whole walk has on coming to the target.
-/

namespace TreeLang

/-- All that is noted in one scope is noted in another. -/
structure Scope.Within (earlier later : Scope) : Prop where
  patternFor : ∀ {id pattern}, earlier.patternFor id = some pattern →
    later.patternFor id = some pattern
  nameOf : ∀ {id name}, earlier.nameOf id = some name → later.nameOf id = some name
  typeParameters : ∀ {id names}, earlier.typeParameters.find id = some names →
    later.typeParameters.find id = some names
  qualifiedName : ∀ {id path}, earlier.qualifiedName id = some path →
    later.qualifiedName id = some path
  /-- What a path holds, it holds in both. -/
  declared : ∀ {path pattern}, earlier.space.pattern? path = some pattern →
    later.space.pattern? path = some pattern
  /-- The identifiers that refer to nothing are the first of those of the other scope. -/
  unresolved : earlier.unresolved <+: later.unresolved

namespace Resolver

/-- A longer run of actions gives what a shorter one gives, and more. -/
theorem gathered_subset {α : Type} {give : Resolver → Action → List α} (first second : List Action)
    (r : Resolver) : gathered give first r ⊆ gathered give (first ++ second) r := by
  rw [gathered_append]
  exact List.subset_append_left _ _

/-- A run of actions that note apart leaves a scope that any longer run contains. -/
theorem Action.Apart.within {first second : List Action} (h : Action.Apart (first ++ second)) :
    (performAll first {}).scope.Within (performAll (first ++ second) {}).scope := by
  have hfirst := (h.of_isPrefix (List.prefix_append first second)).holds
  have hboth := h.holds
  have hflatMap : ∀ {α : Type} (f : Action → List α),
      first.flatMap f ⊆ (first ++ second).flatMap f := by
    intro α f
    rw [List.flatMap_append]
    exact List.subset_append_left _ _
  have hopens : Namespace.Opens ({} : Resolver).path ({} : Resolver).scope.space :=
    Namespace.opens_nil _
  exact
    { patternFor := fun hfind =>
        hboth.patternFor_iff.2 (gathered_subset _ _ _ (hfirst.patternFor_iff.1 hfind))
      nameOf := fun hfind => hboth.nameOf_iff.2 (hflatMap _ (hfirst.nameOf_iff.1 hfind))
      typeParameters := fun hfind =>
        hboth.typeParameters_iff.2 (hflatMap _ (hfirst.typeParameters_iff.1 hfind))
      qualifiedName := fun hfind =>
        hboth.qualifiedName_iff.2 (gathered_subset _ _ _ (hfirst.qualifiedName_iff.1 hfind))
      declared := fun hheld => (pattern?_performAll_iff hopens).2
        (((pattern?_performAll_iff hopens).1 hheld).imp_right (gathered_subset _ _ _ ·))
      unresolved := by
        rw [hfirst.unresolved_eq, hboth.unresolved_eq, gathered_append]
        exact List.prefix_append _ _ }

/-- No action marks the target. -/
theorem reachedTarget_performAll (actions : List Action) (r : Resolver) :
    (performAll actions r).scope.reachedTarget = r.scope.reachedTarget := by
  induction actions generalizing r with
  | nil => rfl
  | cons action rest ih => exact (ih _).trans (r.notes_perform action).reachedTarget_eq

end Resolver

open Resolver (performAll performAll_append visitAll)

/-- Stopping at a target cuts the whole resolution short. When the target is not reached, the scope
is that of the whole one. When it is, all in the scope is in that of the whole one, and the frames
are those that the whole one finds on its first visit of the target. -/
theorem Program.resolve_cut_short {program : Program}
    (distinct : (program.nodes.map Node.id).Nodup) (target : NodeId) :
    ((program.resolve (some target)).reachedTarget = false →
      program.resolve (some target) = program.resolve none ∧
        ∀ visit ∈ program.resolutionVisits, visit.1.id ≠ target) ∧
    ((program.resolve (some target)).reachedTarget = true →
      (program.resolve (some target)).Within (program.resolve none) ∧
        ∃ before node state after,
          program.resolutionVisits = before ++ (node, ({} : Control), state) :: after ∧
          (∀ visit ∈ before, visit.1.id ≠ target) ∧ node.id = target ∧
          (program.resolve (some target)).values = state.scope.values ∧
          (program.resolve (some target)).types = state.scope.types) := by
  rw [program.resolutionVisits_eq]
  -- the target is not reached, or the run up to its first visit is a beginning of the whole one
  cases program.stopsShort target with
  | missed absent same =>
    refine ⟨fun _ => ⟨same, List.forall_mem_map.2 absent⟩, fun hreached => ?_⟩
    rw [same, program.resolve_none_eq_performAll, Resolver.reachedTarget_performAll] at hreached
    cases hreached
  | @reached before rest call split earlier there first state marked =>
    refine ⟨fun hmissed => ?_, fun _ => ⟨?_, ?_⟩⟩
    · rw [marked] at hmissed
      cases hmissed
    · -- the actions are those before the target and those from there on, each with ids of its own
      have hactions : program.outline.actions =
          before.flatMap Call.actions ++ (call :: rest).flatMap Call.actions := by
        rw [← List.flatMap_append, ← split, Outline.flatMap_actions_callsPre]
      have hapart := program.outline_faithful.apart distinct
      rw [hactions] at hapart
      rw [marked, state, program.resolve_none_eq_performAll, hactions]
      exact { hapart.within with }
    · refine ⟨before.map Call.seen, call.node, call.state, rest.map Call.seen, ?_,
        List.forall_mem_map.2 earlier, there, ?_, ?_⟩
      · rw [split, List.map_append, List.map_cons, Call.seen, first]
      · rw [marked]
        rfl
      · rw [marked]
        rfl

/-- Stopped at the `x` in the loop, the frames of the loop and of the function are still open, which
the whole walk has closed in the end; the names after the function are not known yet. A target that
is not in the program changes nothing. -/
theorem resolve_cut_short_shadowing :
    (shadowingProgram.nodes.map Node.id).Nodup ∧
      (shadowingProgram.resolve (some (.ofNat 18))).reachedTarget = true ∧
      (shadowingProgram.resolve (some (.ofNat 18))).Within (shadowingProgram.resolve none) ∧
      (∃ before node state after,
        shadowingProgram.resolutionVisits = before ++ (node, ({} : Control), state) :: after ∧
          node.id = .ofNat 18 ∧
          (shadowingProgram.resolve (some (.ofNat 18))).values = state.scope.values) ∧
      (shadowingProgram.resolve (some (.ofNat 18))).values.frames =
        [[("y", .ofNat 14)], [("x", .ofNat 11)], [("x", .ofNat 3), ("f", .ofNat 8)]] ∧
      (shadowingProgram.resolve none).values.frames = [[("x", .ofNat 3), ("f", .ofNat 8)]] ∧
      shadowingProgram.resolve (some (.ofNat 99)) = shadowingProgram.resolve none := by
  have hdistinct : (shadowingProgram.nodes.map Node.id).Nodup := by decide
  have hreached : (shadowingProgram.resolve (some (.ofNat 18))).reachedTarget = true := by decide
  obtain ⟨hwithin, before, node, state, after, hvisits, -, hnode, hvalues, -⟩ :=
    (Program.resolve_cut_short hdistinct (.ofNat 18)).2 hreached
  have hmissed : (shadowingProgram.resolve (some (.ofNat 99))).reachedTarget = false := by
    decide +kernel
  obtain ⟨hsame, -⟩ := (Program.resolve_cut_short hdistinct (.ofNat 99)).1 hmissed
  exact ⟨hdistinct, hreached, hwithin, ⟨before, node, state, after, hvisits, hnode, hvalues⟩,
    by decide +kernel, by decide +kernel, hsame⟩

end TreeLang
