import Mathlib.Data.List.Infix
import Mathlib.Data.List.TakeWhile
import TreeLang.Proofs.Scope.Suggestions
import TreeLang.Proofs.Tree.Stopping

/-!
# The actions of name resolution

What name resolution does at a node depends on the node alone: it performs a fixed list of actions
on the first visit and another one on the second. A walk over a program performs the actions of the
outline of the program, and a walk up to a target the first of them. Each action notes what it finds
under ids that no other action of its sort uses.
-/

namespace TreeLang

open Outline (callsPre callsPreAll tour tourAll)

namespace Resolver

/-- A step of name resolution. -/
inductive Action where
  | bindValue (pattern : Pattern)
  | bindType (pattern : Pattern)
  | nameOnly (pattern : Pattern)
  | noteTypeParameters (name : Pattern) (declaration : Declaration)
  | register (pattern : Pattern)
  | pushValues
  | popValues
  | pushTypes
  | popTypes
  | enterSpace (name : String)
  | leaveSpace
  | enterFunction
  | leaveFunction
  | resolve (id : NodeId) (used : Identifier)
  | resolvePath (id : NodeId) (path : List String)

/-- What an action does to the state of the walk. -/
def perform (r : Resolver) : Action → Resolver
  | .bindValue pattern => r.onScope (·.bindValue pattern)
  | .bindType pattern => r.onScope (·.bindType pattern)
  | .nameOnly pattern => r.onScope (·.nameOnly pattern)
  | .noteTypeParameters name declaration => r.onScope (·.noteTypeParameters name declaration)
  | .register pattern => r.register pattern
  | .pushValues => r.onScope Scope.pushValues
  | .popValues => r.onScope Scope.popValues
  | .pushTypes => r.onScope Scope.pushTypes
  | .popTypes => r.onScope Scope.popTypes
  | .enterSpace name => r.enterSpace name
  | .leaveSpace => r.leaveSpace
  | .enterFunction => { r with functionDepth := r.functionDepth + 1 }
  | .leaveFunction => { r with functionDepth := r.functionDepth - 1 }
  | .resolve id used => r.onScope (·.resolve id used)
  | .resolvePath id path => r.onScope (·.resolvePath id path)

/-- Performs some actions, one after the other. -/
def performAll (actions : List Action) (r : Resolver) : Resolver := actions.foldl perform r

/-- Actions are performed one after the other. -/
theorem performAll_append (first second : List Action) (r : Resolver) :
    performAll (first ++ second) r = performAll second (performAll first r) := List.foldl_append

end Resolver

open Resolver (Action perform performAll performAll_append visitAll)

/-! ## What is done at a node -/

/-- A parameter is bound. -/
def Parameter.actions : Parameter → List Action
  | .parameter _ _ localName _ _ => [.bindValue localName]
  | .placeholder _ => []

/-- A case is named and registered. -/
def EnumerationCase.actions : EnumerationCase → List Action
  | .case _ name _ => [.nameOnly name, .register name]
  | .placeholder _ => []

/-- Parameters are bound, and that is all that is done with them. -/
theorem Parameter.all_actions {p : Action → Bool} (h : ∀ name, p (.bindValue name) = true)
    (parameters : List Parameter) : (parameters.flatMap actions).all p = true := by
  rw [List.all_flatMap, List.all_eq_true]
  intro parameter _
  cases parameter with
  | parameter id externalName localName form defaultValue =>
    exact Bool.and_eq_true_iff.2 ⟨h localName, rfl⟩
  | placeholder id => rfl

/-- Cases are named and registered, and that is all that is done with them. -/
theorem EnumerationCase.all_actions {p : Action → Bool} (h : ∀ name, p (.nameOnly name) = true)
    (h' : ∀ name, p (.register name) = true) (cases : List EnumerationCase) :
    (cases.flatMap actions).all p = true := by
  rw [List.all_flatMap, List.all_eq_true]
  intro case _
  cases case with
  | case id name forms =>
    exact Bool.and_eq_true_iff.2 ⟨h name, Bool.and_eq_true_iff.2 ⟨h' name, rfl⟩⟩
  | placeholder id => rfl

/-- The actions before what is in a declaration. -/
def Declaration.entering (declaration : Declaration) : List Action :=
  match declaration with
  | .function _ name _ _ parameters _ =>
    [.bindValue name, .register name, .noteTypeParameters name declaration, .pushValues,
      .pushTypes] ++
      (parameters.flatMap Parameter.actions ++
        declaration.genericPatterns.map Action.bindType) ++ [.enterFunction]
  | .record _ name _ _ => [.bindType name, .noteTypeParameters name declaration]
  | .enumeration _ name _ _ => [.bindType name]
  | .space _ name _ => [.nameOnly name, .enterSpace name.name, .pushValues, .pushTypes]
  | .value _ _ _ _ | .library _ _ | .placeholder _ => []

/-- The actions after what is in a declaration. -/
def Declaration.leaving (declaration : Declaration) : List Action :=
  match declaration with
  | .function _ _ _ _ _ _ => [.leaveFunction, .popValues, .popTypes]
  | .value _ name _ _ => [.bindValue name, .register name]
  | .record _ name _ _ =>
    if name.name ∈ primitiveTypes then [] else [.bindValue name, .register name]
  | .enumeration _ name _ cases =>
    [.noteTypeParameters name declaration, .enterSpace name.name] ++
      (cases.flatMap EnumerationCase.actions ++ [.leaveSpace])
  | .space _ _ _ => [.leaveSpace, .popValues, .popTypes]
  | .library _ _ | .placeholder _ => []

/-- The actions of a visit of a node, the first or the second one. -/
def Node.actions : Node → (again : Bool) → List Action
  | .declaration d, false => d.entering
  | .declaration d, true => d.leaving
  | .statement (.loop _ bound _ _), false => [.pushValues, .bindValue bound]
  | .statement (.loop _ _ _ _), true => [.popValues]
  | .expression (.identifier id used), false => [.resolve id used]
  | .expression (.member id base name), false =>
    ((Expression.member id base name).memberPath.map (Action.resolvePath id)).toList
  | _, _ => []

/-- Whether the walk leaves out what is below a node. -/
def Node.isPassedBy : Node → Bool
  | .declaration (.record _ _ _ _) | .expression (.identifier _ _) | .typeForm _ => true
  | .expression (.member id base name) => (Expression.member id base name).memberPath.isSome
  | _ => false

namespace Resolver

/-- A fold of steps, each of them a run of actions, is a run of actions. -/
theorem foldl_eq_performAll {α : Type} {f : Resolver → α → Resolver} {actions : α → List Action}
    (h : ∀ r a, f r a = performAll (actions a) r) (l : List α) (r : Resolver) :
    l.foldl f r = performAll (l.flatMap actions) r := by
  induction l generalizing r with
  | nil => rfl
  | cons a rest ih => rw [List.foldl_cons, h, ih, List.flatMap_cons, performAll_append]

/-- Entering a declaration performs its first actions. -/
theorem enterDeclaration_eq_performAll (r : Resolver) (declaration : Declaration) :
    r.enterDeclaration declaration = performAll declaration.entering r := by
  cases declaration with
  | function id name result generics parameters block =>
    have hparameters : ∀ r, parameters.foldl bindParameter r =
        performAll (parameters.flatMap Parameter.actions) r :=
      foldl_eq_performAll (fun r parameter => by cases parameter <;> rfl) parameters
    have hgenerics : ∀ (patterns : List Pattern) (r : Resolver),
        patterns.foldl (fun r generic => r.onScope (·.bindType generic)) r =
          performAll (patterns.map Action.bindType) r := by
      intro patterns r
      rw [performAll, List.foldl_map]
      rfl
    simp only [enterDeclaration, Declaration.entering, performAll_append, hparameters, hgenerics]
    rfl
  | value | enumeration | record | space | library | placeholder => rfl

/-- Leaving a declaration performs its last actions. -/
theorem leaveDeclaration_eq_performAll (r : Resolver) (declaration : Declaration) :
    r.leaveDeclaration declaration = performAll declaration.leaving r := by
  cases declaration with
  | enumeration id name generics cases =>
    have hcases : ∀ r, cases.foldl registerCase r =
        performAll (cases.flatMap EnumerationCase.actions) r :=
      foldl_eq_performAll (fun r case => by cases case <;> rfl) cases
    simp only [leaveDeclaration, Declaration.leaving, performAll_append, hcases]
    rfl
  | record id name generics declarations =>
    rw [leaveDeclaration, Declaration.leaving]
    split <;> rfl
  | value | function | space | library | placeholder => rfl

/-- A visit performs the actions of the node. -/
theorem visitAll_eq_performAll (node : Node) (again : Bool) (r : Resolver) :
    (visitAll node { isRevisit := again } r).2 = performAll (node.actions again) r := by
  cases again with
  | true =>
    change r.leave node = _
    cases node with
    | declaration declaration => exact r.leaveDeclaration_eq_performAll declaration
    | statement statement => cases statement <;> rfl
    | expression expression => cases expression <;> rfl
    | program | pattern | identifier | typeForm | literal | parameter | generic | case | argument =>
      rfl
  | false =>
    change (enter node {} r).2 = _
    cases node with
    | declaration declaration => exact r.enterDeclaration_eq_performAll declaration
    | statement statement => cases statement <;> rfl
    | expression expression =>
      cases expression with
      | member id base name =>
        simp only [enter, Node.actions]
        cases (Expression.member id base name).memberPath <;> rfl
      | binary | identifier | call | literal | placeholder => rfl
    | program | pattern | identifier | typeForm | literal | parameter | generic | case | argument =>
      rfl

/-- A visit leaves out the children of exactly the nodes that are passed by. -/
theorem ignoreChildren_visitAll (node : Node) (r : Resolver) :
    (visitAll node {} r).1.ignoreChildren = node.isPassedBy := by
  change (enter node {} r).1.ignoreChildren = _
  cases node with
  | declaration declaration => cases declaration <;> rfl
  | statement statement => cases statement <;> rfl
  | expression expression =>
    cases expression with
    | member id base name =>
      simp only [enter, Node.isPassedBy]
      cases (Expression.member id base name).memberPath <;> rfl
    | binary | identifier | call | literal | placeholder => rfl
  | program | pattern | identifier | typeForm | literal | parameter | generic | case | argument =>
    rfl

/-- A node that is not visited again has nothing left to do. -/
theorem actions_true_of_not_needsRevisit {node : Node} {r : Resolver}
    (h : (visitAll node {} r).1.needsRevisit = false) : node.actions true = [] := by
  change (enter node {} r).1.needsRevisit = false at h
  cases node with
  | declaration declaration =>
    cases declaration with
    | library | placeholder => rfl
    | value | function | enumeration | record | space => cases h
  | statement statement =>
    cases statement with
    | loop => cases h
    | declaration | branch | expression | result | placeholder => rfl
  | expression expression => cases expression <;> rfl
  | program | pattern | identifier | typeForm | literal | parameter | generic | case | argument =>
    rfl

end Resolver

/-! ## What is done in an outline -/

/-- The actions of a call. -/
def Call.actions (call : Call Resolver) : List Action := call.node.actions call.again

/-- The answer to a call performs the actions of the call. -/
theorem Call.answer_eq_performAll (call : Call Resolver) :
    (call.answer visitAll).2 = performAll call.actions call.state :=
  Resolver.visitAll_eq_performAll call.node call.again call.state

/-- Calls that follow each other perform their actions. -/
theorem Call.Threaded.after_eq_performAll {calls : List (Call Resolver)} {r : Resolver}
    (h : Threaded visitAll calls r) :
    after visitAll calls r = performAll (calls.flatMap actions) r := by
  induction calls generalizing r with
  | nil => rfl
  | cons call rest ih =>
    obtain ⟨rfl, hrest⟩ := h
    rw [List.flatMap_cons, performAll_append, ← call.answer_eq_performAll, ← ih hrest]
    rfl

namespace Outline

mutual

/-- The actions of a walk: those at the node, those below it unless it is passed by, and those of a
second visit of the node. -/
def actions : Outline → List Action
  | .node item children =>
    item.actions false ++
      ((if item.isPassedBy then [] else actionsAll children) ++ item.actions true)

/-- The actions of walks over several outlines. -/
def actionsAll : List Outline → List Action
  | [] => []
  | outline :: rest => outline.actions ++ actionsAll rest

end

/-- The actions of several outlines are those of each, one after the other. -/
theorem actionsAll_eq_flatMap (outlines : List Outline) :
    actionsAll outlines = outlines.flatMap actions := by
  induction outlines with
  | nil => rfl
  | cons outline rest ih => rw [actionsAll, ih, List.flatMap_cons]

/-- The calls for several outlines perform the actions of each, if those for one outline do. -/
theorem flatMap_actions_callsPreAll {outlines : List Outline}
    (h : ∀ c ∈ outlines, ∀ r, (c.callsPre visitAll r).flatMap Call.actions = c.actions)
    (r : Resolver) :
    (callsPreAll visitAll outlines r).flatMap Call.actions = actionsAll outlines := by
  induction outlines generalizing r with
  | nil => rfl
  | cons c rest ih =>
    obtain ⟨hc, hrest⟩ := List.forall_mem_cons.1 h
    rw [callsPreAll, List.flatMap_append, hc, ih hrest, actionsAll]

/-- The calls of a walk perform the actions of the outline, whatever state they find. -/
theorem flatMap_actions_callsPre (outline : Outline) (r : Resolver) :
    (outline.callsPre visitAll r).flatMap Call.actions = outline.actions := by
  induction outline generalizing r with
  | node item children ih =>
    have hbelow : (callsBelow visitAll item children r).flatMap Call.actions =
        if item.isPassedBy then [] else actionsAll children := by
      rw [callsBelow, Resolver.ignoreChildren_visitAll]
      split
      · rfl
      · exact flatMap_actions_callsPreAll ih _
    have hagain : ∀ s, (if (visitAll item {} r).1.needsRevisit then
        [(⟨item, true, s⟩ : Call Resolver)] else []).flatMap Call.actions = item.actions true := by
      intro s
      split
      · exact List.append_nil _
      · next h => exact (Resolver.actions_true_of_not_needsRevisit (Bool.eq_false_iff.2 h)).symm
    rw [callsPre_node, List.flatMap_cons, List.flatMap_append, hbelow, hagain, actions,
      Call.actions]

/-- A tour performs the actions of the outline. -/
theorem tour_eq_performAll (outline : Outline) (r : Resolver) :
    outline.tour visitAll r = performAll outline.actions r := by
  obtain ⟨hthreaded, hafter⟩ : Call.Threaded visitAll (outline.callsPre visitAll r) r ∧ _ :=
    outline.threaded_callsPre r
  rw [← hafter, hthreaded.after_eq_performAll, flatMap_actions_callsPre]

end Outline

/-! ## What is done in a program -/

/-- The visits of a walk over a program that no target stops, with the states that they find. -/
def Program.resolutionVisits (program : Program) : List (Node × Control × Resolver) :=
  (program.outline.walk .pre visitAll.logged ({}, [])).2.2

/-- The visits of a program are the calls of a walk over its outline. -/
theorem Program.resolutionVisits_eq (program : Program) :
    program.resolutionVisits = (program.outline.callsPre visitAll {}).map Call.seen :=
  Outline.log_eq_map_seen Resolver.visitAll_neverStops program.outline {}

/-- The actions of the resolution of a program, up to a target if there is one. -/
def Program.resolutionActions (program : Program) : (target : Option NodeId) → List Action
  | none => program.outline.actions
  | some target =>
    ((program.outline.callsPre visitAll {}).takeWhile (·.node.id ≠ target)).flatMap Call.actions

/-- Without a target, resolving a program performs the actions of its outline. -/
theorem Program.resolve_none_eq_performAll (program : Program) :
    program.resolve none = (performAll program.outline.actions {}).scope := by
  rw [← Outline.tour_eq_performAll]
  exact congrArg Resolver.scope (program.walk_eq_tour Resolver.visitAll_neverStops {})

/-- How the resolution up to a target ends: the walk has come through the program without it, or it
has stopped at the first call at the target, in the state that the whole walk makes that call in. -/
inductive Program.StopsShort (program : Program) (target : NodeId) : Prop
  | missed (absent : ∀ call ∈ program.outline.callsPre visitAll {}, call.node.id ≠ target)
    (same : program.resolve (some target) = program.resolve none)
  | reached {before rest : List (Call Resolver)} {call : Call Resolver}
    (split : program.outline.callsPre visitAll {} = before ++ call :: rest)
    (earlier : ∀ c ∈ before, c.node.id ≠ target) (there : call.node.id = target)
    (first : call.again = false)
    (state : call.state = performAll (before.flatMap Call.actions) {})
    (marked : program.resolve (some target) = call.state.reach.scope)

/-- A walk with a target is a walk without one that stops short, if the target is come to at all. -/
theorem Program.stopsShort (program : Program) (target : NodeId) : program.StopsShort target := by
  obtain ⟨hthreaded, hafter⟩ :
      Call.Threaded visitAll (program.outline.callsPre visitAll {}) {} ∧ _ :=
    program.outline.threaded_callsPre _
  have hhalts : Halts Resolver.reach target visitAll (program.outline.callsPre visitAll {}) {}
      (program.outline.walkPre (Resolver.visit (some target)) {} {}) :=
    program.outline.halts_walkPre (Resolver.visit_stopsAt target) Resolver.visitAll_neverStops
      rfl {}
  have hresolve : program.resolve (some target) =
      (program.outline.walkPre (Resolver.visit (some target)) {} {}).2.scope := rfl
  generalize program.outline.walkPre (Resolver.visit (some target)) {} {} = left at hhalts hresolve
  cases hhalts with
  | missed going absent =>
    refine .missed absent ?_
    rw [hresolve, hafter, Outline.tour_eq_performAll, program.resolve_none_eq_performAll]
  | @reached control before rest call stopped split earlier there first =>
    rw [split] at hthreaded
    have hbefore : Call.Threaded visitAll before {} := hthreaded.of_append
    refine .reached split earlier there first ?_ hresolve
    rw [hthreaded.state_eq_after, hbefore.after_eq_performAll]

/-- The resolution of a program performs its actions, and may mark the target. -/
theorem Program.resolve_eq_performAll (program : Program) (target : Option NodeId) :
    ∃ reached, program.resolve target =
      { (performAll (program.resolutionActions target) {}).scope with
        reachedTarget := reached } := by
  cases target with
  | none => exact ⟨_, program.resolve_none_eq_performAll⟩
  | some target =>
    cases program.stopsShort target with
    | missed absent same =>
      have hall : (program.outline.callsPre visitAll {}).takeWhile (·.node.id ≠ target) =
          program.outline.callsPre visitAll {} := by
        rw [List.takeWhile_eq_self_iff]
        exact fun call hcall => decide_eq_true (absent call hcall)
      rw [resolutionActions, hall, Outline.flatMap_actions_callsPre, same]
      exact ⟨_, program.resolve_none_eq_performAll⟩
    | @reached before rest call split earlier there first state marked =>
      have hbefore : (program.outline.callsPre visitAll {}).takeWhile (·.node.id ≠ target) =
          before := by
        rw [split, List.takeWhile_append_of_pos fun c hc => decide_eq_true (earlier c hc),
          List.takeWhile_cons_of_neg (by simpa using there), List.append_nil]
      refine ⟨true, ?_⟩
      rw [marked, state, resolutionActions, hbefore]
      rfl

/-- The actions up to a target are the first ones of all. -/
theorem Program.resolutionActions_isPrefix (program : Program) (target : Option NodeId) :
    program.resolutionActions target <+: program.outline.actions := by
  cases target with
  | none => exact List.prefix_rfl
  | some target =>
    rw [← program.outline.flatMap_actions_callsPre {}]
    exact (List.takeWhile_prefix _).flatMap _

end TreeLang
