import TreeLang.Proofs.Scope.Hiding

/-!
# What the blocks of functions leave in the namespaces

Nothing that is declared in the block of a function is registered, so the table of paths and the
declarations in the namespaces are the same when all blocks of functions are emptied. Namespaces are
made in such blocks all the same, for enumerations and for namespaces that are declared there: these
are all that is there more. Where no block makes one, the namespaces are the same.
-/

namespace TreeLang

open Resolver (Action performAll gathered gathered_append registrationsOf local_registrationsOf
  pathsOf Place spacesInside local_spacesInside spacesInside_of_isStill registrationsOutside
  local_registrationsOutside gathered_registrationsOutside gathered_eq_nil_of_all
  registrationsOf_of_stays registrationsOutside_of_stays)

/-! ## Emptied blocks -/

mutual

/-- The statement with nothing in the blocks of its functions. -/
def Statement.bodiless : Statement → Statement
  | .declaration id content => .declaration id content.bodiless
  | .branch id condition block => .branch id condition (Statement.bodilessAll block)
  | .loop id pattern iterated block => .loop id pattern iterated (Statement.bodilessAll block)
  | .expression id expression => .expression id expression
  | .result id expression => .result id expression
  | .placeholder id => .placeholder id

/-- The declaration with nothing in the blocks of its functions. -/
def Declaration.bodiless : Declaration → Declaration
  | .function id name result generics parameters _ =>
    .function id name result generics parameters []
  | .record id name generics declarations =>
    .record id name generics (Declaration.bodilessAll declarations)
  | .space id name declarations => .space id name (Declaration.bodilessAll declarations)
  | .value id name form initializer => .value id name form initializer
  | .enumeration id name generics cases => .enumeration id name generics cases
  | .library id name => .library id name
  | .placeholder id => .placeholder id

/-- The statements with nothing in the blocks of their functions. -/
def Statement.bodilessAll : List Statement → List Statement
  | [] => []
  | statement :: rest => statement.bodiless :: Statement.bodilessAll rest

/-- The declarations with nothing in the blocks of their functions. -/
def Declaration.bodilessAll : List Declaration → List Declaration
  | [] => []
  | declaration :: rest => declaration.bodiless :: Declaration.bodilessAll rest

end

/-- The program with nothing in the blocks of its functions. -/
def Program.bodiless (program : Program) : Program :=
  { program with block := Statement.bodilessAll program.block }

/-! ## Namespaces in functions -/

mutual

/-- The paths of the namespaces that a statement in a place makes inside of functions. -/
def Statement.hiddenSpaces (place : Place) : Statement → List (List String)
  | .declaration _ content => content.hiddenSpaces place
  | .branch _ _ block | .loop _ _ _ block => Statement.hiddenSpacesAll place block
  | .expression _ _ | .result _ _ | .placeholder _ => []

/-- The paths of the namespaces that a declaration in a place makes inside of functions. -/
def Declaration.hiddenSpaces (place : Place) : Declaration → List (List String)
  | .function _ _ _ _ _ block => Statement.hiddenSpacesAll ⟨place.path, place.depth + 1⟩ block
  | .enumeration _ name _ _ => place.hidden name.name
  | .space _ name declarations =>
    place.hidden name.name ++
      Declaration.hiddenSpacesAll ⟨place.path ++ [name.name], place.depth⟩ declarations
  | .value _ _ _ _ | .record _ _ _ _ | .library _ _ | .placeholder _ => []

/-- The paths of the namespaces that a block in a place makes inside of functions. -/
def Statement.hiddenSpacesAll (place : Place) : List Statement → List (List String)
  | [] => []
  | statement :: rest => statement.hiddenSpaces place ++ Statement.hiddenSpacesAll place rest

/-- The paths of the namespaces that declarations in a place make inside of functions. -/
def Declaration.hiddenSpacesAll (place : Place) : List Declaration → List (List String)
  | [] => []
  | declaration :: rest =>
    declaration.hiddenSpaces place ++ Declaration.hiddenSpacesAll place rest

end

/-- The paths of the namespaces that a program makes inside of its functions: those of the
enumerations and the namespaces that are declared there. -/
def Program.hiddenSpaces (program : Program) : List (List String) :=
  Statement.hiddenSpacesAll ⟨[], 0⟩ program.block

/-! ## Syntax with emptied blocks -/

/-- A use of a name stays in its place. -/
theorem Resolver.Action.stays_of_isUse {action : Action} (h : action.isUse = true) :
    action.stays = true := by
  cases action with
  | resolve | resolvePath => rfl
  | _ => cases h

/-- An action that stays in its place does not change the number of functions around. -/
theorem Resolver.Action.isLevel_of_stays {action : Action} (h : action.stays = true) :
    action.isLevel = true := by
  cases action with
  | enterFunction | leaveFunction => cases h
  | _ => rfl

/-- Expressions stay in their place. -/
theorem Expression.all_stays (expression : Expression) :
    expression.outline.actions.all Action.stays = true :=
  List.all_eq_true.2 fun action haction =>
    Action.stays_of_isUse (List.all_eq_true.1 expression.all_isUse action haction)

/-- What stands in front of the block of a function stays in its place. -/
theorem Parameter.all_stays (parameter : Parameter) :
    parameter.outline.actions.all Action.stays = true := by
  cases parameter with
  | parameter id label name form default =>
    have hform : form.outline.actions = [] := by cases form <;> rfl
    cases default with
    | none =>
      change (form.outline.actions ++ [] ++ []).all Action.stays = true
      rw [hform]
      rfl
    | some default =>
      change (form.outline.actions ++ (default.outline.actions ++ []) ++ []).all Action.stays = true
      rw [hform, List.nil_append, List.append_nil, List.append_nil]
      exact default.all_stays
  | placeholder id => rfl

/-- Actions that stay in their place do not change the number of functions around. -/
theorem Resolver.Action.all_isLevel_of_stays {actions : List Action}
    (h : actions.all Action.stays = true) : actions.all Action.isLevel = true :=
  List.all_eq_true.2 fun action haction => isLevel_of_stays (List.all_eq_true.1 h action haction)

/-- What is declared as a variable is bound and registered after what stands in its declaration. -/
theorem Declaration.exists_actions_value (id : NodeId) (name : Pattern) (form : Option TypeForm)
    (initializer : Option Expression) :
    ∃ first : List Action, first.all Action.stays = true ∧
      (Declaration.value id name form initializer).outline.actions =
        first ++ [.bindValue name, .register name] := by
  have hform : (form.map TypeForm.outline).toList.flatMap Outline.actions = [] := by
    cases form with
    | none => rfl
    | some form =>
      rw [Option.map_some, Option.toList_some, List.flatMap_singleton, form.actions_outline]
  have hinitializer : ((initializer.map Expression.outline).toList.flatMap Outline.actions).all
      Action.stays = true := by
    cases initializer with
    | none => rfl
    | some initializer =>
      rw [Option.map_some, Option.toList_some, List.flatMap_singleton]
      exact initializer.all_stays
  refine ⟨_, hinitializer, ?_⟩
  change Outline.actionsAll ((form.map TypeForm.outline).toList ++
    (initializer.map Expression.outline).toList) ++ _ = _
  rw [Outline.actionsAll_eq_flatMap, List.flatMap_append, hform, List.nil_append]
  rfl

/-- An enumeration binds its name and is then left: there is nothing in it that is visited. -/
theorem Declaration.actions_enumeration (id : NodeId) (name : Pattern)
    (generics : List GenericParameter) (cases : List EnumerationCase) :
    (Declaration.enumeration id name generics cases).outline.actions =
      .bindType name :: (Declaration.enumeration id name generics cases).leaving := by
  have hbelow : Outline.actionsAll (name.outline :: (generics.map GenericParameter.outline ++
      cases.map EnumerationCase.outline)) = [] := by
    rw [Outline.actionsAll_eq_flatMap, List.flatMap_eq_nil_iff]
    refine List.forall_mem_cons.2 ⟨rfl, List.forall_mem_append.2 ⟨?_, ?_⟩⟩
    · exact List.forall_mem_map.2 fun generic _ => generic.actions_outline
    · exact List.forall_mem_map.2 fun case _ => case.actions_outline
  change [Action.bindType name] ++ (Outline.actionsAll (name.outline ::
    (generics.map GenericParameter.outline ++ cases.map EnumerationCase.outline)) ++ _) = _
  rw [hbelow]
  rfl

/-- A function is bound and registered, then its parameters are bound, and then the walk goes into
it. What it does there apart from its block stays in its place. -/
theorem Declaration.exists_actions_function (id : NodeId) (name : Pattern) (result : TypeForm)
    (generics : List GenericParameter) (parameters : List Parameter) (block : List Statement) :
    ∃ bound header : List Action, bound.all Action.stays = true ∧ header.all Action.stays = true ∧
      (Declaration.function id name result generics parameters block).outline.actions =
        [.bindValue name, .register name] ++ (bound ++
          ((.enterFunction ::
            ((header ++ Outline.actionsAll (Statement.outlines block)) ++ [.leaveFunction])) ++
          [.popValues, .popTypes])) := by
  -- `bound` is what is noted, opened and bound for the parameters, and `header` what the walk does
  -- at the parameters themselves
  refine ⟨[.noteTypeParameters name (.function id name result generics parameters block),
    .pushValues, .pushTypes] ++ (parameters.flatMap Parameter.actions ++
      (Declaration.function id name result generics parameters block).genericPatterns.map
        Action.bindType),
    (parameters.map Parameter.outline).flatMap Outline.actions, ?_, ?_, ?_⟩
  · have hparameters : (parameters.flatMap Parameter.actions).all Action.stays = true :=
      Parameter.all_actions (fun _ => rfl) parameters
    rw [List.all_append, List.all_append, hparameters]
    simp [Action.stays]
  · rw [List.all_flatMap, List.all_map, List.all_eq_true]
    exact fun parameter _ => parameter.all_stays
  · -- names, types and generic parameters are passed by without an action
    have hheader : Outline.actionsAll (name.outline :: result.outline ::
        (generics.map GenericParameter.outline ++ (parameters.map Parameter.outline ++
          Statement.outlines block))) =
        (parameters.map Parameter.outline).flatMap Outline.actions ++
          Outline.actionsAll (Statement.outlines block) := by
      have hgenerics : (generics.map GenericParameter.outline).flatMap Outline.actions = [] := by
        rw [List.flatMap_map, List.flatMap_eq_nil_iff]
        exact fun generic _ => generic.actions_outline
      rw [Outline.actionsAll, Outline.actionsAll, result.actions_outline,
        Outline.actionsAll_eq_flatMap, List.flatMap_append, List.flatMap_append, hgenerics,
        Outline.actionsAll_eq_flatMap]
      rfl
    change (Declaration.function id name result generics parameters block).entering ++
      (Outline.actionsAll (name.outline :: result.outline ::
        (generics.map GenericParameter.outline ++ (parameters.map Parameter.outline ++
          Statement.outlines block))) ++
      (Declaration.function id name result generics parameters block).leaving) = _
    rw [hheader]
    simp only [Declaration.entering, Declaration.leaving, List.append_assoc, List.cons_append,
      List.nil_append]

/-! ## What is registered with emptied blocks -/

section Bodiless

variable {α : Type} {give : Resolver → Action → List α} {r : Resolver}

/-- What is given for a function is given for its name, and for what the walk does in it. -/
theorem Resolver.Local.gathered_function (hlocal : Resolver.Local give)
    (hgive : ∀ (r : Resolver) {action : Action}, action.stays = true → give r action = [])
    (id : NodeId) (name : Pattern) (result : TypeForm) (generics : List GenericParameter)
    (parameters : List Parameter) (block : List Statement) (r : Resolver) :
    ∃ header : List Action, header.all Action.stays = true ∧
      gathered give (Declaration.function id name result generics parameters block).outline.actions
          r =
        gathered give [.bindValue name, .register name] r ++
          gathered give (.enterFunction ::
            ((header ++ Outline.actionsAll (Statement.outlines block)) ++ [.leaveFunction])) r := by
  obtain ⟨bound, header, hbound, hheader, heq⟩ :=
    Declaration.exists_actions_function id name result generics parameters block
  have hbelow : Action.Bracketed (header ++ Outline.actionsAll (Statement.outlines block)) :=
    (Action.Bracketed.of_stays hheader).append (Outline.bracketedAll _)
  have hclose : [Action.popValues, .popTypes].all Action.stays = true := rfl
  refine ⟨header, hheader, ?_⟩
  rw [heq, hlocal.gathered_bracketed_append (.of_all rfl),
    hlocal.gathered_bracketed_append (.of_stays hbound), gathered_eq_nil_of_all hgive hbound,
    List.nil_append, hlocal.gathered_bracketed_append hbelow.function,
    gathered_eq_nil_of_all hgive hclose, List.append_nil]

/-- In a function whose block is empty nothing is registered. -/
theorem Resolver.gathered_registrationsOf_header {header : List Action}
    (h : header.all Action.stays = true) (r : Resolver) :
    gathered registrationsOf
      (.enterFunction :: ((header ++ Outline.actionsAll (Statement.outlines [])) ++
        [.leaveFunction])) r = [] := by
  rw [gathered, gathered_append, gathered_append, gathered_eq_nil_of_all registrationsOf_of_stays h]
  rfl

/-- In a function nothing is registered outside of functions. -/
theorem Resolver.gathered_registrationsOutside_function {below : List Action}
    (h : Action.Bracketed below) (r : Resolver) :
    gathered registrationsOutside (.enterFunction :: (below ++ [.leaveFunction])) r = [] := by
  have hinside : 0 < (r.perform .enterFunction).functionDepth := Nat.succ_pos _
  have hnone : ∀ r : Resolver, 0 < r.functionDepth → ∀ action, r.registrationsOutside action = [] :=
    fun r hdepth action => if_pos hdepth
  have hsteps : ∀ r : Resolver, r.registrationsOutside .enterFunction = [] ∧
      r.registrationsOutside .leaveFunction = [] := fun r => ⟨ite_self _, ite_self _⟩
  rw [gathered, (hsteps r).1, gathered_append, h.gathered_eq_nil hnone hinside, gathered,
    (hsteps _).2, gathered]
  rfl

mutual

/-- With emptied blocks, what is registered is what is registered outside of functions. -/
theorem Statement.registrations_bodiless : (statement : Statement) → {r : Resolver} →
    r.functionDepth = 0 →
      gathered registrationsOf statement.bodiless.outline.actions r =
        gathered registrationsOutside statement.outline.actions r
  | .declaration id content, r, hdepth => by
    -- a declaration's statement does nothing of its own
    change gathered registrationsOf (content.bodiless.outline.actions ++ [] ++ []) r =
      gathered registrationsOutside (content.outline.actions ++ [] ++ []) r
    rw [List.append_nil, List.append_nil, List.append_nil, List.append_nil]
    exact content.registrations_bodiless hdepth
  | .branch id condition block, r, hdepth => by
    -- an expression registers nothing, inside or outside
    have hcondition := Action.all_isLevel_of_stays condition.all_stays
    change gathered registrationsOf (condition.outline.actions ++
        Outline.actionsAll (Statement.outlines (Statement.bodilessAll block)) ++ []) r =
      gathered registrationsOutside (condition.outline.actions ++
        Outline.actionsAll (Statement.outlines block) ++ []) r
    rw [List.append_nil, List.append_nil,
      local_registrationsOf.gathered_bracketed_append condition.outline.bracketed,
      local_registrationsOutside.gathered_bracketed_append condition.outline.bracketed,
      gathered_registrationsOutside hcondition hdepth,
      Statement.registrations_bodilessAll block hdepth]
  | .loop id bound iterated block, r, hdepth => by
    have hiterated := Action.all_isLevel_of_stays iterated.all_stays
    -- what opens and closes a loop stays in its place, so that only the block is left to compare
    have hopen : [Action.pushValues, .bindValue bound].all Action.stays = true := rfl
    have hclose : [Action.popValues].all Action.stays = true := rfl
    rw [Statement.bodiless, Statement.actions_loop, Statement.actions_loop,
      local_registrationsOf.gathered_bracketed_append (.of_stays hopen),
      local_registrationsOutside.gathered_bracketed_append (.of_stays hopen),
      local_registrationsOf.gathered_bracketed_append iterated.outline.bracketed,
      local_registrationsOutside.gathered_bracketed_append iterated.outline.bracketed,
      local_registrationsOf.gathered_bracketed_append (Outline.bracketedAll _),
      local_registrationsOutside.gathered_bracketed_append (Outline.bracketedAll _),
      gathered_registrationsOutside hiterated hdepth,
      Statement.registrations_bodilessAll block hdepth,
      gathered_eq_nil_of_all registrationsOf_of_stays hopen,
      gathered_eq_nil_of_all registrationsOutside_of_stays hopen,
      gathered_eq_nil_of_all registrationsOf_of_stays hclose,
      gathered_eq_nil_of_all registrationsOutside_of_stays hclose]
  | .expression id expression, r, hdepth | .result id expression, r, hdepth => by
    have hexpression := Action.all_isLevel_of_stays expression.all_stays
    change gathered registrationsOf (expression.outline.actions ++ [] ++ []) r =
      gathered registrationsOutside (expression.outline.actions ++ [] ++ []) r
    rw [List.append_nil, List.append_nil, gathered_registrationsOutside hexpression hdepth]
  | .placeholder id, r, hdepth => rfl

/-- Outside of functions a declaration with emptied blocks registers what it registers outside of
functions with full ones. -/
theorem Declaration.registrations_bodiless : (declaration : Declaration) → {r : Resolver} →
    r.functionDepth = 0 →
      gathered registrationsOf declaration.bodiless.outline.actions r =
        gathered registrationsOutside declaration.outline.actions r
  | .value id name form initializer, r, hdepth => by
    obtain ⟨first, hfirst, heq⟩ := Declaration.exists_actions_value id name form initializer
    have hall : (first ++ [Action.bindValue name, .register name]).all Action.isLevel = true := by
      rw [List.all_append, Action.all_isLevel_of_stays hfirst]
      rfl
    rw [Declaration.bodiless, heq, gathered_registrationsOutside hall hdepth]
  | .function id name result generics parameters block, r, hdepth => by
    obtain ⟨header, hheader, heq⟩ := local_registrationsOf.gathered_function
      registrationsOf_of_stays id name result generics parameters [] r
    obtain ⟨header', hheader', heq'⟩ := local_registrationsOutside.gathered_function
      registrationsOutside_of_stays id name result generics parameters block r
    have hbelow : Action.Bracketed (header' ++ Outline.actionsAll (Statement.outlines block)) :=
      (Action.Bracketed.of_stays hheader').append (Outline.bracketedAll _)
    rw [Declaration.bodiless, heq, heq', Resolver.gathered_registrationsOf_header hheader,
      Resolver.gathered_registrationsOutside_function hbelow,
      gathered_registrationsOutside rfl hdepth]
  | .enumeration id name generics cases, r, hdepth => by
    have hleaving : ((Node.declaration (.enumeration id name generics cases)).actions true).all
      Action.isLevel = true := Node.all_isLevel rfl true
    have hall : (Declaration.enumeration id name generics cases).outline.actions.all
        Action.isLevel = true := by
      rw [Declaration.actions_enumeration]
      exact hleaving
    exact (gathered_registrationsOutside hall hdepth).symm
  | .record id name generics declarations, r, hdepth => by
    have hleaving : (Declaration.record id name generics declarations).leaving.all
        Action.isLevel = true := by
      rw [Declaration.leaving]
      split <;> rfl
    -- what is noted for the record tells its declarations, and is not registered
    have hbefore : ∀ d : Declaration,
        [Action.bindType name, .noteTypeParameters name d].all Action.stays = true := fun _ => rfl
    change gathered registrationsOf ([.bindType name, .noteTypeParameters name _] ++
        (Declaration.record id name generics declarations).leaving) r =
      gathered registrationsOutside ([.bindType name, .noteTypeParameters name _] ++
        (Declaration.record id name generics declarations).leaving) r
    rw [local_registrationsOf.gathered_bracketed_append (.of_stays (hbefore _)),
      local_registrationsOutside.gathered_bracketed_append (.of_stays (hbefore _)),
      gathered_registrationsOutside hleaving hdepth,
      gathered_eq_nil_of_all registrationsOf_of_stays (hbefore _),
      gathered_eq_nil_of_all registrationsOutside_of_stays (hbefore _)]
  | .space id name declarations, r, hdepth => by
    have hbefore : [Action.nameOnly name, .enterSpace name.name, .pushValues, .pushTypes].all
      Action.isLevel = true := rfl
    have hinside : (performAll [.nameOnly name, .enterSpace name.name, .pushValues, .pushTypes]
      r).functionDepth = 0 := by rw [Resolver.functionDepth_performAll hbefore, hdepth]
    change gathered registrationsOf ([.nameOnly name, .enterSpace name.name, .pushValues,
        .pushTypes] ++ (Outline.actionsAll (Declaration.outlines
          (Declaration.bodilessAll declarations)) ++ [.leaveSpace, .popValues, .popTypes])) r =
      gathered registrationsOutside ([.nameOnly name, .enterSpace name.name, .pushValues,
        .pushTypes] ++ (Outline.actionsAll (Declaration.outlines declarations) ++
          [.leaveSpace, .popValues, .popTypes])) r
    have hleaving : [Action.leaveSpace, .popValues, .popTypes].all Action.isLevel = true := rfl
    rw [gathered_append, gathered_append _ _ r, gathered_registrationsOutside hbefore hdepth,
      local_registrationsOf.gathered_bracketed_append (Outline.bracketedAll _),
      local_registrationsOutside.gathered_bracketed_append (Outline.bracketedAll _),
      Declaration.registrations_bodilessAll declarations hinside,
      gathered_registrationsOutside hleaving hinside]
  | .library id name, r, hdepth | .placeholder id, r, hdepth => rfl

/-- A block with emptied functions registers what it registers outside of functions with full
ones. -/
theorem Statement.registrations_bodilessAll : (block : List Statement) → {r : Resolver} →
    r.functionDepth = 0 →
      gathered registrationsOf
          (Outline.actionsAll (Statement.outlines (Statement.bodilessAll block))) r =
        gathered registrationsOutside (Outline.actionsAll (Statement.outlines block)) r
  | [], _, _ => rfl
  | statement :: rest, r, hdepth => by
    simp only [Statement.bodilessAll, Statement.outlines, Outline.actionsAll]
    rw [local_registrationsOf.gathered_bracketed_append statement.bodiless.outline.bracketed,
      local_registrationsOutside.gathered_bracketed_append statement.outline.bracketed,
      statement.registrations_bodiless hdepth, Statement.registrations_bodilessAll rest hdepth]

theorem Declaration.registrations_bodilessAll : (declarations : List Declaration) →
    {r : Resolver} → r.functionDepth = 0 →
      gathered registrationsOf
          (Outline.actionsAll (Declaration.outlines (Declaration.bodilessAll declarations))) r =
        gathered registrationsOutside (Outline.actionsAll (Declaration.outlines declarations)) r
  | [], _, _ => rfl
  | declaration :: rest, r, hdepth => by
    simp only [Declaration.bodilessAll, Declaration.outlines, Outline.actionsAll]
    rw [local_registrationsOf.gathered_bracketed_append declaration.bodiless.outline.bracketed,
      local_registrationsOutside.gathered_bracketed_append declaration.outline.bracketed,
      declaration.registrations_bodiless hdepth, Declaration.registrations_bodilessAll rest hdepth]

end

end Bodiless

/-! ## Namespaces made in functions -/

/-- What stays in its place makes no namespace. -/
theorem Resolver.spacesInside_of_stays (r : Resolver) {action : Action} (h : action.stays = true) :
    r.spacesInside action = [] :=
  r.spacesInside_of_isStill (Action.isStill_of_stays h)

section Hidden

open Resolver (spacesInside_of_stays)

mutual

/-- What the walk makes inside of functions are the namespaces that the syntax tells. -/
theorem Statement.gathered_spacesInside : (statement : Statement) → (r : Resolver) →
    gathered spacesInside statement.outline.actions r = statement.hiddenSpaces r.place
  | .declaration id content, r => by
    change gathered spacesInside (content.outline.actions ++ [] ++ []) r =
      content.hiddenSpaces r.place
    rw [List.append_nil, List.append_nil, content.gathered_spacesInside r]
  | .branch id condition block, r => by
    change gathered spacesInside (condition.outline.actions ++
      Outline.actionsAll (Statement.outlines block) ++ []) r =
        Statement.hiddenSpacesAll r.place block
    -- an expression and what opens a loop make no spaces, so that those of the block are all
    rw [List.append_nil, local_spacesInside.gathered_bracketed_append condition.outline.bracketed,
      gathered_eq_nil_of_all spacesInside_of_stays condition.all_stays, List.nil_append,
      Statement.gathered_spacesInsideAll block r]
  | .loop id bound iterated block, r => by
    have hopen : [Action.pushValues, .bindValue bound].all Action.stays = true := rfl
    have hclose : [Action.popValues].all Action.stays = true := rfl
    rw [Statement.actions_loop, local_spacesInside.gathered_bracketed_append (.of_stays hopen),
      local_spacesInside.gathered_bracketed_append iterated.outline.bracketed,
      local_spacesInside.gathered_bracketed_append (Outline.bracketedAll _),
      gathered_eq_nil_of_all spacesInside_of_stays hopen,
      gathered_eq_nil_of_all spacesInside_of_stays iterated.all_stays,
      gathered_eq_nil_of_all spacesInside_of_stays hclose, List.nil_append, List.nil_append,
      List.append_nil, Statement.gathered_spacesInsideAll block r]
    rfl
  | .expression id expression, r | .result id expression, r => by
    change gathered spacesInside (expression.outline.actions ++ [] ++ []) r = []
    rw [List.append_nil, List.append_nil,
      gathered_eq_nil_of_all spacesInside_of_stays expression.all_stays]
  | .placeholder id, r => rfl

/-- What a declaration makes inside of functions is what is said of its syntax: the enumerations and
namespaces in the blocks of its functions. -/
theorem Declaration.gathered_spacesInside : (declaration : Declaration) → (r : Resolver) →
    gathered spacesInside declaration.outline.actions r = declaration.hiddenSpaces r.place
  | .value id name form initializer, r => by
    obtain ⟨first, hfirst, heq⟩ := Declaration.exists_actions_value id name form initializer
    -- an expression makes no spaces
    rw [heq, local_spacesInside.gathered_bracketed_append (.of_stays hfirst),
      gathered_eq_nil_of_all spacesInside_of_stays hfirst]
    rfl
  | .function id name result generics parameters block, r => by
    obtain ⟨header, hheader, heq⟩ := local_spacesInside.gathered_function spacesInside_of_stays id
      name result generics parameters block r
    -- within the function the block starts one level deeper, where all spaces are hidden ones
    have hbelow : Action.Bracketed (header ++ Outline.actionsAll (Statement.outlines block)) :=
      (Action.Bracketed.of_stays hheader).append (Outline.bracketedAll _)
    have hinside := Statement.gathered_spacesInsideAll block (r.perform .enterFunction)
    have hname : gathered spacesInside [.bindValue name, .register name] r = [] := rfl
    rw [heq, hname, List.nil_append, gathered, local_spacesInside.gathered_bracketed_append hbelow,
      local_spacesInside.gathered_bracketed_append (.of_stays hheader),
      gathered_eq_nil_of_all spacesInside_of_stays hheader, hinside]
    exact List.append_nil _
  | .enumeration id name generics cases, r => by
    change gathered spacesInside
      (Declaration.enumeration id name generics cases).outline.actions r = r.place.hidden name.name
    have hfirst : [Action.bindType name, .noteTypeParameters name
        (.enumeration id name generics cases)].all Action.stays = true := rfl
    -- an enumeration makes its own space, and its cases make none
    have hcases : (cases.flatMap EnumerationCase.actions).all Action.isStill = true :=
      EnumerationCase.all_actions (fun _ => rfl) (fun _ => rfl) cases
    have hactions : (Declaration.enumeration id name generics cases).outline.actions =
        [.bindType name, .noteTypeParameters name (.enumeration id name generics cases)] ++
          (.enterSpace name.name :: (cases.flatMap EnumerationCase.actions ++ [.leaveSpace])) := by
      rw [Declaration.actions_enumeration]
      rfl
    rw [hactions, local_spacesInside.gathered_bracketed_append (.of_stays hfirst),
      gathered_eq_nil_of_all spacesInside_of_stays hfirst, gathered, gathered_append,
      gathered_eq_nil_of_all spacesInside_of_isStill hcases]
    exact List.append_nil _
  | .record id name generics declarations, r => by
    -- a record's members are not walked
    have hleaving : (Declaration.record id name generics declarations).leaving.all
        Action.isStill = true := by
      rw [Declaration.leaving]
      split <;> rfl
    exact gathered_eq_nil_of_all spacesInside_of_isStill hleaving _
  | .space id name declarations, r => by
    -- the declarations inside are gathered at the path that the namespace enters
    have hinside := Declaration.gathered_spacesInsideAll declarations
      (performAll [.nameOnly name, .enterSpace name.name, .pushValues, .pushTypes] r)
    change gathered spacesInside ([.nameOnly name, .enterSpace name.name, .pushValues,
        .pushTypes] ++ (Outline.actionsAll (Declaration.outlines declarations) ++
          [.leaveSpace, .popValues, .popTypes])) r =
      r.place.hidden name.name ++
        Declaration.hiddenSpacesAll ⟨r.path ++ [name.name], r.functionDepth⟩ declarations
    rw [gathered_append, local_spacesInside.gathered_bracketed_append (Outline.bracketedAll _),
      hinside]
    exact congrArg₂ (· ++ ·) (List.append_nil _) (List.append_nil _)
  | .library id name, r | .placeholder id, r => rfl

/-- A block makes inside of functions what its statements do. -/
theorem Statement.gathered_spacesInsideAll : (block : List Statement) → (r : Resolver) →
    gathered spacesInside (Outline.actionsAll (Statement.outlines block)) r =
      Statement.hiddenSpacesAll r.place block
  | [], _ => rfl
  | statement :: rest, r => by
    rw [Statement.outlines, Outline.actionsAll,
      local_spacesInside.gathered_bracketed_append statement.outline.bracketed,
      statement.gathered_spacesInside r, Statement.gathered_spacesInsideAll rest r,
      Statement.hiddenSpacesAll]

theorem Declaration.gathered_spacesInsideAll : (declarations : List Declaration) →
    (r : Resolver) →
      gathered spacesInside (Outline.actionsAll (Declaration.outlines declarations)) r =
        Declaration.hiddenSpacesAll r.place declarations
  | [], _ => rfl
  | declaration :: rest, r => by
    rw [Declaration.outlines, Outline.actionsAll,
      local_spacesInside.gathered_bracketed_append declaration.outline.bracketed,
      declaration.gathered_spacesInside r, Declaration.gathered_spacesInsideAll rest r,
      Declaration.hiddenSpacesAll]

end

end Hidden

/-! ## Programs -/

/-- Two scopes have the same table of paths, and the same declarations in their namespaces. The
paths that are namespaces in the first one alone are listed; where none is, the namespaces are the
same. -/
structure Scope.DiffersBySpaces (full emptied : Scope) (paths : List (List String)) : Prop where
  qualified_eq : full.qualified = emptied.qualified
  pattern?_eq : ∀ path, full.space.pattern? path = emptied.space.pattern? path
  isSome_members?_iff : ∀ path, (full.space.members? path).isSome ↔
    (emptied.space.members? path).isSome ∨ path ∈ paths
  space_eq : paths = [] → full.space = emptied.space

/-- Where a run makes namespaces inside of functions, and another one registers what the first one
does outside of functions, the scopes differ by these namespaces. -/
theorem Resolver.differsBySpaces {actions emptied : List Action} {paths : List (List String)}
    (hpaths : gathered spacesInside actions {} = paths)
    (hemptied : gathered registrationsOf emptied {} = gathered registrationsOutside actions {}) :
    (performAll actions {}).scope.DiffersBySpaces (performAll emptied {}).scope paths := by
  have hadds := Resolver.addsSpaces_gathered actions {}
  rw [hpaths, ← hemptied] at hadds
  have hopens : Namespace.Opens ({} : Resolver).path ({} : Resolver).scope.space :=
    Namespace.opens_nil _
  have hqualified : ∀ actions : List Action, (performAll actions {}).scope.qualified =
      Table.putAll [] (gathered pathsOf actions {}) := fun actions =>
    Resolver.performAll_putAll (·.scope.qualified)
      (fun r action => (r.notes_perform action).qualified_eq) actions {}
  refine ⟨?_, fun path => ?_, fun path => ?_, fun hnone => ?_⟩
  · rw [hqualified, hqualified, Resolver.gathered_pathsOf_eq hopens,
      Resolver.gathered_pathsOf_eq hopens, hadds.entries_eq]
  · rw [Resolver.pattern?_performAll hopens, Resolver.pattern?_performAll hopens,
      hadds.findSome?_declaredAt_eq]
  · rw [Namespace.isSome_members?_iff, Namespace.isSome_members?_iff,
      Resolver.opens_performAll_iff hopens, Resolver.opens_performAll_iff hopens,
      hadds.mem_makeSpace_iff, or_assoc]
  · subst hnone
    rw [Resolver.space_performAll, Resolver.space_performAll, hadds.eq_of_nil]

/-- Of the blocks of functions, the namespaces show nothing but the namespaces that are made for the
enumerations and the namespaces declared there, and the table of paths shows nothing at all. -/
theorem Program.resolve_bodiless (program : Program) :
    (program.resolve none).DiffersBySpaces (program.bodiless.resolve none)
      program.hiddenSpaces := by
  have hactions : ∀ program : Program, program.outline.actions =
      Outline.actionsAll (Statement.outlines program.block) := fun _ => List.append_nil _
  have hpaths := Statement.gathered_spacesInsideAll program.block {}
  have hemptied : gathered registrationsOf program.bodiless.outline.actions {} =
      gathered registrationsOutside program.outline.actions {} := by
    rw [hactions, hactions]
    exact Statement.registrations_bodilessAll program.block rfl
  rw [program.resolve_none_eq_performAll, program.bodiless.resolve_none_eq_performAll]
  exact Resolver.differsBySpaces (hactions program ▸ hpaths) hemptied

/-- `func f() -> _ { enum E {} }`. -/
def enclosingProgram : Program where
  id := .ofNat 0
  block := [
    .declaration (.ofNat 1) (.function (.ofNat 2) ⟨.ofNat 3, "f"⟩ (.placeholder (.ofNat 4)) [] []
      [.declaration (.ofNat 5) (.enumeration (.ofNat 6) ⟨.ofNat 7, "E"⟩ [] [])])]

/-- The enumeration in the function is a namespace of the program, which it is not with the block of
the function emptied. -/
theorem not_forall_resolve_bodiless_eq :
    ¬ ∀ program : Program,
      (program.resolve none).qualified = (program.bodiless.resolve none).qualified ∧
        ∀ path, (program.resolve none).space.pattern? path =
            (program.bodiless.resolve none).space.pattern? path ∧
          ((program.resolve none).space.members? path).isSome =
            ((program.bodiless.resolve none).space.members? path).isSome := by
  intro h
  obtain ⟨-, hmembers⟩ := (h enclosingProgram).2 ["E"]
  have hmade : ((enclosingProgram.resolve none).space.members? ["E"]).isSome = true := by decide
  have hnone : ((enclosingProgram.bodiless.resolve none).space.members? ["E"]).isSome = false := by
    decide
  rw [hmade, hnone] at hmembers
  cases hmembers

end TreeLang
