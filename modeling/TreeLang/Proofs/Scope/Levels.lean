import TreeLang.Proofs.Scope.Actions
import TreeLang.Proofs.Tree.Balance

/-!
# Levels of name resolution

What name resolution has open is the frames around the innermost one, for values and for types, the
namespaces around and the functions around. Functions, namespaces and loops open some of these on
the first visit, and close as many on the second one. All other visits write to the innermost frames
only.
-/

namespace TreeLang

namespace Resolver

/-! ## Levels -/

/-- The stacks of name resolution. -/
inductive Stack
  | values
  | types
  | spaces
  | functions
  deriving DecidableEq

/-- What is on a stack: frames, or the name of a namespace. Of a function nothing is kept but that
it is there. -/
def Stack.Item : Stack → Type
  | .values | .types => Frame
  | .spaces => String
  | .functions => Unit

/-- What is open in a state: the frames around the innermost ones, the path from its end, and as
many functions as are counted. -/
def level (r : Resolver) : Level Stack.Item
  | .values => r.scope.values.outer
  | .types => r.scope.types.outer
  | .spaces => r.path.reverse
  | .functions => List.replicate r.functionDepth ()

/-- The stacks on which name resolution puts something on the first visit of a node. -/
def opened : Node → List Stack
  | .declaration (.function _ _ _ _ _ _) => [.values, .types, .functions]
  | .declaration (.space _ _ _) => [.spaces, .values, .types]
  | .statement (.loop _ _ _ _) => [.values]
  | _ => []

/-- States of one level agree in all that is open. -/
theorem eq_of_level_eq {r r' : Resolver} (h : r'.level = r.level) :
    r'.scope.values.outer = r.scope.values.outer ∧ r'.scope.types.outer = r.scope.types.outer ∧
      r'.path = r.path ∧ r'.functionDepth = r.functionDepth := by
  refine ⟨congrFun h .values, congrFun h .types, List.reverse_inj.1 (congrFun h .spaces), ?_⟩
  have hlength : (List.replicate r'.functionDepth ()).length =
      (List.replicate r.functionDepth ()).length := congrArg List.length (congrFun h .functions)
  rwa [List.length_replicate, List.length_replicate] at hlength

/-! ## Levels of actions -/

/-- Whether an action leaves everything open as it is. -/
def Action.keepsLevel : Action → Bool
  | .pushValues | .popValues | .pushTypes | .popTypes | .enterSpace _ | .leaveSpace
  | .enterFunction | .leaveFunction => false
  | _ => true

variable (r : Resolver)

/-- A registration changes the scope below its stacks, and nothing that is open. -/
theorem level_register (pattern : Pattern) : (r.register pattern).level = r.level := by
  simp only [register]
  split
  · rfl
  · split <;> rfl

/-- An action that opens and closes nothing leaves the level as it is. -/
theorem level_perform {action : Action} (h : action.keepsLevel = true) :
    (r.perform action).level = r.level := by
  cases action with
  | pushValues | popValues | pushTypes | popTypes | enterSpace | leaveSpace | enterFunction
  | leaveFunction => cases h
  | register pattern => exact r.level_register pattern
  | noteTypeParameters name declaration =>
    simp only [perform, onScope, Scope.noteTypeParameters]
    split <;> rfl
  | resolve id used =>
    simp only [perform, onScope, Scope.resolve]
    split
    · rfl
    · split <;> rfl
  | resolvePath id path =>
    simp only [perform, onScope, Scope.resolvePath]
    split <;> rfl
  | bindValue | bindType | nameOnly => rfl

/-- Actions that open and close nothing leave the level as it is. -/
theorem level_performAll {actions : List Action} (h : actions.all Action.keepsLevel = true) :
    (performAll actions r).level = r.level := by
  induction actions generalizing r with
  | nil => rfl
  | cons action rest ih =>
    obtain ⟨haction, hrest⟩ := Bool.and_eq_true_iff.1 h
    exact (ih _ hrest).trans (r.level_perform haction)

/-- Without a frame around there is none after a pop. -/
theorem outer_pop (stack : ScopeStack) : stack.pop.outer = stack.outer.tail := by
  rw [ScopeStack.pop, ScopeStack.pop?]
  cases h : stack.outer with
  | nil => exact h
  | cons next rest => rfl

/-- The frame that was the innermost one is on the stack after a push. -/
theorem opens_pushValues : Level.Opens [.values] r.level (r.perform .pushValues).level
  | .values => ⟨[r.scope.values.inner], rfl, rfl⟩
  | .types | .spaces | .functions => ⟨[], rfl, rfl⟩

theorem opens_pushTypes : Level.Opens [.types] r.level (r.perform .pushTypes).level
  | .types => ⟨[r.scope.types.inner], rfl, rfl⟩
  | .values | .spaces | .functions => ⟨[], rfl, rfl⟩

/-- Entering a namespace puts its name on the path. -/
theorem opens_enterSpace (name : String) :
    Level.Opens [.spaces] r.level (r.perform (.enterSpace name)).level
  | .spaces => ⟨[name], rfl, List.reverse_concat⟩
  | .values | .types | .functions => ⟨[], rfl, rfl⟩

/-- Entering a function counts one more. -/
theorem opens_enterFunction :
    Level.Opens [.functions] r.level (r.perform .enterFunction).level
  | .functions => ⟨[()], rfl, rfl⟩
  | .values | .types | .spaces => ⟨[], rfl, rfl⟩

/-- A pop of values takes the nearest frame off the stack; without one it does nothing. -/
theorem level_popValues : (r.perform .popValues).level = r.level.closed [.values] := by
  funext stack
  cases stack with
  | values => exact (outer_pop r.scope.values).trans List.drop_one.symm
  | types | spaces | functions => rfl

theorem level_popTypes : (r.perform .popTypes).level = r.level.closed [.types] := by
  funext stack
  cases stack with
  | types => exact (outer_pop r.scope.types).trans List.drop_one.symm
  | values | spaces | functions => rfl

/-- Leaving a namespace takes its name off the path. -/
theorem level_leaveSpace : (r.perform .leaveSpace).level = r.level.closed [.spaces] := by
  funext stack
  cases stack with
  | spaces => exact List.tail_reverse.symm.trans List.drop_one.symm
  | values | types | functions => rfl

/-- Leaving a function counts one less. -/
theorem level_leaveFunction : (r.perform .leaveFunction).level = r.level.closed [.functions] := by
  funext stack
  cases stack with
  | functions => exact List.drop_replicate.symm
  | values | types | spaces => rfl

/-! ## Levels of visits -/

/-- A function binds its name before the frames are pushed, and its parameters after that. -/
theorem opens_function (id : NodeId) (name : Pattern) (result : TypeForm)
    (generics : List GenericParameter) (parameters : List Parameter) (block : List Statement) :
    let node := Node.declaration (.function id name result generics parameters block)
    Level.Opens (opened node) r.level (performAll (node.actions false) r).level := by
  intro node
  let declared := Declaration.function id name result generics parameters block
  let bound := parameters.flatMap Parameter.actions ++ declared.genericPatterns.map Action.bindType
  let named := performAll [.bindValue name, .register name, .noteTypeParameters name declared] r
  let pushed := (named.perform .pushValues).perform .pushTypes
  have hnamed : named.level = r.level := r.level_performAll rfl
  have hbound : (performAll bound pushed).level = pushed.level := by
    refine pushed.level_performAll ?_
    rw [List.all_append, Parameter.all_actions (fun _ => rfl) parameters, Bool.true_and]
    simp [Action.keepsLevel]
  have hall : performAll (node.actions false) r =
      (performAll bound pushed).perform .enterFunction := by
    rw [Node.actions, Declaration.entering, performAll_append, performAll_append]
    rfl
  have hpushed : Level.Opens [.values, .types] r.level pushed.level :=
    hnamed ▸ named.opens_pushValues.append (Resolver.opens_pushTypes _)
  rw [hall]
  exact hpushed.append (hbound ▸ (performAll bound pushed).opens_enterFunction)

/-- The first visit of a node opens what is said of the node. -/
theorem opens_entering (node : Node) :
    Level.Opens (opened node) r.level (performAll (node.actions false) r).level := by
  -- a node that opens nothing keeps its level
  have hlevel : opened node = [] → (node.actions false).all Action.keepsLevel = true →
      Level.Opens (opened node) r.level (performAll (node.actions false) r).level := by
    intro hnode hactions
    rw [hnode, r.level_performAll hactions]
    exact Level.opens_nil _
  cases node with
  | declaration declaration =>
    cases declaration with
    | function id name result generics parameters block =>
      exact r.opens_function id name result generics parameters block
    | space id name declarations =>
      -- a namespace opens its place and then a frame of each kind
      have hnamed : (r.perform (.nameOnly name)).level = r.level := r.level_perform rfl
      exact hnamed ▸ ((Resolver.opens_enterSpace _ name.name).append
        (Resolver.opens_pushValues _)).append (Resolver.opens_pushTypes _)
    | value | record | enumeration | library | placeholder => exact hlevel rfl rfl
  | statement statement =>
    cases statement with
    | loop id pattern iterated block => exact r.opens_pushValues
    | declaration | branch | expression | result | placeholder => exact hlevel rfl rfl
  | expression expression =>
    cases expression with
    | member id base name =>
      refine hlevel rfl ?_
      rw [Node.actions]
      cases (Expression.member id base name).memberPath <;> rfl
    | identifier | binary | call | literal | placeholder => exact hlevel rfl rfl
  | program | pattern | identifier | typeForm | literal | parameter | generic | case | argument =>
    exact hlevel rfl rfl

/-- An enumeration goes into its namespace and out of it on one visit. -/
theorem level_leaving_enumeration (id : NodeId) (name : Pattern) (generics : List GenericParameter)
    (cases : List EnumerationCase) :
    (performAll (Declaration.enumeration id name generics cases).leaving r).level = r.level := by
  let noted := r.perform (.noteTypeParameters name (.enumeration id name generics cases))
  let inside := noted.perform (.enterSpace name.name)
  have hnoted : noted.level = r.level := r.level_perform rfl
  have hcases : (performAll (cases.flatMap EnumerationCase.actions) inside).level = inside.level :=
    inside.level_performAll (EnumerationCase.all_actions (fun _ => rfl) (fun _ => rfl) cases)
  have hall : performAll (Declaration.enumeration id name generics cases).leaving r =
      (performAll (cases.flatMap EnumerationCase.actions) inside).perform .leaveSpace := by
    rw [Declaration.leaving, performAll_append, performAll_append]
    rfl
  rw [hall, level_leaveSpace, hcases, ← hnoted]
  exact (noted.opens_enterSpace name.name).closed_eq

/-- The second visit of a node closes what is said of the node. -/
theorem level_leaving (node : Node) :
    (performAll (node.actions true) r).level = r.level.closed (opened node) := by
  -- a node that has opened nothing keeps its level again
  have hlevel : opened node = [] → (performAll (node.actions true) r).level = r.level →
      (performAll (node.actions true) r).level = r.level.closed (opened node) := by
    intro hnode hsame
    rw [hnode, Level.closed_nil, hsame]
  cases node with
  | declaration declaration =>
    cases declaration with
    | function id name result generics parameters block =>
      -- each of the three actions closes one stack
      show (((r.perform .leaveFunction).perform .popValues).perform .popTypes).level = _
      rw [level_popTypes, level_popValues, level_leaveFunction]
      funext stack
      cases stack <;> rfl
    | space id name declarations =>
      show (((r.perform .leaveSpace).perform .popValues).perform .popTypes).level = _
      rw [level_popTypes, level_popValues, level_leaveSpace]
      funext stack
      cases stack <;> rfl
    | enumeration id name generics cases =>
      exact hlevel rfl (r.level_leaving_enumeration id name generics cases)
    | record id name generics declarations =>
      refine hlevel rfl (r.level_performAll ?_)
      rw [Node.actions, Declaration.leaving]
      split <;> rfl
    | value | library | placeholder => exact hlevel rfl (r.level_performAll rfl)
  | statement statement =>
    cases statement with
    | loop id pattern iterated block => exact r.level_popValues
    | declaration | branch | expression | result | placeholder =>
      exact hlevel rfl (r.level_performAll rfl)
  | expression expression => cases expression <;> exact hlevel rfl (r.level_performAll rfl)
  | program | pattern | identifier | typeForm | literal | parameter | generic | case | argument =>
    exact hlevel rfl (r.level_performAll rfl)

/-- A node that is not visited again opens nothing. -/
theorem opened_of_not_needsRevisit {node : Node}
    (h : (visitAll node {} r).1.needsRevisit = false) : opened node = [] := by
  change (enter node {} r).1.needsRevisit = false at h
  cases node with
  | declaration declaration =>
    cases declaration with
    | library | placeholder => rfl
    | value | function | enumeration | record | space => cases h
  | statement statement =>
    cases statement with
    | loop => cases h
    | declaration | branch | expression | result | placeholder => rfl
  | _ => rfl

/-- Name resolution without a target closes what it opens. -/
theorem visitAll_balances :
    Visitor.Balances visitAll level (fun node => Level.Opens (opened node)) := by
  refine .of_closed (fun node r => ?_) (fun node r => ?_) fun _ r => r.opened_of_not_needsRevisit
  · rw [visitAll_eq_performAll node false]
    exact r.opens_entering node
  · rw [visitAll_eq_performAll node true]
    exact r.level_leaving node

/-- Name resolution closes what it opens. The target of a walk opens nothing. -/
theorem visit_balances (target : Option NodeId) :
    Visitor.Balances (visit target) level (fun node => Level.Opens (opened node)) := by
  cases target with
  | none => exact visitAll_balances
  | some target =>
    -- At the target the walk stops without a second visit, and elsewhere nothing is different.
    have hstops := visit_stopsAt target
    refine ⟨Level.Opens.le, fun node r h => ?_, visitAll_balances.closes, fun node r h => ?_⟩
    · by_cases hnode : node.id = target
      · rw [hstops.there node {} r hnode rfl] at h
        cases h
      · rw [hstops.elsewhere node hnode] at h ⊢
        exact visitAll_balances.opens node r h
    · by_cases hnode : node.id = target
      · rw [hstops.there node {} r hnode rfl]
        rfl
      · rw [hstops.elsewhere node hnode] at h ⊢
        exact visitAll_balances.keeps node r h

end Resolver

end TreeLang
