import TreeLang.Proofs.Scope.Containment

/-!
# What a loop iterates over

A loop opens its frame and binds its pattern before what it iterates over is walked. So an
identifier there refers to what it would refer to in front of the loop, unless it has the name of
the pattern: then it refers to the pattern, whatever the name stands for outside. Paths of
identifiers are looked up in the namespaces, which a loop does not change.
-/

namespace TreeLang

open Resolver (Action Note performAll performAll_append gathered gathered_append visitAll)

/-! ## Lookups in a frame that is opened -/

/-- In a new frame with one name, all others refer to what they refer to outside. -/
theorem ScopeStack.get?_set_push (stack : ScopeStack) (name other : String) (pattern : NodeId) :
    (stack.push.set name pattern).get? other =
      if other = name then some pattern else stack.get? other := by
  have hframes : (stack.push.set name pattern).frames =
      Table.put name pattern [] :: stack.frames := rfl
  rw [get?, hframes, List.findSome?_cons, Table.find_put]
  by_cases hother : other = name
  · rw [if_pos hother, if_pos hother]
  · rw [if_neg hother, if_neg hother]
    rfl

/-! ## What one action of a run notes -/

namespace Resolver

/-- Whether an action looks up a name or a path. -/
def Action.isUse : Action → Bool
  | .resolve _ _ | .resolvePath _ _ => true
  | _ => false

/-- Lookups change neither the frames nor the namespaces. -/
theorem performAll_of_isUse {actions : List Action} (h : actions.all Action.isUse = true)
    (r : Resolver) :
    (performAll actions r).scope.values = r.scope.values ∧
      (performAll actions r).scope.space = r.scope.space := by
  induction actions generalizing r with
  | nil => exact ⟨rfl, rfl⟩
  | cons action rest ih =>
    obtain ⟨haction, hrest⟩ := Bool.and_eq_true_iff.1 h
    obtain ⟨hvalues, hspace⟩ := ih hrest (r.perform action)
    rw [performAll, List.foldl_cons, ← performAll, hvalues, hspace]
    cases action with
    | resolve id used =>
      rw [perform, resolve_eq_noting]
      exact ⟨rfl, rfl⟩
    | resolvePath id path =>
      simp only [perform, onScope, Scope.resolvePath]
      split <;> exact ⟨rfl, rfl⟩
    | _ => cases haction

variable {first later : List Action} {action : Action}

/-- Where actions note apart, what a run gives under a key of one of its actions is what that action
gives. -/
theorem Action.Apart.mem_gathered_iff {α : Type} {give : Resolver → Action → List α}
    {key : α → Note × NodeId}
    (hkeys : ∀ r action, ((give r action).map key).Sublist action.keys)
    (h : Action.Apart (first ++ action :: later)) {a : α} (ha : key a ∈ action.keys) :
    a ∈ gathered give (first ++ action :: later) {} ↔ a ∈ give (performAll first {}) action := by
  have hnoted : ∀ {actions r}, a ∈ gathered give actions r → key a ∈ actions.flatMap Action.keys :=
    fun hmem => (map_gathered_sublist hkeys _ _).subset (List.mem_map_of_mem hmem)
  have hdistinct := h.keys
  rw [List.flatMap_append, List.flatMap_cons, List.nodup_append, List.nodup_append] at hdistinct
  obtain ⟨-, ⟨-, -, hlater⟩, hfirst⟩ := hdistinct
  rw [gathered_append, gathered, List.mem_append, List.mem_append]
  constructor
  · rintro (hmem | hmem | hmem)
    · exact absurd rfl (hfirst _ (hnoted hmem) _ (List.mem_append_left _ ha))
    · exact hmem
    · exact absurd rfl (hlater _ ha _ (hnoted hmem))
  · exact fun hmem => .inr (.inl hmem)

/-- What an action misses is a target that it would note. -/
theorem missesOf_sublist (r : Resolver) (action : Action) :
    ((r.missesOf action).map fun id => (Note.target, id)).Sublist action.keys := by
  cases action with
  | resolve id used =>
    rw [missesOf]
    split
    · exact List.nil_sublist _
    · exact (List.nil_sublist [(Note.target, used.id)]).cons_cons _
  | _ => exact List.nil_sublist _

end Resolver

/-- What a scope says of an identifier: it refers to the target under both of its ids, and it is
listed as unresolved when there is no target. -/
structure Scope.Refers (scope : Scope) (id : NodeId) (used : Identifier)
    (target : Option NodeId) : Prop where
  patternFor_eq : scope.patternFor id = target
  patternFor_used_eq : scope.patternFor used.id = target
  mem_unresolved_iff : id ∈ scope.unresolved ↔ target = none

namespace Resolver

variable {first later : List Action} {id : NodeId}

/-- An identifier refers to what its name refers to when the walk comes to it. -/
theorem Action.Apart.refers {used : Identifier} (hname : used.isPlaceholder = false)
    (h : Action.Apart (first ++ .resolve id used :: later)) :
    (performAll (first ++ .resolve id used :: later) {}).scope.Refers id used
      ((performAll first {}).scope.values.get? used.name) := by
  have htargets : ∀ key, key = id ∨ key = used.id →
      (performAll (first ++ .resolve id used :: later) {}).scope.patternFor key =
        (performAll first {}).scope.values.get? used.name := by
    intro key hkey
    ext pattern
    have hnoted : (Note.target, key) ∈ (Action.resolve id used).keys := by
      rcases hkey with rfl | rfl <;> simp [Action.keys]
    rw [h.holds.patternFor_iff, h.mem_gathered_iff targetsOf_sublist hnoted, targetsOf, hname,
      if_neg Bool.false_ne_true]
    cases (performAll first {}).scope.values.get? used.name with
    | none => simp
    | some found => rcases hkey with rfl | rfl <;> simp [eq_comm]
  refine ⟨htargets id (.inl rfl), htargets used.id (.inr rfl), ?_⟩
  have hnoted : (Note.target, id) ∈ (Action.resolve id used).keys := List.mem_cons_self
  rw [h.holds.unresolved_eq, h.mem_gathered_iff missesOf_sublist hnoted, missesOf, hname]
  cases (performAll first {}).scope.values.get? used.name <;> simp

/-- A path refers to what the namespaces hold when the walk comes to it. -/
theorem Action.Apart.patternFor_path {path : List String}
    (h : Action.Apart (first ++ .resolvePath id path :: later)) :
    (performAll (first ++ .resolvePath id path :: later) {}).scope.patternFor id =
      (performAll first {}).scope.space.pattern? path := by
  ext pattern
  have hnoted : (Note.target, id) ∈ (Action.resolvePath id path).keys := List.mem_cons_self
  rw [h.holds.patternFor_iff, h.mem_gathered_iff targetsOf_sublist hnoted, targetsOf]
  cases (performAll first {}).scope.space.pattern? path <;> simp [eq_comm]

end Resolver

/-! ## What an expression does -/

mutual

/-- The walk of an expression does nothing but look up names and paths. -/
theorem Expression.all_isUse : (expression : Expression) →
    expression.outline.actions.all Action.isUse = true
  | .binary _ left right _ => by
    change (left.outline.actions ++ (right.outline.actions ++ []) ++ []).all Action.isUse = true
    simp [left.all_isUse, right.all_isUse]
  | .identifier _ _ => rfl
  | .call _ callee arguments => by
    change (callee.outline.actions ++ Outline.actionsAll (Argument.outlines arguments) ++ []).all
      Action.isUse = true
    simp [callee.all_isUse, Argument.all_isUseAll arguments]
  | .literal _ literal => by
    change (literal.outline.actions ++ [] ++ []).all Action.isUse = true
    simp [literal.all_isUse]
  | .member id base name => by
    rw [Expression.outline, Outline.actions, Node.actions, Node.isPassedBy]
    cases (Expression.member id base name).memberPath with
    | some path => rfl
    | none =>
      change (base.outline.actions ++ [] ++ []).all Action.isUse = true
      simp [base.all_isUse]
  | .placeholder _ => rfl

/-- Expressions do nothing but use names, and so do arguments. -/
theorem Argument.all_isUse : (argument : Argument) →
    argument.outline.actions.all Action.isUse = true
  | .argument _ _ expression => by
    change (expression.outline.actions ++ [] ++ []).all Action.isUse = true
    simp [expression.all_isUse]
  | .placeholder _ => rfl

theorem Literal.all_isUse : (literal : Literal) →
    literal.outline.actions.all Action.isUse = true
  | .array _ items => by
    change (Outline.actionsAll (Expression.outlines items) ++ []).all Action.isUse = true
    simp [Expression.all_isUseAll items]
  | .none _ | .boolean _ _ | .number _ _ | .string _ _ | .color _ _ => rfl

/-- Several expressions do nothing but use names. -/
theorem Expression.all_isUseAll : (expressions : List Expression) →
    (Outline.actionsAll (Expression.outlines expressions)).all Action.isUse = true
  | [] => rfl
  | expression :: rest => by
    rw [Expression.outlines, Outline.actionsAll, List.all_append, expression.all_isUse,
      Expression.all_isUseAll rest]
    rfl

theorem Argument.all_isUseAll : (arguments : List Argument) →
    (Outline.actionsAll (Argument.outlines arguments)).all Action.isUse = true
  | [] => rfl
  | argument :: rest => by
    rw [Argument.outlines, Outline.actionsAll, List.all_append, argument.all_isUse,
      Argument.all_isUseAll rest]
    rfl

end

/-- The lookup of an identifier, or of a path of identifiers. -/
def Expression.lookup? : Expression → Option Action
  | .identifier id used => if used.isPlaceholder then none else some (.resolve id used)
  | .member id base name =>
    (Expression.member id base name).memberPath.map (Action.resolvePath id)
  | _ => none

namespace Outline

variable {item : Node} {children : List Outline} {outline : Outline}

/-- Unless a node is passed by, what is done in its children is done in it. -/
theorem mem_actions_of_mem_children (hitem : item.isPassedBy = false) {c : Outline}
    (hc : c ∈ children) {action : Action} (h : action ∈ c.actions) :
    action ∈ (node item children).actions := by
  rw [actions, hitem, if_neg Bool.false_ne_true, actionsAll_eq_flatMap]
  exact List.mem_append_right _ (List.mem_append_left _ (List.mem_flatMap.2 ⟨c, hc, h⟩))

/-- What is mentioned in an outline is looked up by the walk. -/
theorem lookup?_of_mem_mentions {site : Expression} (h : site ∈ outline.mentions) :
    ∃ action ∈ outline.actions, site.lookup? = some action := by
  -- by induction on the outline, along the cases of `mentions`: what is not looked up at a node
  -- itself comes from its children
  induction outline with
  | node item children ih =>
    have hchildren : item.isPassedBy = false → site ∈ mentionsAll children →
        ∃ action ∈ (node item children).actions, site.lookup? = some action := by
      intro hitem hmem
      rw [mentionsAll_eq_flatMap] at hmem
      obtain ⟨c, hc, hmem⟩ := List.mem_flatMap.1 hmem
      obtain ⟨action, haction, hlookup⟩ := ih c hc hmem
      exact ⟨action, mem_actions_of_mem_children hitem hc haction, hlookup⟩
    rw [mentions.eq_def] at h
    split at h
    case h_1 | h_2 => cases h
    case h_3 id used rest heq =>
      cases heq
      split at h
      · cases h
      next hused =>
      obtain rfl := List.mem_singleton.1 h
      exact ⟨.resolve id used, List.mem_cons_self, by rw [Expression.lookup?, if_neg hused]⟩
    case h_4 id base name rest heq =>
      cases heq
      split at h
      -- a path is looked up as a whole, and the base of another member by its own visit
      next hpath =>
        obtain rfl := List.mem_singleton.1 h
        obtain ⟨path, hpath⟩ := Option.isSome_iff_exists.1 hpath
        refine ⟨.resolvePath id path, ?_, by rw [Expression.lookup?, hpath]; rfl⟩
        rw [actions, Node.actions, hpath]
        exact List.mem_cons_self
      next hpath => exact hchildren (Bool.eq_false_iff.2 hpath) h
    -- no other node is passed by
    case h_5 hrecord hform hidentifier hmember heq =>
      cases heq
      refine hchildren ?_ h
      rw [Node.isPassedBy.eq_def]
      split
      case h_1 => exact (hrecord _ _ _ _ rfl).elim
      case h_2 => exact (hidentifier _ _ rfl).elim
      case h_3 => exact (hform _ rfl).elim
      case h_4 => exact (hmember _ _ _ rfl).elim
      case h_5 => rfl

end Outline

/-! ## Where a node is reached -/

/-- The resolution up to a node that it reaches has done what comes before the actions of the
node. -/
theorem Program.exists_actions_eq {program : Program}
    (distinct : (program.nodes.map Node.id).Nodup) {node : Node} (hnode : node ∈ program.nodes)
    (hreached : (program.resolve (some node.id)).reachedTarget = true) :
    ∃ before after, program.outline.actions = before ++ (node.outline.actions ++ after) ∧
      program.resolve (some node.id) = (performAll before {}).reach.scope := by
  cases program.stopsShort node.id with
  | missed absent same =>
    rw [same, program.resolve_none_eq_performAll, Resolver.reachedTarget_performAll] at hreached
    cases hreached
  | @reached before rest call split earlier there first state marked =>
    have hcall : call ∈ program.outline.callsPre visitAll {} := by
      rw [split]
      exact List.mem_append_right _ List.mem_cons_self
    obtain rfl : call.node = node :=
      Outline.eq_of_id_eq distinct (Outline.node_mem_preorder_of_call hcall first) hnode there
    obtain ⟨calls, after, heq⟩ := program.outline_faithful.callsPre_isInfix hcall first
    obtain ⟨hthreaded, -⟩ : Call.Threaded visitAll (program.outline.callsPre visitAll {}) {} ∧ _ :=
      program.outline.threaded_callsPre _
    rw [← heq] at hthreaded
    have hbefore := hthreaded.of_append.of_append
    -- the calls for the node find the state of its first visit, wherever the walk has made them
    have hstate : call.state = performAll (calls.flatMap Call.actions) {} := by
      rw [← hbefore.after_eq_performAll]
      exact (call.node.outline.threaded_callsPre call.state).1.state_eq
        hthreaded.of_append.of_append_right (Outline.callsPre_ne_nil _ _ _)
    refine ⟨calls.flatMap Call.actions, after.flatMap Call.actions, ?_, by rw [marked, hstate]⟩
    rw [← program.outline.flatMap_actions_callsPre {}, ← heq, List.flatMap_append,
      List.flatMap_append, Outline.flatMap_actions_callsPre, List.append_assoc]

/-! ## Loops -/

/-- A loop opens its frame, binds its pattern, does what it iterates over and then its block. -/
theorem Statement.actions_loop (id : NodeId) (bound : Pattern) (iterated : Expression)
    (block : List Statement) :
    (Statement.loop id bound iterated block).outline.actions =
      [.pushValues, .bindValue bound] ++ (iterated.outline.actions ++
        (Outline.actionsAll (Statement.outlines block) ++ [.popValues])) := by
  rw [← List.append_assoc iterated.outline.actions]
  rfl

/-- What is mentioned in an expression is looked up after other lookups only. -/
theorem Expression.exists_actions_eq {expression site : Expression}
    (h : site ∈ expression.outline.mentions) :
    ∃ first action later, expression.outline.actions = first ++ action :: later ∧
      first.all Action.isUse = true ∧ site.lookup? = some action := by
  obtain ⟨action, haction, hlookup⟩ := Outline.lookup?_of_mem_mentions h
  obtain ⟨first, later, heq⟩ := List.append_of_mem haction
  have hall := expression.all_isUse
  rw [heq, List.all_append] at hall
  exact ⟨first, action, later, heq, (Bool.and_eq_true_iff.1 hall).1, hlookup⟩

/-- What a loop iterates over is walked in the frame of the loop, which holds its pattern alone: an
identifier with the name of the pattern refers to the pattern, any other one to what it refers to in
front of the loop, and a path to what it refers to there. -/
theorem Program.loop_header_resolves {program : Program}
    (distinct : (program.nodes.map Node.id).Nodup) {id : NodeId} {bound : Pattern}
    {iterated : Expression} {block : List Statement}
    (hloop : .statement (.loop id bound iterated block) ∈ program.nodes)
    (hreached : (program.resolve (some id)).reachedTarget = true) :
    (∀ site used, .identifier site used ∈ iterated.outline.mentions →
      (program.resolve none).Refers site used
        (if used.name = bound.name then some bound.id
          else (program.resolve (some id)).values.get? used.name)) ∧
    (∀ site base name, .member site base name ∈ iterated.outline.mentions →
      ∃ path, (Expression.member site base name).memberPath = some path ∧
        (program.resolve none).patternFor site =
          (program.resolve (some id)).space.pattern? path) := by
  obtain ⟨before, after, hactions, hscope⟩ := program.exists_actions_eq distinct hloop hreached
  change program.outline.actions =
    before ++ ((Statement.loop id bound iterated block).outline.actions ++ after) at hactions
  change program.resolve (some id) = _ at hscope
  have hapart := program.outline_faithful.apart distinct
  -- a lookup in what is iterated over, with the frames and the namespaces that it finds
  have hlookup : ∀ site ∈ iterated.outline.mentions, ∃ first action later,
      program.outline.actions = first ++ action :: later ∧ site.lookup? = some action ∧
      (performAll first {}).scope.values =
        ((program.resolve (some id)).values.push.set bound.name bound.id) ∧
      (performAll first {}).scope.space = (program.resolve (some id)).space := by
    intro site hsite
    obtain ⟨first, action, later, heq, huses, hlookup⟩ := Expression.exists_actions_eq hsite
    obtain ⟨hvalues, hspace⟩ := Resolver.performAll_of_isUse huses
      (performAll [.pushValues, .bindValue bound] (performAll before {}))
    refine ⟨before ++ ([.pushValues, .bindValue bound] ++ first), action,
      later ++ ((Outline.actionsAll (Statement.outlines block) ++ [.popValues]) ++ after), ?_,
      hlookup, ?_, ?_⟩
    · rw [hactions, Statement.actions_loop, heq]
      simp only [List.append_assoc, List.cons_append]
    · rw [performAll_append, performAll_append, hvalues, hscope]
      rfl
    · rw [performAll_append, performAll_append, hspace, hscope]
      rfl
  rw [program.resolve_none_eq_performAll]
  refine ⟨fun site used hsite => ?_, fun site base name hsite => ?_⟩
  · obtain ⟨first, action, later, heq, haction, hvalues, -⟩ := hlookup _ hsite
    rw [Expression.lookup?] at haction
    split at haction
    · cases haction
    next hused =>
    cases haction
    rw [heq] at hapart ⊢
    rw [← ScopeStack.get?_set_push, ← hvalues]
    exact hapart.refers (Bool.eq_false_iff.2 hused)
  · obtain ⟨first, action, later, heq, haction, -, hspace⟩ := hlookup _ hsite
    obtain ⟨path, hpath, rfl⟩ := Option.map_eq_some_iff.1 haction
    rw [heq] at hapart ⊢
    rw [← hspace]
    exact ⟨path, hpath, hapart.patternFor_path⟩

/-- `let x = []`, then `let y = []`, then `for x in x == y { x }`. -/
def loopOverNamesake : Program where
  id := .ofNat 0
  block := [
    .declaration (.ofNat 1) (.value (.ofNat 2) ⟨.ofNat 3, "x"⟩ none
      (some (.literal (.ofNat 4) (.array (.ofNat 5) [])))),
    .declaration (.ofNat 6) (.value (.ofNat 7) ⟨.ofNat 8, "y"⟩ none
      (some (.literal (.ofNat 9) (.array (.ofNat 10) [])))),
    .loop (.ofNat 11) ⟨.ofNat 12, "x"⟩
      (.binary (.ofNat 13) (.identifier (.ofNat 14) ⟨.ofNat 15, "x", false⟩)
        (.identifier (.ofNat 16) ⟨.ofNat 17, "y", false⟩) .isEqualTo)
      [.expression (.ofNat 18) (.identifier (.ofNat 19) ⟨.ofNat 20, "x", false⟩)]]

/-- The `x` that the loop iterates over is its own pattern, the `y` is the one in front of it. -/
theorem loop_header_resolves_namesake :
    (loopOverNamesake.nodes.map Node.id).Nodup ∧
      (loopOverNamesake.resolve (some (.ofNat 11))).reachedTarget = true ∧
      (loopOverNamesake.resolve none).Refers (.ofNat 14) ⟨.ofNat 15, "x", false⟩
        (some (.ofNat 12)) ∧
      (loopOverNamesake.resolve none).Refers (.ofNat 16) ⟨.ofNat 17, "y", false⟩
        (some (.ofNat 8)) := by
  have hdistinct : (loopOverNamesake.nodes.map Node.id).Nodup := by decide
  have hreached : (loopOverNamesake.resolve (some (.ofNat 11))).reachedTarget = true := by decide
  obtain ⟨hnames, -⟩ := Program.loop_header_resolves hdistinct
    (List.mem_of_getElem? (i := 11) rfl) hreached
  exact ⟨hdistinct, hreached, hnames _ _ (List.mem_of_getElem? (i := 0) rfl),
    hnames _ _ (List.mem_of_getElem? (i := 1) rfl)⟩

/-- Not every identifier that a loop iterates over refers to what it would refer to in front of the
loop: one with the name of the pattern does not. -/
theorem not_forall_loop_header_refers :
    ¬ ∀ (program : Program) (id : NodeId) (bound : Pattern) (iterated : Expression)
      (block : List Statement) (site : NodeId) (used : Identifier),
      (program.nodes.map Node.id).Nodup →
      .statement (.loop id bound iterated block) ∈ program.nodes →
      (program.resolve (some id)).reachedTarget = true →
      .identifier site used ∈ iterated.outline.mentions →
      (program.resolve none).Refers site used
        ((program.resolve (some id)).values.get? used.name) := by
  intro h
  have hrefers := h loopOverNamesake (.ofNat 11) _ _ _ (.ofNat 14) ⟨.ofNat 15, "x", false⟩
    (by decide) (List.mem_of_getElem? (i := 11) rfl) (by decide)
    (List.mem_of_getElem? (i := 0) rfl)
  have hpattern := hrefers.patternFor_eq
  revert hpattern
  decide

end TreeLang
