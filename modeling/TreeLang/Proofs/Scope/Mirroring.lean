import TreeLang.Proofs.Scope.Containment

/-!
# Namespaces and the table of paths mirror each other

The namespaces and the table of paths are filled by the same registrations, so one of them can be
read off the other. Nothing that is declared in a function or in a record is in either of them,
except for the function or the record itself.
-/

namespace TreeLang

open Resolver (Action Note)

/-! ## Inside of functions -/

namespace Resolver

/-- Whether an action leaves the number of functions around it as it is. -/
def Action.isLevel : Action → Bool
  | .enterFunction | .leaveFunction => false
  | _ => true

/-- An action other than entering and leaving functions keeps the number of functions around. -/
theorem functionDepth_perform (r : Resolver) {action : Action} (h : action.isLevel = true) :
    (r.perform action).functionDepth = r.functionDepth := by
  induction action using Action.byPlace with
  | stays action hstays => exact (r.samePlace_perform hstays).depth_eq
  | register pattern =>
    simp only [perform, register]
    split
    · rfl
    · split <;> rfl
  | enterSpace name => rfl
  | leaveSpace => rfl
  | enterFunction => cases h
  | leaveFunction => cases h

/-- Actions other than entering and leaving functions keep the number of functions around. -/
theorem functionDepth_performAll {actions : List Action} (h : actions.all Action.isLevel = true)
    (r : Resolver) : (performAll actions r).functionDepth = r.functionDepth := by
  induction actions generalizing r with
  | nil => rfl
  | cons action rest ih =>
    obtain ⟨haction, hrest⟩ := Bool.and_eq_true_iff.1 h
    exact (ih hrest _).trans (r.functionDepth_perform haction)

/-- Inside of a function nothing gets a path. -/
theorem pathsOf_of_inFunction {r : Resolver} (h : 0 < r.functionDepth) (action : Action) :
    r.pathsOf action = [] := by
  cases action with
  | register pattern => rw [pathsOf, if_pos h]
  | _ => rfl

/-- Inside of a function nothing gets a path, as long as the function is not left. -/
theorem gathered_pathsOf_of_inFunction {actions : List Action}
    (h : actions.all Action.isLevel = true) {r : Resolver} (hdepth : 0 < r.functionDepth) :
    gathered pathsOf actions r = [] := by
  induction actions generalizing r with
  | nil => rfl
  | cons action rest ih =>
    obtain ⟨haction, hrest⟩ := Bool.and_eq_true_iff.1 h
    rw [gathered, pathsOf_of_inFunction hdepth, List.nil_append]
    exact ih hrest (by rwa [r.functionDepth_perform haction])

/-- A run of the actions comes out of all functions that it goes into, and inside of a function it
registers nothing. -/
structure Action.Balanced (actions : List Action) : Prop where
  depth_eq : ∀ r, (performAll actions r).functionDepth = r.functionDepth
  pathsOf_eq_nil : ∀ r : Resolver, 0 < r.functionDepth → gathered pathsOf actions r = []

namespace Action.Balanced

variable {first second below : List Action}

/-- Doing nothing is balanced. -/
theorem nil : Balanced [] := ⟨fun _ => rfl, fun _ _ => rfl⟩

/-- Actions that enter and leave no function are balanced. -/
theorem of_all (h : first.all Action.isLevel = true) : Balanced first :=
  ⟨functionDepth_performAll h, fun _ => gathered_pathsOf_of_inFunction h⟩

/-- Balanced actions one after the other are balanced. -/
theorem append (h : Balanced first) (h' : Balanced second) : Balanced (first ++ second) where
  depth_eq r := by rw [performAll_append, h'.depth_eq, h.depth_eq]
  pathsOf_eq_nil r hdepth := by
    rw [gathered_append, h.pathsOf_eq_nil r hdepth, List.nil_append]
    exact h'.pathsOf_eq_nil _ (by rwa [h.depth_eq])

/-- One function deeper and back again. -/
theorem function (h : Balanced below) :
    Balanced ([.enterFunction] ++ (below ++ [.leaveFunction, .popValues, .popTypes])) where
  depth_eq r := by
    rw [performAll_append, performAll_append]
    change (performAll below _).functionDepth - 1 = _
    rw [h.depth_eq]
    rfl
  pathsOf_eq_nil r _ := by
    rw [gathered_append, gathered_append, h.pathsOf_eq_nil _ (Nat.succ_pos _)]
    rfl

/-- What is done in several outlines is balanced when it is balanced in each. -/
theorem flatMap {outlines : List Outline} (h : ∀ c ∈ outlines, Balanced c.actions) :
    Balanced (outlines.flatMap Outline.actions) := by
  induction outlines with
  | nil => exact nil
  | cons c rest ih =>
    obtain ⟨hc, hrest⟩ := List.forall_mem_cons.1 h
    rw [List.flatMap_cons]
    exact hc.append (ih hrest)

end Action.Balanced

end Resolver

open Resolver (performAll performAll_append gathered gathered_append pathsOf)

/-- Whether a node is a function. -/
def Node.isFunction : Node → Bool
  | .declaration (.function _ _ _ _ _ _) => true
  | _ => false

/-- Only the visits of a function change the number of functions around. -/
theorem Node.all_isLevel {node : Node} (h : node.isFunction = false) (again : Bool) :
    (node.actions again).all Action.isLevel = true := by
  -- going into a function and out of it are the only actions that change the number
  cases node with
  | declaration declaration =>
    cases declaration with
    | function => cases h
    | enumeration id name generics cases =>
      cases again with
      | false => rfl
      | true =>
        have hcases : (cases.flatMap EnumerationCase.actions).all Action.isLevel = true :=
          EnumerationCase.all_actions (fun _ => rfl) (fun _ => rfl) cases
        simp only [actions, Declaration.leaving, List.all_append]
        rw [hcases]
        rfl
    | record id name generics declarations =>
      cases again with
      | false => rfl
      | true =>
        simp only [actions, Declaration.leaving]
        split <;> rfl
    | value | space | library | placeholder => cases again <;> rfl
  | statement statement => cases statement <;> cases again <;> rfl
  | expression expression =>
    cases expression with
    | member id base name =>
      cases again with
      | false =>
        rw [actions]
        cases (Expression.member id base name).memberPath <;> rfl
      | true => rfl
    | binary | identifier | call | literal | placeholder => cases again <;> rfl
  | program | pattern | identifier | typeForm | literal | parameter | generic | case | argument =>
    cases again <;> rfl

/-- Entering a function ends with the step into it. -/
theorem Node.entering_function {node : Node} (h : node.isFunction = true) :
    ∃ before, node.actions false = before ++ [.enterFunction] ∧
      before.all Action.isLevel = true ∧
      node.actions true = [.leaveFunction, .popValues, .popTypes] := by
  cases node with
  | declaration declaration =>
    cases declaration with
    | function id name result generics parameters block =>
      refine ⟨_, rfl, ?_, rfl⟩
      have hparameters : (parameters.flatMap Parameter.actions).all Action.isLevel = true :=
        Parameter.all_actions (fun _ => rfl) parameters
      simp only [List.all_append, List.all_map]
      rw [hparameters]
      simp [Action.isLevel]
    | value | enumeration | record | space | library | placeholder => cases h
  | program | statement | expression | pattern | identifier | typeForm | literal | parameter
  | generic | case | argument => cases h

/-- Entering a function counts one more. -/
theorem Node.functionDepth_entering {node : Node} (h : node.isFunction = true) (r : Resolver) :
    (performAll (node.actions false) r).functionDepth = r.functionDepth + 1 := by
  obtain ⟨before, hentering, hbefore, -⟩ := entering_function h
  rw [hentering, performAll_append]
  exact congrArg (· + 1) (Resolver.functionDepth_performAll hbefore r)

namespace Outline

/-- What is done at a node comes before and after what is done in its children. -/
theorem actions_node (item : Node) (children : List Outline) :
    (node item children).actions = item.actions false ++
      ((if item.isPassedBy then [] else children.flatMap actions) ++ item.actions true) := by
  rw [actions, actionsAll_eq_flatMap]

/-- A walk comes out of all functions that it goes into, and in a function it registers nothing. -/
theorem balanced_actions (outline : Outline) : Action.Balanced outline.actions := by
  induction outline with
  | node item children ih =>
    have hbelow : Action.Balanced (if item.isPassedBy then [] else children.flatMap actions) := by
      split
      · exact .nil
      · exact .flatMap ih
    rw [actions_node]
    cases hfunction : item.isFunction with
    | false =>
      have hlevel := fun again => Action.Balanced.of_all (Node.all_isLevel hfunction again)
      exact (hlevel false).append (hbelow.append (hlevel true))
    | true =>
      obtain ⟨before, hentering, hbefore, hleaving⟩ := Node.entering_function hfunction
      rw [hentering, hleaving, List.append_assoc]
      exact (Action.Balanced.of_all hbefore).append hbelow.function

/-! ## What is not registered -/

/-- What a run gives for several outlines, it gives for one of them. -/
theorem mem_gathered_flatMap {α : Type} {give : Resolver → Action → List α}
    {outlines : List Outline} {r : Resolver} {entry : α}
    (h : entry ∈ gathered give (outlines.flatMap actions) r) :
    ∃ c ∈ outlines, ∃ r', entry ∈ gathered give c.actions r' := by
  induction outlines generalizing r with
  | nil => cases h
  | cons c rest ih =>
    rw [List.flatMap_cons, gathered_append, List.mem_append] at h
    rcases h with h | h
    · exact ⟨c, List.mem_cons_self, r, h⟩
    · obtain ⟨c', hc', r', h⟩ := ih h
      exact ⟨c', List.mem_cons_of_mem _ hc', r', h⟩

end Outline

/-- Whether what a declaration declares is not registered. -/
def Declaration.encloses : Declaration → Bool
  | .function _ _ _ _ _ _ | .record _ _ _ _ => true
  | .value _ _ _ _ | .enumeration _ _ _ _ | .space _ _ _ | .library _ _ | .placeholder _ => false

/-- The name of a declaration is one of its nodes. -/
theorem Declaration.name_mem_preorder {declaration : Declaration} {name : Pattern}
    (h : declaration.name = some name) : .pattern name ∈ declaration.outline.preorder := by
  cases declaration with
  | placeholder id => cases h
  | value | function | enumeration | record | space | library =>
    cases h
    exact Outline.item_mem_preorder_of_mem List.mem_cons_self

/-- There is no declaration in a pattern. -/
theorem Pattern.declaration_not_mem (declaration : Declaration) (pattern : Pattern) :
    .declaration declaration ∉ pattern.outline.preorder := by
  intro h
  cases List.mem_singleton.1 h

mutual

/-- There is no declaration in a written type. -/
theorem TypeForm.declaration_not_mem (declaration : Declaration) : (form : TypeForm) →
    .declaration declaration ∉ form.outline.preorder
  | .named _ identifier arguments => by
    simp only [outline, Outline.mem_preorder_node, List.mem_cons, not_or, not_exists, not_and]
    refine ⟨nofun, ?_⟩
    rintro c (rfl | hc)
    · exact fun h => nomatch List.mem_singleton.1 h
    · exact TypeForm.declaration_not_mem_outlines declaration arguments c hc
  | .function _ result parameters => by
    simp only [outline, Outline.mem_preorder_node, List.mem_cons, not_or, not_exists, not_and]
    refine ⟨nofun, ?_⟩
    rintro c (rfl | hc)
    · exact TypeForm.declaration_not_mem declaration result
    · exact TypeForm.declaration_not_mem_outlines declaration parameters c hc
  | .placeholder _ => fun h => nomatch List.mem_singleton.1 h

/-- There is no declaration in types. -/
theorem TypeForm.declaration_not_mem_outlines (declaration : Declaration) :
    (forms : List TypeForm) → ∀ c ∈ TypeForm.outlines forms, .declaration declaration ∉ c.preorder
  | [] => nofun
  | form :: rest => List.forall_mem_cons.2
    ⟨TypeForm.declaration_not_mem declaration form,
      TypeForm.declaration_not_mem_outlines declaration rest⟩

end

/-- There is no declaration in an enumeration. -/
theorem Declaration.not_mem_enumeration (declaration : Declaration) {name : Pattern}
    {generics : List GenericParameter} {cases : List EnumerationCase} {c : Outline}
    (hc : c ∈ name.outline ::
      (generics.map GenericParameter.outline ++ cases.map EnumerationCase.outline)) :
    .declaration declaration ∉ c.preorder := by
  have hpattern := Pattern.declaration_not_mem declaration
  rcases List.mem_cons.1 hc with rfl | hc
  · exact hpattern name
  · rcases List.mem_append.1 hc with hc | hc
    · obtain ⟨generic, -, rfl⟩ := List.mem_map.1 hc
      cases generic with
      | parameter id name => simp [GenericParameter.outline, Outline.mem_preorder_node, hpattern]
      | placeholder id => simp [GenericParameter.outline, Outline.mem_preorder_node]
    · obtain ⟨case, -, rfl⟩ := List.mem_map.1 hc
      cases case with
      | case id name forms =>
        simp only [EnumerationCase.outline, Outline.mem_preorder_node, List.mem_cons, not_or,
          not_exists, not_and, reduceCtorEq, not_false_eq_true, true_and]
        rintro c (rfl | hc)
        · exact hpattern name
        · exact TypeForm.declaration_not_mem_outlines declaration forms c hc
      | placeholder id => simp [EnumerationCase.outline, Outline.mem_preorder_node]

namespace Outline

variable {item : Node} {children : List Outline} {outline : Outline} {c : Outline} {id : NodeId}

/-- The name of a declaration is apart from what its other children declare. -/
theorem name_id_not_mem {name : Pattern} {declaration : Declaration}
    (distinct : ((name.outline :: children).flatMap ids).Nodup) (hc : c ∈ name.outline :: children)
    (hdeclaration : .declaration declaration ∈ c.preorder) : name.id ∉ c.ids := by
  rw [List.flatMap_cons, List.nodup_append] at distinct
  obtain ⟨-, -, hdisjoint⟩ := distinct
  rcases List.mem_cons.1 hc with rfl | hc
  · exact absurd hdeclaration (Pattern.declaration_not_mem declaration name)
  · exact fun hmem =>
      hdisjoint name.id List.mem_cons_self name.id (List.mem_flatMap.2 ⟨c, hc, hmem⟩) rfl

/-- What a node registers is apart from the ids of a child in which something is declared. -/
theorem path_key_not_mem (root : item.outline = node item children)
    (distinct : (children.flatMap ids).Nodup) (hc : c ∈ children) {declaration : Declaration}
    (hdeclaration : .declaration declaration ∈ c.preorder) (hkey : (Note.path, id) ∈ item.keys) :
    id ∉ c.ids := by
  have hchildren := children_of_root root
  subst hchildren
  cases item with
  | declaration d =>
    rw [d.keys_eq] at hkey
    cases d with
    -- what is registered is a name, which is another child than the one with a declaration
    | value i name form initializer =>
      have hid : id = name.id := by simpa [Declaration.keys] using hkey
      exact hid ▸ name_id_not_mem distinct hc hdeclaration
    | function i name result generics parameters block =>
      have hid : id = name.id := by simpa [Declaration.keys] using hkey
      exact hid ▸ name_id_not_mem distinct hc hdeclaration
    | record i name generics declarations =>
      have hid : id = name.id := by
        rw [Declaration.keys] at hkey
        split at hkey
        · simp at hkey
        · simpa using hkey
      exact hid ▸ name_id_not_mem distinct hc hdeclaration
    | enumeration i name generics cases =>
      exact absurd hdeclaration (declaration.not_mem_enumeration hc)
    | space | library | placeholder => cases hkey
  | statement statement => cases statement <;> cases hkey
  | expression expression =>
    cases expression with
    | identifier i used => simp [Node.keys, Node.actions, Action.keys] at hkey
    | member i base name =>
      rw [Node.keys, Node.actions] at hkey
      cases hpath : (Expression.member i base name).memberPath <;> rw [hpath] at hkey <;>
        simp [Node.actions, Action.keys] at hkey
    | binary | call | literal | placeholder => cases hkey
  | program | pattern | identifier | typeForm | literal | parameter | generic | case | argument =>
    cases hkey

/-- What a run of the actions of an outline registers, it registers at the node or below it. -/
theorem mem_gathered_node {r : Resolver} {entry : NodeId × List String}
    (h : entry ∈ gathered pathsOf (node item children).actions r) :
    (Note.path, entry.1) ∈ item.keys ∨ item.isPassedBy = false ∧
      entry ∈ gathered pathsOf (children.flatMap actions) (performAll (item.actions false) r) := by
  have hitem : ∀ {again r}, entry ∈ gathered pathsOf (item.actions again) r →
      (Note.path, entry.1) ∈ item.keys := by
    intro again r h
    have hkey := Resolver.mem_keys_of_mem_gathered Resolver.pathsOf_sublist h
    rw [Node.keys, List.flatMap_append, List.mem_append]
    cases again with
    | false => exact .inl hkey
    | true => exact .inr hkey
  rw [actions_node, gathered_append, gathered_append, List.mem_append, List.mem_append] at h
  rcases h with h | h | h
  · exact .inl (hitem h)
  · split at h
    · cases h
    · next hpassed => exact .inr ⟨Bool.eq_false_iff.2 hpassed, h⟩
  · exact .inl (hitem h)

/-- Of a function and of what is in it, the function alone can be registered, and so for a
record. -/
theorem eq_name_of_mem_gathered {declaration : Declaration}
    (hencloses : declaration.encloses = true) {r : Resolver} {entry : NodeId × List String}
    (h : entry ∈ gathered pathsOf (node (.declaration declaration) children).actions r) :
    ∃ name, declaration.name = some name ∧ entry.1 = name.id := by
  rcases mem_gathered_node h with hkey | ⟨hpassed, hbelow⟩
  · rw [declaration.keys_eq] at hkey
    -- at the declaration itself it is its own name that is registered
    cases declaration with
    | function id name result generics parameters block =>
      exact ⟨name, rfl, by simpa [Declaration.keys] using hkey⟩
    | record id name generics declarations =>
      refine ⟨name, rfl, ?_⟩
      rw [Declaration.keys] at hkey
      split at hkey
      · simp at hkey
      · simpa using hkey
    | value | enumeration | space | library | placeholder => cases hencloses
  · -- below it nothing is, as the function is around or the members are passed by
    cases declaration with
    | function id name result generics parameters block =>
      have hfunction : (Node.declaration
          (.function id name result generics parameters block)).isFunction = true := rfl
      have hdepth := (Nat.succ_pos _).trans_eq (Node.functionDepth_entering hfunction r).symm
      have hnone := Action.Balanced.flatMap fun c (_ : c ∈ children) => c.balanced_actions
      rw [hnone.pathsOf_eq_nil _ hdepth] at hbelow
      cases hbelow
    | record => cases hpassed
    | value | enumeration | space | library | placeholder => cases hencloses

/-- What is declared in a function or in a record is not registered. -/
theorem Faithful.not_registered (h : outline.Faithful) (distinct : outline.ids.Nodup)
    {declaration : Declaration} (hmem : .declaration declaration ∈ outline.preorder)
    (hencloses : declaration.encloses = true) {pattern : Pattern}
    (hpattern : .pattern pattern ∈ declaration.outline.preorder)
    (hname : declaration.name ≠ some pattern) {r : Resolver} {entry : NodeId × List String}
    (hentry : entry ∈ gathered pathsOf outline.actions r) : entry.1 ≠ pattern.id := by
  -- by induction on the outline: the declaration is this node, or it is in one of its children
  induction h generalizing r with
  | @node item children root below ih =>
    rcases mem_preorder_node.1 hmem with rfl | ⟨c, hc, hdeclaration⟩
    · obtain ⟨name, hown, hid⟩ := eq_name_of_mem_gathered hencloses hentry
      rw [hid]
      intro heq
      have hroot : declaration.outline = Outline.node (.declaration declaration) children := root
      rw [← hroot] at distinct
      have hsame := eq_of_id_eq distinct (Declaration.name_mem_preorder hown) hpattern heq
      obtain rfl := Node.pattern.inj hsame
      exact hname hown
    · rw [ids_node] at distinct
      have hdistinct := (List.nodup_cons.1 distinct).2
      have hinside : pattern.id ∈ c.ids :=
        mem_ids.2 ⟨.pattern pattern, (below c hc).preorder_subset hdeclaration hpattern, rfl⟩
      -- what is registered is this node's own name, or comes from a child, which is the same or
      -- another one
      rcases mem_gathered_node hentry with hkey | ⟨-, hbelow⟩
      · intro heq
        exact path_key_not_mem root hdistinct hc hdeclaration hkey (heq ▸ hinside)
      · obtain ⟨c', hc', r', hentry'⟩ := mem_gathered_flatMap hbelow
        by_cases hsame : c' = c
        · subst hsame
          exact ih c' hc ((List.nodup_flatMap.1 hdistinct).1 c' hc) hdeclaration hentry'
        · have : Std.Symm (Function.onFun List.Disjoint ids) := ⟨fun _ _ => List.disjoint_symm⟩
          have hdisjoint := (List.nodup_flatMap.1 hdistinct).2.forall hc' hc hsame
          intro heq
          exact hdisjoint ((below c' hc').mem_ids_of_mem_gathered Resolver.pathsOf_sublist hentry')
            (heq ▸ hinside)

end Outline

/-! ## Programs -/

namespace Resolver

/-- An action registers one thing at most. -/
theorem registrationsOf_eq (r : Resolver) (action : Action) :
    r.registrationsOf action = [] ∨ ∃ registration, r.registrationsOf action = [registration] := by
  cases action with
  | register pattern =>
    rw [registrationsOf]
    split
    · exact .inl rfl
    · exact .inr ⟨_, rfl⟩
  | enterSpace name => exact .inr ⟨_, rfl⟩
  | _ => exact .inl rfl

/-- A registration of a run is attempted by one of its actions, after those before it. -/
theorem exists_action_of_registration {actions : List Action} {r : Resolver}
    {before after : List Registration} {registration : Registration}
    (h : gathered registrationsOf actions r = before ++ registration :: after) :
    ∃ first action rest, actions = first ++ action :: rest ∧
      gathered registrationsOf first r = before ∧
      registration ∈ (performAll first r).registrationsOf action := by
  induction actions generalizing r before with
  | nil => cases before <;> cases h
  | cons action rest ih =>
    rw [gathered] at h
    -- an action attempts one registration at most: this one, an earlier one, or none
    rcases r.registrationsOf_eq action with hnone | ⟨other, hone⟩
    · rw [hnone, List.nil_append] at h
      obtain ⟨first, action', rest', rfl, hfirst, hmem⟩ := ih h
      exact ⟨action :: first, action', rest', rfl, by rw [gathered, hnone, List.nil_append, hfirst],
        hmem⟩
    · rw [hone, List.singleton_append] at h
      cases before with
      | nil =>
        obtain ⟨rfl, -⟩ := List.cons.inj h
        exact ⟨[], action, rest, rfl, rfl, hone ▸ List.mem_singleton_self other⟩
      | cons earlier before =>
        obtain ⟨rfl, hlater⟩ := List.cons.inj h
        obtain ⟨first, action', rest', rfl, hfirst, hmem⟩ := ih hlater
        exact ⟨action :: first, action', rest', rfl,
          by rw [gathered, hone, List.singleton_append, hfirst], hmem⟩

/-- The namespaces after a run are made by its registrations. -/
theorem space_performAll (actions : List Action) (r : Resolver) :
    (performAll actions r).scope.space =
      (gathered registrationsOf actions r).foldl Registration.apply r.scope.space :=
  performAll_extends (·.scope.space) (fun _ => rfl) (fun _ _ _ => List.foldl_append) space_perform
    actions r

end Resolver

open Resolver (Registration registrationsOf)

/-- The edits of the namespaces that the resolution of a program attempts, up to a target if there
is one. -/
def Program.registrations (program : Program) (target : Option NodeId) : List Registration :=
  gathered registrationsOf (program.resolutionActions target) {}

/-- What the namespaces and the table of paths of a scope have to do with each other, and with the
registrations that have filled them. -/
structure Scope.Mirrors (scope : Scope) (registrations : List Registration) : Prop where
  /-- A path holds a declaration when that is the path of the declaration. -/
  pattern?_iff : ∀ {path pattern},
    scope.space.pattern? path = some pattern ↔ scope.qualifiedName pattern = some path
  /-- The namespaces are made by the registrations, those that fail left out. -/
  space_eq : scope.space = registrations.foldl Registration.apply []
  /-- A registration that fails is that of a declaration at a path that holds one already. -/
  taken : ∀ {before registration after e}, registrations = before ++ registration :: after →
    registration.attempt (before.foldl Registration.apply []) = .error e →
    ∃ path pattern, registration = .declare path pattern ∧ e = .alreadyDefined path ∧
      ((before.foldl Registration.apply []).pattern? path).isSome
  /-- A path holds the first declaration that is registered there. -/
  first : ∀ path, scope.space.pattern? path = registrations.findSome? (Registration.declaredAt path)

/-- A run of actions that note apart leaves a scope that its registrations have filled. -/
theorem Resolver.Action.Apart.mirrors {actions : List Action} (h : Action.Apart actions) :
    (performAll actions {}).scope.Mirrors (gathered registrationsOf actions {}) := by
  have hopens : Namespace.Opens ({} : Resolver).path ({} : Resolver).scope.space :=
    Namespace.opens_nil _
  have hempty : ∀ path, Namespace.pattern? path ({} : Resolver).scope.space = none := by
    intro path
    rw [Namespace.pattern?_eq, Namespace.entryAt_of_empty]
    rfl
  refine ⟨?_, space_performAll actions {}, ?_, fun path => ?_⟩
  · intro path pattern
    rw [h.holds.qualifiedName_iff, pattern?_performAll_iff hopens, hempty, or_iff_right nofun]
  · intro before registration after e hsplit hfails
    obtain ⟨first, action, rest, -, rfl, hmem⟩ := exists_action_of_registration hsplit
    -- the registrations before the one that fails have made the namespaces that it finds
    have hmade : (performAll first {}).scope.space =
        (gathered registrationsOf first {}).foldl Registration.apply [] :=
      space_performAll first {}
    rw [← hmade] at hfails ⊢
    exact attempt_eq_error (opens_performAll hopens first) hmem hfails
  · rw [pattern?_performAll hopens, hempty, Option.none_or]

/-- Of a function or a record and all that is declared in it, at most itself has a path. -/
theorem Program.qualifiedName_eq_none {program : Program}
    (distinct : (program.nodes.map Node.id).Nodup) (target : Option NodeId)
    {declaration : Declaration} (hmem : .declaration declaration ∈ program.nodes)
    (hencloses : declaration.encloses = true) {pattern : Pattern}
    (hpattern : .pattern pattern ∈ declaration.outline.preorder)
    (hname : declaration.name ≠ some pattern) :
    (program.resolve target).qualifiedName pattern.id = none := by
  obtain ⟨reached, hresolve⟩ := program.resolve_eq_performAll target
  have hqualified : (program.resolve target).qualifiedName =
      (performAll (program.resolutionActions target) {}).scope.qualifiedName := by
    rw [hresolve]
    rfl
  rw [Option.eq_none_iff_forall_ne_some]
  intro path hfind
  rw [hqualified, (program.apart distinct target).holds.qualifiedName_iff] at hfind
  -- what the run up to a target registers, the whole run registers too
  obtain ⟨rest, hactions⟩ := program.resolutionActions_isPrefix target
  have hentry : (pattern.id, path) ∈ gathered pathsOf program.outline.actions {} :=
    hactions ▸ Resolver.gathered_subset _ _ _ hfind
  exact program.outline_faithful.not_registered distinct hmem hencloses hpattern hname hentry rfl

/-- Where the ids of a program are distinct, its namespaces and its table of paths mirror each
other, up to any target. Of a function or a record and all that is declared in it, at most itself is
in them. -/
theorem Program.namespaces_mirror_paths {program : Program}
    (distinct : (program.nodes.map Node.id).Nodup) (target : Option NodeId) :
    (program.resolve target).Mirrors (program.registrations target) ∧
      ∀ declaration, .declaration declaration ∈ program.nodes → declaration.encloses = true →
        ∀ pattern, .pattern pattern ∈ declaration.outline.preorder →
          declaration.name ≠ some pattern →
            (program.resolve target).qualifiedName pattern.id = none ∧
              ∀ path, (program.resolve target).space.pattern? path ≠ some pattern.id := by
  obtain ⟨reached, hresolve⟩ := program.resolve_eq_performAll target
  have hmirrors : (program.resolve target).Mirrors (program.registrations target) := by
    rw [hresolve]
    exact { (program.apart distinct target).mirrors with }
  refine ⟨hmirrors, fun declaration hmem hencloses pattern hpattern hname => ?_⟩
  have hnone := qualifiedName_eq_none distinct target hmem hencloses hpattern hname
  refine ⟨hnone, fun path hheld => ?_⟩
  rw [hmirrors.pattern?_iff, hnone] at hheld
  cases hheld

/-- `namespace n { let z; enum e { a }; struct z { let k } }`, then `namespace n { let z; let w }`,
and at last `func f(x: _) -> _ { let y }`. -/
def reopenedProgram : Program where
  id := .ofNat 0
  block := [
    .declaration (.ofNat 1) (.space (.ofNat 2) ⟨.ofNat 3, "n"⟩
      [.value (.ofNat 4) ⟨.ofNat 5, "z"⟩ none none,
        .enumeration (.ofNat 6) ⟨.ofNat 7, "e"⟩ [] [.case (.ofNat 8) ⟨.ofNat 9, "a"⟩ []],
        .record (.ofNat 10) ⟨.ofNat 11, "z"⟩ [] [.value (.ofNat 12) ⟨.ofNat 13, "k"⟩ none none]]),
    .declaration (.ofNat 14) (.space (.ofNat 15) ⟨.ofNat 16, "n"⟩
      [.value (.ofNat 17) ⟨.ofNat 18, "z"⟩ none none,
        .value (.ofNat 19) ⟨.ofNat 20, "w"⟩ none none]),
    .declaration (.ofNat 21) (.function (.ofNat 22) ⟨.ofNat 23, "f"⟩ (.placeholder (.ofNat 24)) []
      [.parameter (.ofNat 25) none ⟨.ofNat 26, "x"⟩ (.placeholder (.ofNat 27)) none]
      [.declaration (.ofNat 28) (.value (.ofNat 29) ⟨.ofNat 30, "y"⟩ none none)])]

/-- A namespace that is opened again keeps its first `z`, which a record and another value of that
name are refused for; a case of an enumeration has a path one longer, and nothing in a function has
one. -/
theorem namespaces_mirror_paths_reopened :
    (reopenedProgram.nodes.map Node.id).Nodup ∧
      (reopenedProgram.resolve none).Mirrors (reopenedProgram.registrations none) ∧
      (reopenedProgram.resolve none).qualified =
        [(.ofNat 5, ["n", "z"]), (.ofNat 9, ["n", "e", "a"]), (.ofNat 20, ["n", "w"]),
          (.ofNat 23, ["f"])] ∧
      (reopenedProgram.resolve none).qualifiedName (.ofNat 30) = none ∧
      reopenedProgram.registrations (some (.ofNat 17)) =
        [.makeSpace ["n"], .declare ["n", "z"] (.ofNat 5), .makeSpace ["n", "e"],
          .declare ["n", "e", "a"] (.ofNat 9), .declare ["n", "z"] (.ofNat 11),
          .makeSpace ["n"]] := by
  have hdistinct : (reopenedProgram.nodes.map Node.id).Nodup := by decide
  obtain ⟨hmirrors, hhidden⟩ := Program.namespaces_mirror_paths hdistinct none
  set f : Declaration := .function (.ofNat 22) ⟨.ofNat 23, "f"⟩ (.placeholder (.ofNat 24)) []
    [.parameter (.ofNat 25) none ⟨.ofNat 26, "x"⟩ (.placeholder (.ofNat 27)) none]
    [.declaration (.ofNat 28) (.value (.ofNat 29) ⟨.ofNat 30, "y"⟩ none none)]
  have hf : reopenedProgram.nodes[22]? = some (.declaration f) := rfl
  have hy : f.outline.preorder[8]? = some (.pattern ⟨.ofNat 30, "y"⟩) := rfl
  have hnone := hhidden f (List.mem_of_getElem? hf) rfl _ (List.mem_of_getElem? hy) (by decide)
  exact ⟨hdistinct, hmirrors, by decide +kernel, hnone.1, by decide +kernel⟩

end TreeLang
