import Mathlib.Data.List.Perm.Subperm
import TreeLang.Proofs.Scope.Actions

/-!
# The ids that name resolution notes things under

An action notes something under ids of the node that it belongs to, or of the patterns of that node.
Where the ids of a program are distinct, no two actions note the same sort of thing under one id,
names apart; and what is named twice is one pattern.
-/

namespace TreeLang

open Resolver (Action)

namespace Resolver

/-- What is noted under an id, besides names: what it refers to, its path, its type parameters. -/
inductive Note where
  | target
  | path
  | typeParameters
  deriving DecidableEq

namespace Action

/-- What an action can note, and under which ids. -/
def keys : Action → List (Note × NodeId)
  | .resolve id used => [(.target, id), (.target, used.id)]
  | .resolvePath id _ => [(.target, id)]
  | .register pattern => [(.path, pattern.id)]
  | .noteTypeParameters name _ => [(.typeParameters, name.id)]
  | .bindValue _ | .bindType _ | .nameOnly _ | .pushValues | .popValues | .pushTypes | .popTypes
  | .enterSpace _ | .leaveSpace | .enterFunction | .leaveFunction => []

/-- The patterns whose names an action notes. -/
def named : Action → List Pattern
  | .bindValue pattern | .bindType pattern | .nameOnly pattern => [pattern]
  | .noteTypeParameters _ _ | .register _ | .pushValues | .popValues | .pushTypes | .popTypes
  | .enterSpace _ | .leaveSpace | .enterFunction | .leaveFunction | .resolve _ _
  | .resolvePath _ _ => []

end Action

end Resolver

open Resolver (Note)

/-! ## Keys of a node -/

/-- What is noted of a case. -/
def EnumerationCase.keys : EnumerationCase → List (Note × NodeId)
  | .case _ name _ => [(.path, name.id)]
  | .placeholder _ => []

/-- What is noted at a declaration. -/
def Declaration.keys : Declaration → List (Note × NodeId)
  | .value _ name _ _ => [(.path, name.id)]
  | .function _ name _ _ _ _ => [(.path, name.id), (.typeParameters, name.id)]
  | .enumeration _ name _ cases =>
    (.typeParameters, name.id) :: cases.flatMap EnumerationCase.keys
  | .record _ name _ _ =>
    (.typeParameters, name.id) :: if name.name ∈ primitiveTypes then [] else [(.path, name.id)]
  | .space _ _ _ | .library _ _ | .placeholder _ => []

/-- What is noted at a node. -/
def Node.keys (node : Node) : List (Note × NodeId) :=
  (node.actions false ++ node.actions true).flatMap Action.keys

/-- Binding parameters notes nothing. -/
theorem Parameter.flatMap_keys_actions (parameters : List Parameter) :
    (parameters.flatMap Parameter.actions).flatMap Action.keys = [] := by
  rw [List.flatMap_assoc, List.flatMap_eq_nil_iff]
  intro parameter _
  cases parameter <;> rfl

/-- Registering the cases of an enumeration notes the keys of each. -/
theorem EnumerationCase.flatMap_keys_actions (cases : List EnumerationCase) :
    (cases.flatMap EnumerationCase.actions).flatMap Action.keys =
      cases.flatMap EnumerationCase.keys := by
  rw [List.flatMap_assoc]
  refine List.flatMap_congr fun case _ => ?_
  cases case <;> rfl

/-- Binding types notes nothing. -/
theorem Pattern.flatMap_keys_bindType (patterns : List Pattern) :
    (patterns.map Action.bindType).flatMap Action.keys = [] := by
  rw [List.flatMap_map, List.flatMap_eq_nil_iff]
  exact fun _ _ => rfl

/-- The keys of a declaration are those of its first and of its last actions. -/
theorem Declaration.keys_eq (declaration : Declaration) :
    (Node.declaration declaration).keys = declaration.keys := by
  rw [Node.keys]
  simp only [Node.actions]
  cases declaration with
  | function id name result generics parameters block =>
    simp only [entering, leaving, List.flatMap_append, Parameter.flatMap_keys_actions,
      Pattern.flatMap_keys_bindType]
    rfl
  | enumeration id name generics cases =>
    simp only [entering, leaving, List.flatMap_append, EnumerationCase.flatMap_keys_actions]
    simp [Action.keys, keys]
  | record id name generics declarations =>
    simp only [entering, leaving, keys]
    split <;> rfl
  | value | space | library | placeholder => rfl

/-! ## Keys of an outline -/

namespace Note

/-- All that can be noted under some ids. -/
def all (ids : List NodeId) : List (Note × NodeId) :=
  ids.flatMap fun id => [(.target, id), (.path, id), (.typeParameters, id)]

/-- All notes for several identifiers are those for the first ones and those for the others. -/
theorem all_append (first second : List NodeId) : all (first ++ second) = all first ++ all second :=
  List.flatMap_append

/-- All notes for several identifiers are those for the first one and those for the others. -/
theorem all_cons (id : NodeId) (ids : List NodeId) : all (id :: ids) = all [id] ++ all ids :=
  all_append [id] ids

/-- A key is among all notes for some identifiers when its identifier is among these. -/
theorem mem_all_iff {ids : List NodeId} {key : Note × NodeId} : key ∈ all ids ↔ key.2 ∈ ids := by
  obtain ⟨note, id⟩ := key
  cases note <;> simp [all]

/-- Notes for different identifiers, or of different sorts, are different. -/
theorem nodup_all {ids : List NodeId} (distinct : ids.Nodup) : (all ids).Nodup := by
  induction ids with
  | nil => exact List.nodup_nil
  | cons id rest ih =>
    obtain ⟨hnew, hrest⟩ := List.nodup_cons.1 distinct
    rw [all_cons]
    refine List.Nodup.append (by simp [all]) (ih hrest) fun key hkey hmem => hnew ?_
    rw [mem_all_iff] at hkey hmem
    rwa [List.mem_singleton.1 hkey] at hmem

/-- Some of what can be noted under one id. -/
theorem subperm_all_singleton {keys : List (Note × NodeId)} {id : NodeId} (distinct : keys.Nodup)
    (h : ∀ key ∈ keys, key.2 = id) : keys.Subperm (all [id]) :=
  distinct.subperm fun key hkey => mem_all_iff.2 (List.mem_singleton.2 (h key hkey))

end Note

/-- The keys of the cases belong to identifiers of their outlines, each to a different one. -/
theorem EnumerationCase.keys_subperm (cases : List EnumerationCase) :
    (cases.flatMap keys).Subperm (Note.all ((cases.map outline).flatMap Outline.ids)) := by
  induction cases with
  | nil => exact .refl _
  | cons case rest ih =>
    rw [List.flatMap_cons, List.map_cons, List.flatMap_cons, Note.all_append]
    refine .append ?_ ih
    cases case with
    | placeholder id => exact List.nil_subperm
    | case id name forms =>
      have hname : name.id ∈ (EnumerationCase.case id name forms).outline.ids := by
        rw [outline, Outline.ids_node]
        exact List.mem_cons_of_mem _ List.mem_cons_self
      exact List.Nodup.subperm (List.nodup_singleton _)
        (List.cons_subset.2 ⟨Note.mem_all_iff.2 hname, List.nil_subset _⟩)

/-- Nothing is done in a type. -/
theorem TypeForm.actions_outline (form : TypeForm) : form.outline.actions = [] := by
  cases form <;> rfl

/-- Nothing is done in a generic parameter: the declaration that it belongs to binds it. -/
theorem GenericParameter.actions_outline (generic : GenericParameter) :
    generic.outline.actions = [] := by
  cases generic <;> rfl

/-- Nothing is done in a case: the enumeration that it belongs to registers it. -/
theorem EnumerationCase.actions_outline (case : EnumerationCase) : case.outline.actions = [] := by
  cases case with
  | placeholder id => rfl
  | case id name forms =>
    have hforms : (TypeForm.outlines forms).flatMap Outline.actions = [] := by
      rw [TypeForm.outlines_eq_map, List.flatMap_map, List.flatMap_eq_nil_iff]
      exact fun form _ => form.actions_outline
    rw [outline, Outline.actions, Outline.actionsAll_eq_flatMap, List.flatMap_cons, hforms]
    rfl

namespace Outline

variable {item : Node} {children : List Outline} {outline : Outline}

/-- What is noted in an outline. -/
def keys (outline : Outline) : List (Note × NodeId) := outline.actions.flatMap Action.keys

/-- The keys of a node are its own and those of its children, unless these are passed by. -/
theorem keys_node_perm (item : Node) (children : List Outline) :
    (node item children).keys.Perm
      (item.keys ++ if item.isPassedBy then [] else children.flatMap keys) := by
  have hbelow : (if item.isPassedBy then [] else actionsAll children).flatMap Action.keys =
      if item.isPassedBy then [] else children.flatMap keys := by
    split
    · rfl
    · rw [actionsAll_eq_flatMap, List.flatMap_assoc]
      rfl
  rw [keys, actions, Node.keys, List.flatMap_append, List.flatMap_append, List.flatMap_append,
    hbelow, List.append_assoc]
  exact List.perm_append_comm.append_left _

/-- The keys of several outlines belong to their identifiers when those of each do. -/
theorem flatMap_keys_subperm {outlines : List Outline}
    (h : ∀ c ∈ outlines, c.keys.Subperm (Note.all c.ids)) :
    (outlines.flatMap keys).Subperm (Note.all (outlines.flatMap ids)) := by
  induction outlines with
  | nil => exact .refl _
  | cons c rest ih =>
    obtain ⟨hc, hrest⟩ := List.forall_mem_cons.1 h
    rw [List.flatMap_cons, List.flatMap_cons, Note.all_append]
    exact hc.append (ih hrest)

/-- What a node notes under its own id goes with what is noted below it. -/
theorem keys_subperm_of_own (hown : item.keys.Subperm (Note.all [item.id]))
    (h : ∀ c ∈ children, c.keys.Subperm (Note.all c.ids)) :
    (node item children).keys.Subperm (Note.all (node item children).ids) := by
  refine (keys_node_perm item children).subperm.trans ?_
  rw [ids_node, Note.all_cons]
  refine hown.append ?_
  split
  · exact List.nil_subperm
  · exact flatMap_keys_subperm h

/-- What a node notes under the id of its first child goes with what is noted below it, when nothing
is noted in that child. -/
theorem keys_subperm_of_first {first : Outline} (hfirst : item.keys.Subperm (Note.all first.ids))
    (hnone : first.keys = []) (h : ∀ c ∈ children, c.keys.Subperm (Note.all c.ids)) :
    (node item (first :: children)).keys.Subperm
      (Note.all (node item (first :: children)).ids) := by
  refine (keys_node_perm item (first :: children)).subperm.trans ?_
  rw [ids_node, Note.all_cons, List.flatMap_cons, List.flatMap_cons, hnone, List.nil_append,
    Note.all_append]
  refine List.Subperm.trans (hfirst.append ?_) (List.sublist_append_right _ _).subperm
  split
  · exact List.nil_subperm
  · exact flatMap_keys_subperm h

/-- A declaration that notes all under the id of its name. -/
theorem keys_subperm_of_name {declaration : Declaration} {name : Pattern}
    (distinct : declaration.keys.Nodup) (hname : ∀ key ∈ declaration.keys, key.2 = name.id)
    (h : ∀ c ∈ name.outline :: children, c.keys.Subperm (Note.all c.ids)) :
    (node (.declaration declaration) (name.outline :: children)).keys.Subperm
      (Note.all (node (.declaration declaration) (name.outline :: children)).ids) := by
  have hfirst : (Node.declaration declaration).keys.Subperm (Note.all name.outline.ids) := by
    rw [declaration.keys_eq]
    exact Note.subperm_all_singleton distinct hname
  exact keys_subperm_of_first hfirst rfl (List.forall_mem_cons.1 h).2

/-- An enumeration notes something of its cases, below which nothing is noted. -/
theorem keys_subperm_enumeration (id : NodeId) (name : Pattern) (generics : List GenericParameter)
    (cases : List EnumerationCase) :
    (Declaration.enumeration id name generics cases).outline.keys.Subperm
      (Note.all (Declaration.enumeration id name generics cases).outline.ids) := by
  have hbelow : (name.outline :: (generics.map GenericParameter.outline ++
      cases.map EnumerationCase.outline)).flatMap keys = [] := by
    rw [List.flatMap_eq_nil_iff]
    refine List.forall_mem_cons.2 ⟨rfl, List.forall_mem_append.2 ⟨?_, ?_⟩⟩
    · exact List.forall_mem_map.2 fun generic _ => by rw [keys, generic.actions_outline]; rfl
    · exact List.forall_mem_map.2 fun case _ => by rw [keys, case.actions_outline]; rfl
  rw [Declaration.outline]
  refine (keys_node_perm _ _).subperm.trans ?_
  rw [Declaration.keys_eq, hbelow, ite_self, List.append_nil, ids_node, List.flatMap_cons,
    List.flatMap_append, Note.all_cons, Note.all_append, Note.all_append]
  have hname : [(Note.typeParameters, name.id)].Subperm (Note.all name.outline.ids) :=
    Note.subperm_all_singleton (List.nodup_singleton _) (List.forall_mem_singleton.2 rfl)
  have hcases := (EnumerationCase.keys_subperm cases).trans
    (List.sublist_append_right (Note.all ((generics.map GenericParameter.outline).flatMap ids)) _
      ).subperm
  exact (hname.append hcases).trans (List.sublist_append_right _ _).subperm

/-- What is noted in an outline is noted under its ids, each sort once. -/
theorem Faithful.keys_subperm (h : outline.Faithful) :
    outline.keys.Subperm (Note.all outline.ids) := by
  induction h with
  | @node item children root below ih =>
    have hchildren := children_of_root root
    cases item with
    | declaration d =>
      subst hchildren
      cases d with
      | value id name form initializer =>
        exact keys_subperm_of_name (by simp [Declaration.keys]) (by simp [Declaration.keys]) ih
      | function id name result generics parameters block =>
        exact keys_subperm_of_name (by simp [Declaration.keys]) (by simp [Declaration.keys]) ih
      | enumeration id name generics cases => exact keys_subperm_enumeration id name generics cases
      | record id name generics declarations =>
        refine keys_subperm_of_name ?_ ?_ ih <;> rw [Declaration.keys] <;> split <;> simp
      | space id name declarations => exact keys_subperm_of_own List.nil_subperm ih
      | library id name => exact keys_subperm_of_own List.nil_subperm ih
      | placeholder id => exact keys_subperm_of_own List.nil_subperm ih
    | statement statement =>
      refine keys_subperm_of_own ?_ ih
      cases statement <;> exact List.nil_subperm
    | expression expression =>
      cases expression with
      | identifier id used =>
        -- the identifier is the only child and has an id of its own
        subst hchildren
        have hkeys : [(Note.target, id), (Note.target, used.id)].Sublist
            (Note.all [id, used.id]) :=
          .cons_cons _ (.cons _ (.cons _ (.cons_cons _ (List.nil_sublist _))))
        exact hkeys.subperm
      | member id base name =>
        refine keys_subperm_of_own ?_ ih
        rw [Node.keys, Node.actions]
        cases (Expression.member id base name).memberPath with
        | some path =>
          exact Note.subperm_all_singleton (List.nodup_singleton _)
            (List.forall_mem_singleton.2 rfl)
        | none => exact List.nil_subperm
      | binary | call | literal | placeholder => exact keys_subperm_of_own List.nil_subperm ih
    | program | pattern | identifier | typeForm | literal | parameter | generic | case | argument =>
      exact keys_subperm_of_own List.nil_subperm ih

end Outline

/-! ## Named patterns -/

/-- The pattern of a parameter is one of its nodes. -/
theorem Parameter.pattern_mem_preorder {parameter : Parameter} {pattern : Pattern}
    (h : pattern ∈ parameter.actions.flatMap Action.named) :
    .pattern pattern ∈ parameter.outline.preorder := by
  cases parameter with
  | parameter id externalName localName form value =>
    rw [List.mem_singleton.1 h]
    exact Outline.item_mem_preorder_of_mem List.mem_cons_self
  | placeholder id => cases h

/-- The pattern of a case is one of its nodes. -/
theorem EnumerationCase.pattern_mem_preorder {case : EnumerationCase} {pattern : Pattern}
    (h : pattern ∈ case.actions.flatMap Action.named) :
    .pattern pattern ∈ case.outline.preorder := by
  cases case with
  | case id name forms =>
    rw [List.mem_singleton.1 h]
    exact Outline.item_mem_preorder_of_mem List.mem_cons_self
  | placeholder id => cases h

/-- The pattern of a generic parameter is one of its nodes. -/
theorem GenericParameter.pattern_mem_preorder {generic : GenericParameter} {name : Pattern}
    (h : generic.pattern = some name) : .pattern name ∈ generic.outline.preorder := by
  cases generic with
  | parameter id other =>
    cases h
    exact Outline.item_mem_preorder_of_mem List.mem_cons_self
  | placeholder id => cases h

/-- A declaration names patterns of its own: its name, its parameters, its generic parameters and
its cases. -/
theorem Declaration.pattern_mem_preorder {declaration : Declaration} {pattern : Pattern}
    (h : pattern ∈ (declaration.entering ++ declaration.leaving).flatMap Action.named) :
    .pattern pattern ∈ declaration.outline.preorder := by
  -- every declaration that has a name has it as its first child
  have hname : ∀ {item : Node} {name : Pattern} {rest : List Outline}, pattern = name →
      .pattern pattern ∈ (Outline.node item (name.outline :: rest)).preorder := by
    rintro item name rest rfl
    exact Outline.item_mem_preorder_of_mem List.mem_cons_self
  cases declaration with
  | function id name result generics parameters block =>
    simp only [entering, leaving, List.flatMap_append, List.mem_append] at h
    obtain ((h | h | h) | h) | h := h
    · exact hname (List.mem_singleton.1 h)
    · -- a parameter's patterns are below the parameter
      rw [List.flatMap_assoc, List.mem_flatMap] at h
      obtain ⟨parameter, hparameter, h⟩ := h
      refine Outline.mem_preorder_node.2 (.inr ⟨parameter.outline, ?_,
        Parameter.pattern_mem_preorder h⟩)
      simp [List.mem_map_of_mem hparameter]
    · -- a generic parameter is bound by its name
      rw [List.flatMap_map, List.mem_flatMap] at h
      obtain ⟨bound, hbound, h⟩ := h
      rw [List.mem_singleton.1 h]
      obtain ⟨generic, hgeneric, hpattern⟩ := List.mem_filterMap.1 hbound
      refine Outline.mem_preorder_node.2 (.inr ⟨generic.outline, ?_,
        GenericParameter.pattern_mem_preorder hpattern⟩)
      simp [List.mem_map_of_mem hgeneric]
    · cases h
    · cases h
  | enumeration id name generics cases =>
    simp only [entering, leaving, List.flatMap_append, List.mem_append] at h
    obtain h | h | h | h := h
    · exact hname (List.mem_singleton.1 h)
    · cases h
    · -- the patterns of a case are below the case
      rw [List.flatMap_assoc, List.mem_flatMap] at h
      obtain ⟨case, hcase, h⟩ := h
      refine Outline.mem_preorder_node.2 (.inr ⟨case.outline, ?_,
        EnumerationCase.pattern_mem_preorder h⟩)
      simp [List.mem_map_of_mem hcase]
    · cases h
  | record id name generics declarations =>
    refine hname ?_
    -- a record's type is bound when it is entered, and its constructor when it is left, unless the
    -- type is primitive
    rw [List.flatMap_append, List.mem_append, leaving] at h
    obtain h | h := h
    · exact List.mem_singleton.1 h
    · split at h
      · cases h
      · exact List.mem_singleton.1 h
  | value id name form initializer => exact hname (List.mem_singleton.1 h)
  | space id name declarations => exact hname (List.mem_singleton.1 h)
  | library | placeholder => cases h

/-- What the actions of a node name are patterns of the node. -/
theorem Node.pattern_mem_preorder {node : Node} {again : Bool} {pattern : Pattern}
    (h : pattern ∈ (node.actions again).flatMap Action.named) :
    .pattern pattern ∈ node.outline.preorder := by
  cases node with
  | declaration declaration =>
    -- a declaration names patterns on both of its visits
    refine declaration.pattern_mem_preorder ?_
    rw [List.flatMap_append, List.mem_append]
    cases again with
    | false => exact .inl h
    | true => exact .inr h
  | statement statement =>
    cases statement with
    -- a loop names its pattern, which is its first child
    | loop id bound iterated block =>
      cases again with
      | false =>
        rw [List.mem_singleton.1 h]
        exact Outline.item_mem_preorder_of_mem List.mem_cons_self
      | true => cases h
    | declaration | branch | expression | result | placeholder => cases again <;> cases h
  | expression expression =>
    cases expression with
    | member id base name =>
      cases again with
      | false =>
        rw [Node.actions] at h
        cases hpath : (Expression.member id base name).memberPath <;> rw [hpath] at h <;> cases h
      | true => cases h
    | binary | identifier | call | literal | placeholder => cases again <;> cases h
  | program | pattern | identifier | typeForm | literal | parameter | generic | case | argument =>
    cases again <;> cases h

namespace Outline

variable {outline : Outline}

/-- What is done in an outline is done at its root or in one of its children. -/
theorem mem_actions_node {item : Node} {children : List Outline} {action : Action}
    (h : action ∈ (node item children).actions) :
    (∃ again, action ∈ item.actions again) ∨ ∃ c ∈ children, action ∈ c.actions := by
  rw [actions, List.mem_append, List.mem_append] at h
  obtain h | h | h := h
  · exact .inl ⟨false, h⟩
  · split at h
    · cases h
    · rw [actionsAll_eq_flatMap, List.mem_flatMap] at h
      exact .inr h
  · exact .inl ⟨true, h⟩

/-- What the actions of an outline name are patterns of the outline. -/
theorem Faithful.pattern_mem_preorder (h : outline.Faithful) {action : Action} {pattern : Pattern}
    (haction : action ∈ outline.actions) (hpattern : pattern ∈ action.named) :
    .pattern pattern ∈ outline.preorder := by
  induction h with
  | @node item children root below ih =>
    obtain ⟨again, hitem⟩ | ⟨c, hc, hbelow⟩ := mem_actions_node haction
    · rw [← root]
      exact Node.pattern_mem_preorder (List.mem_flatMap.2 ⟨action, hitem, hpattern⟩)
    · exact mem_preorder_node.2 (.inr ⟨c, hc, ih c hc hbelow⟩)

end Outline

/-! ## Actions that note apart -/

namespace Resolver.Action

/-- No two actions note one sort of thing under one id, and what two of them name by one id is one
pattern. -/
structure Apart (actions : List Action) : Prop where
  keys : (actions.flatMap keys).Nodup
  named : ∀ p ∈ actions.flatMap named, ∀ q ∈ actions.flatMap named, p.id = q.id → p = q

/-- The first ones of some actions that note apart note apart. -/
theorem Apart.of_isPrefix {first actions : List Action} (h : Apart actions)
    (hfirst : first <+: actions) : Apart first where
  keys := h.keys.sublist (hfirst.flatMap _).sublist
  named p hp q hq := h.named p ((hfirst.flatMap _).subset hp) q ((hfirst.flatMap _).subset hq)

end Resolver.Action

/-- Where the ids are distinct, the actions note apart. -/
theorem Outline.Faithful.apart {outline : Outline} (h : outline.Faithful)
    (distinct : outline.ids.Nodup) : Action.Apart outline.actions where
  keys := by
    obtain ⟨keys, hperm, hsublist⟩ := h.keys_subperm
    exact hperm.nodup_iff.1 ((Note.nodup_all distinct).sublist hsublist)
  named p hp q hq heq := by
    obtain ⟨action, haction, hp⟩ := List.mem_flatMap.1 hp
    obtain ⟨action', haction', hq⟩ := List.mem_flatMap.1 hq
    exact Node.pattern.inj (eq_of_id_eq distinct (h.pattern_mem_preorder haction hp)
      (h.pattern_mem_preorder haction' hq) heq)

/-- The actions of a program whose ids are distinct note apart, up to a target too. -/
theorem Program.apart {program : Program} (distinct : (program.nodes.map Node.id).Nodup)
    (target : Option NodeId) : Action.Apart (program.resolutionActions target) :=
  (program.outline_faithful.apart distinct).of_isPrefix (program.resolutionActions_isPrefix target)

end TreeLang
