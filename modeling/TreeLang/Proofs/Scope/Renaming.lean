import TreeLang.Proofs.Tree.Renaming
import TreeLang.Scope.Resolution

/-!
# Resolving renamed programs

The resolver compares ids only for being equal, and orders nothing by them. So its steps commute
with any renaming that keeps different ids different, and what it finds in a program with renamed
ids is what it finds in the program, renamed.
-/

namespace TreeLang

/-! ## Tables -/

namespace Table

variable {κ κ' : Type} {α β : Type}

/-- Other keys and other values in the same places. -/
def mapEntries (ρ : κ → κ') (f : α → β) (table : Table κ α) : Table κ' β := table.map (Prod.map ρ f)

variable [DecidableEq κ] [DecidableEq κ'] {ρ : κ → κ'} (hρ : Function.Injective ρ) (f : α → β)
include hρ

/-- A renamed key is found when the key was, if no two keys are renamed alike. -/
theorem find_mapEntries (key : κ) (table : Table κ α) :
    (table.mapEntries ρ f).find (ρ key) = (table.find key).map f := by
  induction table with
  | nil => rfl
  | cons entry rest ih =>
    obtain ⟨k, a⟩ := entry
    change (if ρ k = ρ key then some (f a) else (mapEntries ρ f rest).find (ρ key)) = _
    simp only [ih, hρ.eq_iff, find]
    split <;> rfl

/-- Putting a value commutes with a renaming of keys. -/
theorem put_mapEntries (key : κ) (value : α) (table : Table κ α) :
    (table.mapEntries ρ f).put (ρ key) (f value) = (table.put key value).mapEntries ρ f := by
  induction table with
  | nil => rfl
  | cons entry rest ih =>
    obtain ⟨k, a⟩ := entry
    change (if ρ k = ρ key then (ρ k, f value) :: mapEntries ρ f rest
      else (ρ k, f a) :: (mapEntries ρ f rest).put (ρ key) (f value)) = _
    simp only [ih, hρ.eq_iff, put]
    split <;> rfl

end Table

variable (ρ : NodeId → NodeId)

/-! ## Scope stacks -/

namespace ScopeStack

/-- Renames every id that a scope binds. -/
def mapIds (stack : ScopeStack) : ScopeStack where
  inner := stack.inner.mapEntries id ρ
  outer := stack.outer.map (Table.mapEntries id ρ)

variable {ρ}

/-- Dropping a frame commutes with a renaming of ids. -/
theorem pop_mapIds (stack : ScopeStack) : (stack.mapIds ρ).pop = stack.pop.mapIds ρ := by
  obtain ⟨inner, outer⟩ := stack
  cases outer <;> rfl

/-- Setting a name commutes with a renaming of ids. -/
theorem set_mapIds (name : String) (pattern : NodeId) (stack : ScopeStack) :
    (stack.mapIds ρ).set name (ρ pattern) = (stack.set name pattern).mapIds ρ := by
  rw [set, set, mapIds, mapIds]
  congr 1
  exact Table.put_mapEntries Function.injective_id ρ name pattern stack.inner

/-- A name has the renamed pattern. -/
theorem get?_mapIds (name : String) (stack : ScopeStack) :
    (stack.mapIds ρ).get? name = (stack.get? name).map ρ := by
  have hframe (frame : Frame) :
      Table.find name (frame.mapEntries id ρ) = (frame.find name).map ρ :=
    Table.find_mapEntries Function.injective_id ρ name frame
  change (stack.frames.map (Table.mapEntries id ρ)).findSome? _ = _
  rw [get?]
  induction stack.frames with
  | nil => rfl
  | cons frame rest ih =>
    rw [List.map_cons, List.findSome?_cons, List.findSome?_cons, hframe, ih]
    cases frame.find name <;> rfl

end ScopeStack

/-! ## Namespaces -/

mutual

/-- Renames every id that a name stands for. -/
def NamespaceEntry.mapIds : NamespaceEntry → NamespaceEntry
  | .mk pattern none => .mk (pattern.map ρ) none
  | .mk pattern (some members) => .mk (pattern.map ρ) (some (NamespaceEntry.mapIdsAll members))

/-- Renames every id that some names stand for. -/
def NamespaceEntry.mapIdsAll : List (String × NamespaceEntry) → List (String × NamespaceEntry)
  | [] => []
  | (name, entry) :: rest => (name, entry.mapIds) :: NamespaceEntry.mapIdsAll rest

end

/-- Renames every id of a namespace. -/
def Namespace.mapIds (space : Namespace) : Namespace :=
  space.mapEntries id (NamespaceEntry.mapIds ρ)

variable {ρ}

theorem NamespaceEntry.mapIdsAll_eq (members : Namespace) :
    NamespaceEntry.mapIdsAll ρ members = members.mapIds ρ := by
  induction members with
  | nil => rfl
  | cons member rest ih =>
    obtain ⟨name, entry⟩ := member
    rw [mapIdsAll, ih]
    rfl

/-- An entry is renamed with its declaration and its members. -/
@[simp] theorem NamespaceEntry.mapIds_mk (pattern : Option NodeId) (members : Option Namespace) :
    (NamespaceEntry.mk pattern members).mapIds ρ =
      .mk (pattern.map ρ) (members.map (Namespace.mapIds ρ)) := by
  cases members with
  | none => rfl
  | some members => rw [mapIds, mapIdsAll_eq, Option.map_some]

@[simp] theorem NamespaceEntry.pattern_mapIds (entry : NamespaceEntry) :
    (entry.mapIds ρ).pattern = entry.pattern.map ρ := by
  cases entry
  rw [mapIds_mk]
  rfl

@[simp] theorem NamespaceEntry.members_mapIds (entry : NamespaceEntry) :
    (entry.mapIds ρ).members = entry.members.map (Namespace.mapIds ρ) := by
  cases entry
  rw [mapIds_mk]
  rfl

namespace Namespace

/-- The entry of a name is the renamed one. -/
theorem find_mapIds (name : String) (space : Namespace) :
    (space.mapIds ρ).find name = (space.find name).map (NamespaceEntry.mapIds ρ) :=
  Table.find_mapEntries Function.injective_id _ name space

/-- Putting an entry commutes with a renaming of ids. -/
theorem put_mapIds (name : String) (entry : NamespaceEntry) (space : Namespace) :
    (space.mapIds ρ).put name (entry.mapIds ρ) = mapIds ρ (space.put name entry) :=
  Table.put_mapEntries Function.injective_id _ name entry space

/-- The entry at a path is the renamed one. -/
theorem get?_mapIds (path : List String) (space : Namespace) :
    get? path (space.mapIds ρ) = (get? path space).map (NamespaceEntry.mapIds ρ) := by
  induction path generalizing space with
  | nil => rfl
  | cons name rest ih =>
    cases rest with
    | nil => exact find_mapIds name space
    | cons next rest =>
      rw [get?, get?, find_mapIds]
      · cases space.find name with
        | none => rfl
        | some entry =>
          rw [Option.map_some, Option.bind_some, Option.bind_some, NamespaceEntry.members_mapIds]
          cases entry.members with
          | none => rfl
          | some members => exact ih members
      · exact List.cons_ne_nil _ _
      · exact List.cons_ne_nil _ _

/-- The declaration at a path is the renamed one. -/
theorem pattern?_mapIds (path : List String) (space : Namespace) :
    pattern? path (space.mapIds ρ) = (pattern? path space).map ρ := by
  rw [pattern?, pattern?, get?_mapIds]
  cases get? path space with
  | none => rfl
  | some entry => exact entry.pattern_mapIds

/-- An edit commutes with a renaming when its change does. -/
theorem edit_mapIds {change change' : NamespaceEntry → Except NamespaceError NamespaceEntry}
    (h : ∀ entry, change' (entry.mapIds ρ) = (change entry).map (NamespaceEntry.mapIds ρ))
    (path done : List String) (space : Namespace) :
    edit change' done path (space.mapIds ρ) = (edit change done path space).map (mapIds ρ) := by
  -- by induction on the path: the change is made at its last name, and the members on the way there
  -- are put back
  induction path generalizing done space with
  | nil => rfl
  | cons name rest ih =>
    cases rest with
    | nil =>
      -- an entry that is made for the edit has no ids
      have hentry : ((space.mapIds ρ).find name).getD (.mk none none) =
          ((space.find name).getD (.mk none none)).mapIds ρ := by
        rw [find_mapIds]
        cases space.find name <;> rfl
      rw [edit, edit, hentry, h]
      cases change ((space.find name).getD (.mk none none)) with
      | error e => rfl
      | ok entry => exact congrArg Except.ok (put_mapIds name entry space)
    | cons next rest =>
      simp only [edit, find_mapIds]
      cases space.find name with
      | none => rfl
      | some entry =>
        obtain ⟨pattern, members⟩ := entry
        cases members with
        | none => rfl
        | some members =>
          simp only [Option.map_some, NamespaceEntry.mapIds_mk, ih]
          cases edit change (done ++ [name]) (next :: rest) members with
          | error e => rfl
          | ok members =>
            have hput := put_mapIds (ρ := ρ) name (.mk pattern (some members)) space
            rw [NamespaceEntry.mapIds_mk] at hput
            exact congrArg Except.ok hput

/-- Setting a path commutes with a renaming of ids: whether it fails depends on names alone. -/
theorem set_mapIds (path : List String) (pattern : NodeId) (space : Namespace) :
    (space.mapIds ρ).set path (ρ pattern) = (space.set path pattern).map (mapIds ρ) := by
  refine edit_mapIds (fun entry => ?_) path [] space
  obtain ⟨pattern', members⟩ := entry
  rw [NamespaceEntry.mapIds_mk]
  cases pattern' with
  | some other => rfl
  | none => exact congrArg Except.ok (NamespaceEntry.mapIds_mk (some pattern) members).symm

/-- Creating a namespace commutes with a renaming of ids: whether it fails depends on names
alone. -/
theorem create_mapIds (path : List String) (space : Namespace) :
    (space.mapIds ρ).create path = (space.create path).map (mapIds ρ) := by
  refine edit_mapIds (fun entry => ?_) path [] space
  obtain ⟨pattern, members⟩ := entry
  rw [NamespaceEntry.mapIds_mk]
  refine congrArg Except.ok (Eq.trans ?_ (NamespaceEntry.mapIds_mk _ _).symm)
  cases members <;> rfl

/-- Keeping what there was after a failure commutes with a renaming of ids. -/
theorem orSame_mapIds (space : Namespace) (edited : Except NamespaceError Namespace) :
    (space.mapIds ρ).orSame (edited.map (mapIds ρ)) = mapIds ρ (space.orSame edited) := by
  cases edited <;> rfl

end Namespace

/-! ## Scopes -/

namespace Scope

variable (ρ) in
/-- Renames every id that is known. -/
def mapIds (scope : Scope) : Scope where
  identifiers := scope.identifiers.mapEntries ρ ρ
  names := scope.names.mapEntries ρ id
  typeParameters := scope.typeParameters.mapEntries ρ id
  qualified := scope.qualified.mapEntries ρ id
  space := Namespace.mapIds ρ scope.space
  unresolved := scope.unresolved.map ρ
  reachedTarget := scope.reachedTarget
  values := scope.values.mapIds ρ
  types := scope.types.mapIds ρ

variable (hρ : Function.Injective ρ)

section
include hρ

/-- A renamed use refers to the renamed pattern. -/
theorem patternFor_mapIds (scope : Scope) (id : NodeId) :
    (scope.mapIds ρ).patternFor (ρ id) = (scope.patternFor id).map ρ :=
  Table.find_mapEntries hρ ρ id scope.identifiers

/-- A renamed pattern has the same qualified name. -/
theorem qualifiedName_mapIds (scope : Scope) (pattern : NodeId) :
    (scope.mapIds ρ).qualifiedName (ρ pattern) = scope.qualifiedName pattern :=
  (Table.find_mapEntries hρ id pattern scope.qualified).trans Option.map_id'

/-- Naming a pattern commutes with a renaming of ids. -/
theorem nameOnly_mapIds (pattern : Pattern) (scope : Scope) :
    (scope.mapIds ρ).nameOnly (pattern.mapIds ρ) = (scope.nameOnly pattern).mapIds ρ := by
  have hnames := Table.put_mapEntries hρ id pattern.id pattern.name scope.names
  simp only [nameOnly, mapIds, ← hnames]
  rfl

/-- Binding a value commutes with a renaming of ids. -/
theorem bindValue_mapIds (pattern : Pattern) (scope : Scope) :
    (scope.mapIds ρ).bindValue (pattern.mapIds ρ) = (scope.bindValue pattern).mapIds ρ := by
  have hnames := Table.put_mapEntries hρ id pattern.id pattern.name scope.names
  have hvalues := scope.values.set_mapIds (ρ := ρ) pattern.name pattern.id
  simp only [bindValue, mapIds, ← hnames, ← hvalues]
  rfl

/-- Binding a type commutes with a renaming of ids. -/
theorem bindType_mapIds (pattern : Pattern) (scope : Scope) :
    (scope.mapIds ρ).bindType (pattern.mapIds ρ) = (scope.bindType pattern).mapIds ρ := by
  have hnames := Table.put_mapEntries hρ id pattern.id pattern.name scope.names
  have htypes := scope.types.set_mapIds (ρ := ρ) pattern.name pattern.id
  simp only [bindType, mapIds, ← hnames, ← htypes]
  rfl

/-- Noting type parameters commutes with a renaming of ids. -/
theorem noteTypeParameters_mapIds (name : Pattern) (d : Declaration) (scope : Scope) :
    (scope.mapIds ρ).noteTypeParameters (name.mapIds ρ) (d.mapIds ρ) =
      (scope.noteTypeParameters name d).mapIds ρ := by
  have hgenerics : (d.mapIds ρ).genericPatterns.map Pattern.name =
      d.genericPatterns.map Pattern.name := by
    rw [Declaration.genericPatterns_mapIds, List.map_map]
    rfl
  have hput := Table.put_mapEntries hρ id name.id (d.genericPatterns.map Pattern.name)
    scope.typeParameters
  simp only [noteTypeParameters, hgenerics]
  split
  · rfl
  · simp only [mapIds, ← hput]
    rfl

/-- Resolving a name commutes with a renaming of ids: it is found or not found alike. -/
theorem resolve_mapIds (id : NodeId) (used : Identifier) (scope : Scope) :
    (scope.mapIds ρ).resolve (ρ id) (used.mapIds ρ) = (scope.resolve id used).mapIds ρ := by
  have hget : (scope.mapIds ρ).values.get? used.name = (scope.values.get? used.name).map ρ :=
    scope.values.get?_mapIds used.name
  rw [resolve, resolve, Identifier.isPlaceholder_mapIds, Identifier.name_mapIds, hget]
  split
  · rfl
  · cases scope.values.get? used.name with
    | none =>
      simp only [Option.map_none, mapIds, List.map_append]
      rfl
    | some pattern =>
      have hput (key : NodeId) (table : Table NodeId NodeId) :
          (table.mapEntries ρ ρ).put (ρ key) (ρ pattern) = (table.put key pattern).mapEntries ρ ρ :=
        Table.put_mapEntries hρ ρ key pattern table
      simp only [Option.map_some, mapIds, Identifier.id_mapIds, hput]

/-- Resolving a path commutes with a renaming of ids: it is found or not found alike. -/
theorem resolvePath_mapIds (id : NodeId) (path : List String) (scope : Scope) :
    (scope.mapIds ρ).resolvePath (ρ id) path = (scope.resolvePath id path).mapIds ρ := by
  have hpattern : (scope.mapIds ρ).space.pattern? path = (scope.space.pattern? path).map ρ :=
    Namespace.pattern?_mapIds path scope.space
  rw [resolvePath, resolvePath, hpattern]
  cases scope.space.pattern? path with
  | none => rfl
  | some pattern =>
    simp only [Option.map_some, mapIds, Table.put_mapEntries hρ ρ id pattern scope.identifiers]

end

theorem pushValues_mapIds (scope : Scope) :
    (scope.mapIds ρ).pushValues = scope.pushValues.mapIds ρ := rfl

/-- Dropping a frame of values commutes with a renaming of ids. -/
theorem popValues_mapIds (scope : Scope) :
    (scope.mapIds ρ).popValues = scope.popValues.mapIds ρ := by
  simp only [popValues, mapIds, ScopeStack.pop_mapIds]

/-- Dropping a frame of types commutes with a renaming of ids. -/
theorem popTypes_mapIds (scope : Scope) :
    (scope.mapIds ρ).popTypes = scope.popTypes.mapIds ρ := by
  simp only [popTypes, mapIds, ScopeStack.pop_mapIds]

end Scope

/-! ## The resolver -/

namespace Resolver

variable (ρ) in
/-- Renames every id that the state of a walk holds. -/
def mapIds (r : Resolver) : Resolver := { r with scope := r.scope.mapIds ρ }

variable (hρ : Function.Injective ρ)

/-- What commutes with a renaming on scopes does so on states of the walk. -/
theorem onScope_mapIds {f g : Scope → Scope}
    (h : ∀ scope, g (scope.mapIds ρ) = (f scope).mapIds ρ) (r : Resolver) :
    (r.mapIds ρ).onScope g = (r.onScope f).mapIds ρ :=
  congrArg (fun scope => { r with scope }) (h r.scope)

/-- Making the current namespace commutes with a renaming of ids. -/
theorem createSpace_mapIds (r : Resolver) : (r.mapIds ρ).createSpace = r.createSpace.mapIds ρ := by
  refine onScope_mapIds (fun scope => ?_) r
  have hspace : (scope.mapIds ρ).space.orSame ((scope.mapIds ρ).space.create r.path) =
      Namespace.mapIds ρ (scope.space.orSame (scope.space.create r.path)) :=
    (congrArg _ (Namespace.create_mapIds r.path scope.space)).trans
      (Namespace.orSame_mapIds scope.space _)
  exact congrArg (fun space => { scope.mapIds ρ with space }) hspace

/-- Entering a namespace commutes with a renaming of ids. -/
theorem enterSpace_mapIds (name : String) (r : Resolver) :
    (r.mapIds ρ).enterSpace name = (r.enterSpace name).mapIds ρ :=
  createSpace_mapIds { r with path := r.path ++ [name] }

section
include hρ

/-- Registering a declaration commutes with a renaming of ids. -/
theorem register_mapIds (pattern : Pattern) (r : Resolver) :
    (r.mapIds ρ).register (pattern.mapIds ρ) = (r.register pattern).mapIds ρ := by
  have hset : (r.mapIds ρ).scope.space.set (r.path ++ [pattern.name]) (ρ pattern.id) =
      (r.scope.space.set (r.path ++ [pattern.name]) pattern.id).map (Namespace.mapIds ρ) :=
    Namespace.set_mapIds _ pattern.id r.scope.space
  by_cases hdepth : 0 < r.functionDepth
  · have hdepth' : 0 < (r.mapIds ρ).functionDepth := hdepth
    rw [register, register, if_pos hdepth, if_pos hdepth']
  · have hdepth' : ¬ 0 < (r.mapIds ρ).functionDepth := hdepth
    have hpath : (r.mapIds ρ).path ++ [(pattern.mapIds ρ).name] = r.path ++ [pattern.name] := rfl
    rw [register, register, if_neg hdepth, if_neg hdepth']
    simp only [hpath, Pattern.id_mapIds, hset]
    cases r.scope.space.set (r.path ++ [pattern.name]) pattern.id with
    | error e => rfl
    | ok space =>
      have hput := Table.put_mapEntries hρ id pattern.id (r.path ++ [pattern.name])
        r.scope.qualified
      simp only [Except.map, onScope, mapIds, Scope.mapIds, ← hput]
      rfl

theorem nameOnly_mapIds (pattern : Pattern) (r : Resolver) :
    (r.mapIds ρ).onScope (·.nameOnly (pattern.mapIds ρ)) =
      (r.onScope (·.nameOnly pattern)).mapIds ρ :=
  onScope_mapIds (Scope.nameOnly_mapIds hρ pattern) r

theorem bindValue_mapIds (pattern : Pattern) (r : Resolver) :
    (r.mapIds ρ).onScope (·.bindValue (pattern.mapIds ρ)) =
      (r.onScope (·.bindValue pattern)).mapIds ρ :=
  onScope_mapIds (Scope.bindValue_mapIds hρ pattern) r

theorem bindType_mapIds (pattern : Pattern) (r : Resolver) :
    (r.mapIds ρ).onScope (·.bindType (pattern.mapIds ρ)) =
      (r.onScope (·.bindType pattern)).mapIds ρ :=
  onScope_mapIds (Scope.bindType_mapIds hρ pattern) r

/-- Registering a case commutes with a renaming of ids. -/
theorem registerCase_mapIds (r : Resolver) (case : EnumerationCase) :
    (r.mapIds ρ).registerCase (case.mapIds ρ) = (r.registerCase case).mapIds ρ := by
  cases case with
  | placeholder id => rfl
  | case id name forms =>
    rw [EnumerationCase.mapIds_case, registerCase, registerCase, nameOnly_mapIds hρ,
      register_mapIds hρ]

/-- Binding a parameter commutes with a renaming of ids. -/
theorem bindParameter_mapIds (r : Resolver) (parameter : Parameter) :
    (r.mapIds ρ).bindParameter (parameter.mapIds ρ) = (r.bindParameter parameter).mapIds ρ := by
  cases parameter with
  | placeholder id => rfl
  | parameter id externalName localName form defaultValue =>
    rw [Parameter.mapIds_parameter, bindParameter, bindParameter, bindValue_mapIds hρ]

end

/-- Steps that commute with a renaming one by one do so one after the other. -/
theorem foldl_mapIds {α : Type} {rename : α → α} {step : Resolver → α → Resolver}
    (h : ∀ r a, step (r.mapIds ρ) (rename a) = (step r a).mapIds ρ) (list : List α)
    (r : Resolver) : (list.map rename).foldl step (r.mapIds ρ) = (list.foldl step r).mapIds ρ := by
  induction list generalizing r with
  | nil => rfl
  | cons a rest ih => rw [List.map_cons, List.foldl_cons, List.foldl_cons, h, ih]

section
include hρ

/-- Opening the frames of a function commutes with a renaming of ids. -/
theorem openFunction_mapIds (name : Pattern) (d : Declaration) (r : Resolver) :
    (r.mapIds ρ).onScope (fun scope =>
        ((scope.noteTypeParameters (name.mapIds ρ) (d.mapIds ρ)).pushValues).pushTypes) =
      (r.onScope fun scope =>
        ((scope.noteTypeParameters name d).pushValues).pushTypes).mapIds ρ :=
  onScope_mapIds (fun scope => by rw [Scope.noteTypeParameters_mapIds hρ]; rfl) r

/-- Binding generic parameters commutes with a renaming of ids. -/
theorem bindGenerics_mapIds (d : Declaration) (r : Resolver) :
    (d.mapIds ρ).genericPatterns.foldl (fun r generic => r.onScope (·.bindType generic))
        (r.mapIds ρ) =
      (d.genericPatterns.foldl (fun r generic => r.onScope (·.bindType generic)) r).mapIds ρ := by
  rw [Declaration.genericPatterns_mapIds]
  exact foldl_mapIds (fun r generic => bindType_mapIds hρ generic r) _ r

/-- Entering a declaration commutes with a renaming of ids. -/
theorem enterDeclaration_mapIds (d : Declaration) (r : Resolver) :
    (r.mapIds ρ).enterDeclaration (d.mapIds ρ) = (r.enterDeclaration d).mapIds ρ := by
  -- only what is bound, registered or noted has ids, in the order in which the visit does it
  cases d with
  | function id name result generics parameters block =>
    simp only [Declaration.mapIds_function, enterDeclaration, bindValue_mapIds hρ,
      register_mapIds hρ]
    rw [← Declaration.mapIds_function, openFunction_mapIds hρ,
      foldl_mapIds (bindParameter_mapIds hρ), bindGenerics_mapIds hρ]
    rfl
  | record id name generics declarations =>
    have hscope (scope : Scope) :
        ((scope.mapIds ρ).bindType (name.mapIds ρ)).noteTypeParameters (name.mapIds ρ)
          ((Declaration.record id name generics declarations).mapIds ρ) =
        ((scope.bindType name).noteTypeParameters name
          (.record id name generics declarations)).mapIds ρ := by
      rw [Scope.bindType_mapIds hρ, Scope.noteTypeParameters_mapIds hρ]
    exact onScope_mapIds
      (f := fun scope => (scope.bindType name).noteTypeParameters name
        (.record id name generics declarations))
      (g := fun scope => (scope.bindType (name.mapIds ρ)).noteTypeParameters (name.mapIds ρ)
        ((Declaration.record id name generics declarations).mapIds ρ)) hscope r
  | enumeration id name generics cases => exact bindType_mapIds hρ name r
  | space id name declarations =>
    simp only [Declaration.mapIds_space, enterDeclaration, nameOnly_mapIds hρ, Pattern.name_mapIds,
      enterSpace_mapIds]
    rfl
  | value | library | placeholder => rfl

/-- Leaving a declaration commutes with a renaming of ids. -/
theorem leaveDeclaration_mapIds (d : Declaration) (r : Resolver) :
    (r.mapIds ρ).leaveDeclaration (d.mapIds ρ) = (r.leaveDeclaration d).mapIds ρ := by
  have hpop (r : Resolver) :
      (r.mapIds ρ).onScope (fun scope => scope.popValues.popTypes) =
        (r.onScope fun scope => scope.popValues.popTypes).mapIds ρ :=
    onScope_mapIds (fun scope => by rw [Scope.popValues_mapIds, Scope.popTypes_mapIds]) r
  cases d with
  | function id name result generics parameters block =>
    exact hpop { r with functionDepth := r.functionDepth - 1 }
  | value id name form initializer =>
    simp only [Declaration.mapIds_value, leaveDeclaration, bindValue_mapIds hρ, register_mapIds hρ]
  | record id name generics declarations =>
    simp only [Declaration.mapIds_record, leaveDeclaration, Pattern.name_mapIds, bindValue_mapIds
      hρ,
      register_mapIds hρ]
    split <;> rfl
  | enumeration id name generics cases =>
    have hnote := onScope_mapIds (Scope.noteTypeParameters_mapIds hρ name
      (.enumeration id name generics cases)) r
    simp only [Declaration.mapIds_enumeration] at hnote ⊢
    simp only [leaveDeclaration, hnote, Pattern.name_mapIds, enterSpace_mapIds,
      foldl_mapIds (registerCase_mapIds hρ)]
    rfl
  | space id name declarations => exact hpop r.leaveSpace
  | library | placeholder => rfl

/-- The first visit of a node commutes with a renaming of ids, and asks for the same. -/
theorem enter_mapIds (node : Node) (control : Control) (r : Resolver) :
    enter (node.mapIds ρ) control (r.mapIds ρ) =
      ((enter node control r).1, (enter node control r).2.mapIds ρ) := by
  cases node with
  | declaration d =>
    -- what a declaration asks of the walk depends on its kind
    have hcontrol : declarationControl (d.mapIds ρ) control = declarationControl d control := by
      cases d <;> rfl
    simp only [Node.mapIds, enter, enterDeclaration_mapIds hρ, hcontrol]
  | statement s =>
    cases s with
    | loop id pattern iterated block =>
      have hscope (scope : Scope) : (scope.mapIds ρ).pushValues.bindValue (pattern.mapIds ρ) =
          (scope.pushValues.bindValue pattern).mapIds ρ := by
        rw [Scope.pushValues_mapIds, Scope.bindValue_mapIds hρ]
      exact congrArg (Prod.mk _) (onScope_mapIds hscope r)
    | declaration | branch | expression | result | placeholder => rfl
  | expression e =>
    cases e with
    | identifier id used =>
      exact congrArg (Prod.mk _) (onScope_mapIds (Scope.resolve_mapIds hρ id used) r)
    | member id base name =>
      -- a path is made of names, which stay
      have hpath := (Expression.member id base name).memberPath_mapIds (ρ := ρ)
      simp only [Node.mapIds, Expression.mapIds_member] at hpath ⊢
      simp only [enter, hpath]
      cases (Expression.member id base name).memberPath with
      | none => rfl
      | some path =>
        exact congrArg (Prod.mk _) (onScope_mapIds (Scope.resolvePath_mapIds hρ id path) r)
    | binary | call | literal | placeholder => rfl
  | program | pattern | identifier | typeForm | literal | parameter | generic | case | argument =>
    rfl

/-- The second visit of a node commutes with a renaming of ids. -/
theorem leave_mapIds (node : Node) (r : Resolver) :
    (r.mapIds ρ).leave (node.mapIds ρ) = (r.leave node).mapIds ρ := by
  cases node with
  | declaration d => exact leaveDeclaration_mapIds hρ d r
  | statement s =>
    cases s with
    | loop => exact onScope_mapIds Scope.popValues_mapIds r
    | declaration | branch | expression | result | placeholder => rfl
  | program | expression | pattern | identifier | typeForm | literal | parameter | generic | case
  | argument => rfl

/-- The visitor of a renamed program, with the target renamed too. -/
theorem visit_maps (target : Option NodeId) :
    (visit target).Maps (visit (target.map ρ)) (Node.mapIds ρ) (mapIds ρ) := by
  intro node control r
  have htarget : target.map ρ = some (node.mapIds ρ).id ↔ target = some node.id := by
    rw [Node.id_mapIds, ← Option.map_some, (Option.map_injective hρ).eq_iff]
  simp only [visit, htarget, leave_mapIds hρ, enter_mapIds hρ]
  split
  · rfl
  · split <;> rfl

end

end Resolver

/-- Resolving a program with renamed ids gives what resolving the program gives, with renamed
ids. -/
theorem Program.resolve_mapIds (hρ : Function.Injective ρ) (program : Program)
    (target : Option NodeId) :
    (program.mapIds ρ).resolve (target.map ρ) = (program.resolve target).mapIds ρ :=
  congrArg Resolver.scope (program.walk_mapIds (Resolver.visit_maps hρ target) {})

end TreeLang
