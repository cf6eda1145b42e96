import TreeLang.Proofs.Scope.Keys

/-!
# What a run of actions notes

A run of actions puts entries into the tables of a scope, one action after the other. Where no two
actions note the same sort of thing under one id, an entry that is put into a table stays there, so
the tables hold exactly the entries of the run.
-/

namespace TreeLang

/-! ## Tables filled from a list -/

namespace Table

variable {κ : Type u} {α : Type v}

/-- No key has two values. -/
def Functional (entries : List (κ × α)) : Prop :=
  ∀ e ∈ entries, ∀ e' ∈ entries, e.1 = e'.1 → e = e'

/-- Entries without repeated keys give each key one value. -/
theorem functional_of_nodup {entries : List (κ × α)} (h : (entries.map Prod.fst).Nodup) :
    Functional entries := fun _ he _ he' heq => List.inj_on_of_nodup_map h he he' heq

variable [DecidableEq κ] {key : κ} {value : α} {entries : List (κ × α)}

/-- Puts entries into a table, one after the other. -/
def putAll (table : Table κ α) (entries : List (κ × α)) : Table κ α :=
  entries.foldl (fun table entry => table.put entry.1 entry.2) table

/-- Putting a value changes the value of its own key only. -/
theorem find_put (key other : κ) (value : α) (table : Table κ α) :
    find other (put key value table) = if other = key then some value else find other table := by
  split
  · next h => rw [h, find_put_self]
  · next h => exact find_put_of_ne h value table

/-- A value that is found after several were put is one of these, or was there before. -/
theorem mem_of_find_putAll {table : Table κ α} (h : find key (putAll table entries) = some value) :
    (key, value) ∈ entries ∨ find key table = some value := by
  induction entries generalizing table with
  | nil => exact .inr h
  | cons entry rest ih =>
    rcases ih h with hmem | hfind
    · exact .inl (List.mem_cons_of_mem _ hmem)
    · rw [find_put] at hfind
      split at hfind
      · next hkey =>
        rw [hkey, ← Option.some.inj hfind]
        exact .inl List.mem_cons_self
      · exact .inr hfind

/-- Putting values leaves the other keys alone. -/
theorem find_putAll_of_not_mem (h : key ∉ entries.map Prod.fst) (table : Table κ α) :
    find key (putAll table entries) = find key table := by
  induction entries generalizing table with
  | nil => rfl
  | cons entry rest ih =>
    rw [List.map_cons, List.mem_cons, not_or] at h
    exact (ih h.2 _).trans (find_put_of_ne h.1 _ _)

/-- A key that is put into a table is found there with one of the values put. -/
theorem find_putAll_of_mem (h : key ∈ entries.map Prod.fst) (table : Table κ α) :
    ∃ value, (key, value) ∈ entries ∧ find key (putAll table entries) = some value := by
  induction entries generalizing table with
  | nil => cases h
  | cons entry rest ih =>
    by_cases hrest : key ∈ rest.map Prod.fst
    · obtain ⟨value, hmem, hfind⟩ := ih hrest (table.put entry.1 entry.2)
      exact ⟨value, List.mem_cons_of_mem _ hmem, hfind⟩
    · have hkey : key = entry.1 := (List.mem_cons.1 h).resolve_right hrest
      refine ⟨entry.2, hkey ▸ List.mem_cons_self, ?_⟩
      exact (find_putAll_of_not_mem hrest _).trans (by rw [hkey, find_put_self])

/-- A table filled from entries that give no key two values holds those entries and no others. -/
theorem find_putAll_iff (h : Functional entries) :
    find key (putAll [] entries) = some value ↔ (key, value) ∈ entries := by
  constructor
  · exact fun hfind => (mem_of_find_putAll hfind).resolve_right nofun
  · intro hmem
    obtain ⟨found, hfound, hfind⟩ := find_putAll_of_mem (List.mem_map_of_mem hmem) []
    have hsame : (key, found) = (key, value) := h _ hfound _ hmem rfl
    rw [hfind, (Prod.mk.inj hsame).2]

end Table

open Resolver (Action Note)

namespace Resolver

/-! ## What a run gives -/

section Gathered

variable {α β : Type}

/-- What the actions of a run give, each in the state in which it is performed. -/
def gathered (give : Resolver → Action → List α) : List Action → Resolver → List α
  | [], _ => []
  | action :: rest, r => give r action ++ gathered give rest (r.perform action)

variable {give : Resolver → Action → List α}

/-- What a longer run gives is what its first part gives and what the rest gives after it. -/
theorem gathered_append (first second : List Action) (r : Resolver) :
    gathered give (first ++ second) r =
      gathered give first r ++ gathered give second (performAll first r) := by
  induction first generalizing r with
  | nil => rfl
  | cons action rest ih =>
    rw [List.cons_append, gathered, gathered, ih, List.append_assoc]
    rfl

/-- What depends on the actions alone. -/
theorem gathered_const (f : Action → List α) (actions : List Action) (r : Resolver) :
    gathered (fun _ => f) actions r = actions.flatMap f := by
  induction actions generalizing r with
  | nil => rfl
  | cons action rest ih => rw [gathered, ih, List.flatMap_cons]

/-- When each action gives for some of its keys at most, so does a run. -/
theorem map_gathered_sublist {f : α → β} {g : Action → List β}
    (h : ∀ r action, ((give r action).map f).Sublist (g action)) (actions : List Action)
    (r : Resolver) : ((gathered give actions r).map f).Sublist (actions.flatMap g) := by
  induction actions generalizing r with
  | nil => exact .refl _
  | cons action rest ih =>
    rw [gathered, List.map_append, List.flatMap_cons]
    exact (h r action).append (ih _)

/-- A part of the state that each action extends by what it gives. -/
theorem performAll_extends {τ : Type} (view : Resolver → τ) {extend : τ → List α → τ}
    (hnil : ∀ t, extend t [] = t)
    (happend : ∀ t first second, extend t (first ++ second) = extend (extend t first) second)
    (h : ∀ r action, view (r.perform action) = extend (view r) (give r action))
    (actions : List Action) (r : Resolver) :
    view (performAll actions r) = extend (view r) (gathered give actions r) := by
  induction actions generalizing r with
  | nil => exact (hnil _).symm
  | cons action rest ih =>
    rw [gathered, happend, ← h]
    exact ih _

/-- A table that each action fills with what it gives. -/
theorem performAll_putAll {κ : Type} [DecidableEq κ] {give : Resolver → Action → List (κ × α)}
    (table : Resolver → Table κ α)
    (h : ∀ r action, table (r.perform action) = (table r).putAll (give r action))
    (actions : List Action) (r : Resolver) :
    table (performAll actions r) = (table r).putAll (gathered give actions r) :=
  performAll_extends table (fun _ => rfl) (fun _ _ _ => List.foldl_append) h actions r

end Gathered

/-! ## Entries -/

/-- The entries that an action puts into the table of what is referred to. -/
def targetsOf (r : Resolver) : Action → List (NodeId × NodeId)
  | .resolve id used =>
    if used.isPlaceholder then []
    else (r.scope.values.get? used.name).toList.flatMap fun pattern =>
      [(id, pattern), (used.id, pattern)]
  | .resolvePath id path => (r.scope.space.pattern? path).toList.map (id, ·)
  | _ => []

/-- The identifiers that an action finds nothing for. -/
def missesOf (r : Resolver) : Action → List NodeId
  | .resolve id used =>
    if used.isPlaceholder || (r.scope.values.get? used.name).isSome then [] else [id]
  | _ => []

/-- The entry that an action puts into the table of type parameters. -/
def typeParametersOf : Action → List (NodeId × List String)
  | .noteTypeParameters name declaration =>
    let names := declaration.genericPatterns.map Pattern.name
    if names.isEmpty then [] else [(name.id, names)]
  | _ => []

/-- The entry that an action puts into the table of paths. -/
def pathsOf (r : Resolver) : Action → List (NodeId × List String)
  | .register pattern =>
    if 0 < r.functionDepth then []
    else
      match r.scope.space.set (r.path ++ [pattern.name]) pattern.id with
      | .ok _ => [(pattern.id, r.path ++ [pattern.name])]
      | .error _ => []
  | _ => []

/-- The names that an action notes. -/
def namesOf (action : Action) : List (NodeId × String) :=
  action.named.map fun pattern => (pattern.id, pattern.name)

/-- What a state has more than another one in the tables of its scope. -/
structure Notes (r r' : Resolver) (action : Action) : Prop where
  identifiers_eq : r'.scope.identifiers = r.scope.identifiers.putAll (r.targetsOf action)
  names_eq : r'.scope.names = r.scope.names.putAll (namesOf action)
  typeParameters_eq :
    r'.scope.typeParameters = r.scope.typeParameters.putAll (typeParametersOf action)
  qualified_eq : r'.scope.qualified = r.scope.qualified.putAll (r.pathsOf action)
  unresolved_eq : r'.scope.unresolved = r.scope.unresolved ++ r.missesOf action
  reachedTarget_eq : r'.scope.reachedTarget = r.scope.reachedTarget

/-- What an action does to the tables is one entry for each of its notes. -/
theorem notes_perform (r : Resolver) (action : Action) : Notes r (r.perform action) action := by
  -- most actions note nothing as unresolved
  have hsame : r.scope.unresolved = r.scope.unresolved ++ [] := (List.append_nil _).symm
  cases action with
  | noteTypeParameters name declaration =>
    simp only [perform, onScope, Scope.noteTypeParameters]
    split
    · next h => exact ⟨rfl, rfl, by simp [typeParametersOf, h, Table.putAll], rfl, hsame, rfl⟩
    · next h => exact ⟨rfl, rfl, by simp [typeParametersOf, h, Table.putAll], rfl, hsame, rfl⟩
  | register pattern =>
    -- a registration notes a path unless it fails or is within a function
    simp only [perform, register]
    split
    · next h => exact ⟨rfl, rfl, rfl, by simp [pathsOf, h, Table.putAll], hsame, rfl⟩
    · next h =>
      split
      · next hset =>
        exact ⟨rfl, rfl, rfl, by simp [pathsOf, h, hset, Table.putAll, onScope], hsame, rfl⟩
      · next hset => exact ⟨rfl, rfl, rfl, by simp [pathsOf, h, hset, Table.putAll], hsame, rfl⟩
  | resolve id used =>
    -- a name that is used notes a target, or else that there is none
    simp only [perform, onScope, Scope.resolve]
    split
    · next h =>
      exact ⟨by simp [targetsOf, h, Table.putAll], rfl, rfl, rfl, by simp [missesOf, h], rfl⟩
    · next h =>
      split
      · next hget =>
        exact ⟨by simp [targetsOf, h, hget, Table.putAll], rfl, rfl, rfl,
          by simp [missesOf, hget], rfl⟩
      · next hget =>
        exact ⟨by simp [targetsOf, hget, Table.putAll], rfl, rfl, rfl,
          by simp [missesOf, h, hget], rfl⟩
  | resolvePath id path =>
    simp only [perform, onScope, Scope.resolvePath]
    split
    · next h => exact ⟨by simp [targetsOf, h, Table.putAll], rfl, rfl, rfl, hsame, rfl⟩
    · next h => exact ⟨by simp [targetsOf, h, Table.putAll], rfl, rfl, rfl, hsame, rfl⟩
  | _ => exact ⟨rfl, rfl, rfl, rfl, hsame, rfl⟩

/-! ## Runs -/

/-- Each sort of entry is noted under the keys of its action. -/
theorem targetsOf_sublist (r : Resolver) (action : Action) :
    ((r.targetsOf action).map fun entry => (Note.target, entry.1)).Sublist action.keys := by
  cases action with
  | resolve id used =>
    rw [targetsOf]
    split
    · exact List.nil_sublist _
    · cases r.scope.values.get? used.name with
      | some pattern => exact .refl _
      | none => exact List.nil_sublist _
  | resolvePath id path =>
    rw [targetsOf]
    cases r.scope.space.pattern? path with
    | some pattern => exact .refl _
    | none => exact List.nil_sublist _
  | _ => exact List.nil_sublist _

/-- The type parameters that are noted are for keys of the action. -/
theorem typeParametersOf_sublist (_ : Resolver) (action : Action) :
    ((typeParametersOf action).map fun entry => (Note.typeParameters, entry.1)).Sublist
      action.keys := by
  cases action with
  | noteTypeParameters name declaration =>
    simp only [typeParametersOf]
    split
    · exact List.nil_sublist _
    · exact .refl _
  | _ => exact List.nil_sublist _

/-- The paths that are noted are for keys of the action. -/
theorem pathsOf_sublist (r : Resolver) (action : Action) :
    ((r.pathsOf action).map fun entry => (Note.path, entry.1)).Sublist action.keys := by
  cases action with
  | register pattern =>
    rw [pathsOf]
    split
    · exact List.nil_sublist _
    · split
      · exact .refl _
      · exact List.nil_sublist _
  | _ => exact List.nil_sublist _

/-- Entries of one sort that a run gives have different keys, where the actions note apart. -/
theorem functional_gathered {α : Type} {give : Resolver → Action → List (NodeId × α)} {note : Note}
    (hkeys : ∀ r action, ((give r action).map fun entry => (note, entry.1)).Sublist action.keys)
    {actions : List Action} (h : Action.Apart actions) (r : Resolver) :
    Table.Functional (gathered give actions r) := by
  refine Table.functional_of_nodup (List.Nodup.of_map (note, ·) ?_)
  rw [List.map_map]
  exact h.keys.sublist (map_gathered_sublist hkeys actions r)

/-- An entry that a run gives is noted by one of its actions. -/
theorem mem_keys_of_mem_gathered {α : Type} {give : Resolver → Action → List (NodeId × α)}
    {note : Note}
    (hkeys : ∀ r action, ((give r action).map fun entry => (note, entry.1)).Sublist action.keys)
    {actions : List Action} {r : Resolver} {entry : NodeId × α}
    (h : entry ∈ gathered give actions r) : (note, entry.1) ∈ actions.flatMap Action.keys :=
  (map_gathered_sublist hkeys actions r).subset (List.mem_map_of_mem h)

/-- What the tables of a scope hold after a run of actions. -/
structure Holds (actions : List Action) (scope : Scope) : Prop where
  patternFor_iff : ∀ {id pattern}, scope.patternFor id = some pattern ↔
    (id, pattern) ∈ gathered targetsOf actions {}
  nameOf_iff : ∀ {id name}, scope.nameOf id = some name ↔
    (id, name) ∈ actions.flatMap namesOf
  typeParameters_iff : ∀ {id names}, scope.typeParameters.find id = some names ↔
    (id, names) ∈ actions.flatMap typeParametersOf
  qualifiedName_iff : ∀ {id path}, scope.qualifiedName id = some path ↔
    (id, path) ∈ gathered pathsOf actions {}
  unresolved_eq : scope.unresolved = gathered missesOf actions {}

/-- A run of actions that note apart leaves all that it has noted. -/
theorem Action.Apart.holds {actions : List Action} (h : Action.Apart actions) :
    Holds actions (performAll actions {}).scope where
  patternFor_iff := by
    intro id pattern
    have hrun : (performAll actions {}).scope.identifiers =
        Table.putAll [] (gathered targetsOf actions {}) :=
      performAll_putAll (·.scope.identifiers)
        (fun r action => (r.notes_perform action).identifiers_eq) actions {}
    rw [Scope.patternFor, hrun]
    exact Table.find_putAll_iff (functional_gathered targetsOf_sublist h {})
  nameOf_iff := by
    intro id name
    have hrun : (performAll actions {}).scope.names =
        Table.putAll [] (gathered (fun _ => namesOf) actions {}) :=
      performAll_putAll (·.scope.names) (fun r action => (r.notes_perform action).names_eq)
        actions {}
    rw [Scope.nameOf, hrun, gathered_const]
    refine Table.find_putAll_iff fun e he e' he' heq => ?_
    -- two entries under one id name one pattern
    have hnamed : actions.flatMap namesOf =
        (actions.flatMap Action.named).map fun pattern => (pattern.id, pattern.name) :=
      List.map_flatMap.symm
    rw [hnamed, List.mem_map] at he he'
    obtain ⟨p, hp, rfl⟩ := he
    obtain ⟨q, hq, rfl⟩ := he'
    rw [h.named p hp q hq heq]
  typeParameters_iff := by
    intro id names
    have hrun : (performAll actions {}).scope.typeParameters =
        Table.putAll [] (gathered (fun _ => typeParametersOf) actions {}) :=
      performAll_putAll (·.scope.typeParameters)
        (fun r action => (r.notes_perform action).typeParameters_eq) actions {}
    have hfunctional := functional_gathered typeParametersOf_sublist h {}
    rw [gathered_const] at hrun hfunctional
    rw [hrun]
    exact Table.find_putAll_iff hfunctional
  qualifiedName_iff := by
    intro id path
    have hrun : (performAll actions {}).scope.qualified =
        Table.putAll [] (gathered pathsOf actions {}) :=
      performAll_putAll (·.scope.qualified)
        (fun r action => (r.notes_perform action).qualified_eq) actions {}
    rw [Scope.qualifiedName, hrun]
    exact Table.find_putAll_iff (functional_gathered pathsOf_sublist h {})
  unresolved_eq :=
    performAll_extends (·.scope.unresolved) List.append_nil
      (fun _ _ _ => (List.append_assoc _ _ _).symm)
      (fun r action => (r.notes_perform action).unresolved_eq) actions {}

end Resolver

/-- The entries that the walk over an outline gives are noted under its ids. -/
theorem Outline.Faithful.mem_ids_of_mem_gathered {outline : Outline} (h : outline.Faithful)
    {α : Type} {give : Resolver → Action → List (NodeId × α)} {note : Note}
    (hkeys : ∀ r action, ((give r action).map fun entry => (note, entry.1)).Sublist action.keys)
    {r : Resolver} {entry : NodeId × α} (hmem : entry ∈ Resolver.gathered give outline.actions r) :
    entry.1 ∈ outline.ids :=
  Note.mem_all_iff.1 (h.keys_subperm.subset (Resolver.mem_keys_of_mem_gathered hkeys hmem))

end TreeLang
