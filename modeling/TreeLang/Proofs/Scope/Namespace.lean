import TreeLang.Scope.Namespace

/-!
# What an edit of a namespace changes

Below names that are all namespaces, an edit changes the entry at its path. It changes what no other
path declares, and no path loses its namespace.
-/

namespace TreeLang

/-- The members of an entry, none where it is no namespace. -/
def NamespaceEntry.entries (entry : NamespaceEntry) : Namespace := entry.members.getD []

namespace Namespace

variable {space : Namespace} {name : String} {path parents rest : List String}
  {entry : NamespaceEntry}

/-! ## Entries -/

/-- What a path stands for, which is empty where it stands for nothing. -/
def entryAt (path : List String) (space : Namespace) : NamespaceEntry :=
  (get? path space).getD (.mk none none)

/-- The declaration at a path is that of its entry. -/
theorem pattern?_eq (path : List String) (space : Namespace) :
    pattern? path space = (entryAt path space).pattern := by
  rw [pattern?, entryAt]
  cases get? path space <;> rfl

/-- In the namespace without names all entries are empty. -/
theorem entryAt_of_empty (path : List String) : entryAt path [] = .mk none none := by
  cases path with
  | nil => rfl
  | cons name rest => cases rest <;> rfl

/-- A longer path goes on in the entries of its first name. -/
theorem entryAt_cons (name : String) (h : rest ≠ []) (space : Namespace) :
    entryAt (name :: rest) space = entryAt rest (entryAt [name] space).entries := by
  obtain ⟨next, rest, rfl⟩ := List.exists_cons_of_ne_nil h
  change Option.getD ((space.find name).bind fun entry => entry.members.bind _) _ =
    entryAt _ ((space.find name).getD (.mk none none)).entries
  cases space.find name with
  | none => exact (entryAt_of_empty _).symm
  | some entry =>
    obtain ⟨pattern, members⟩ := entry
    cases members with
    | none => exact (entryAt_of_empty _).symm
    | some members => rfl

/-- Putting an entry changes the entry of its own name only. -/
theorem entryAt_put (first name : String) (entry : NamespaceEntry) (space : Namespace) :
    entryAt [first] (space.put name entry) =
      if first = name then entry else entryAt [first] space := by
  change (Table.find first _).getD _ = if _ then _ else (Table.find first space).getD _
  split
  · next h => rw [h, Table.find_put_self, Option.getD_some]
  · next h => rw [Table.find_put_of_ne h]

/-- A path is open when it leads to a namespace. -/
def Opens (path : List String) (space : Namespace) : Prop :=
  path = [] ∨ (entryAt path space).members.isSome

/-- The path without names is always open. -/
theorem opens_nil (space : Namespace) : Opens [] space := .inl rfl

/-- A longer path is open when its first name has members and the rest is open among them. -/
theorem opens_cons_iff : Opens (name :: rest) space ↔
    (entryAt [name] space).members.isSome ∧ Opens rest (entryAt [name] space).entries := by
  by_cases h : rest = []
  · simp [Opens, h]
  · have hmembers : (entryAt rest (entryAt [name] space).entries).members.isSome →
        (entryAt [name] space).members.isSome := by
      rw [NamespaceEntry.entries]
      cases (entryAt [name] space).members with
      | some members => exact fun _ => rfl
      | none =>
        rw [Option.getD_none, entryAt_of_empty]
        exact id
    simpa [Opens, h, entryAt_cons name h space] using hmembers

/-- What is before an open path is open. -/
theorem Opens.of_append {parents rest : List String} {space : Namespace}
    (h : Opens (parents ++ rest) space) : Opens parents space := by
  induction parents generalizing space with
  | nil => exact opens_nil space
  | cons name parents ih =>
    obtain ⟨hname, hparents⟩ := opens_cons_iff.1 h
    exact opens_cons_iff.2 ⟨hname, ih hparents⟩

/-! ## Editing -/

section Edit

variable (change : NamespaceEntry → Except NamespaceError NamespaceEntry) (done : List String)

/-- Editing at a name changes its entry. -/
theorem edit_singleton (name : String) (space : Namespace) :
    edit change done [name] space =
      (change (entryAt [name] space)).map fun entry => space.put name entry := rfl

/-- Editing at a longer path edits the members of its first name, if there are any. -/
theorem edit_cons (h : rest ≠ []) (hentry : (entryAt [name] space).members.isSome) :
    edit change done (name :: rest) space =
      (edit change (done ++ [name]) rest (entryAt [name] space).entries).map fun members =>
        space.put name (.mk (entryAt [name] space).pattern (some members)) := by
  obtain ⟨next, rest, rfl⟩ := List.exists_cons_of_ne_nil h
  have hentryAt : entryAt [name] space = (space.find name).getD (.mk none none) := rfl
  rw [hentryAt] at hentry ⊢
  cases hfind : space.find name with
  | none => simp [hfind, NamespaceEntry.members] at hentry
  | some entry =>
    obtain ⟨pattern, members⟩ := entry
    cases members with
    | none => simp [hfind, NamespaceEntry.members] at hentry
    | some members =>
      simp only [edit, hfind]
      rfl

/-- An edit fails with its change. -/
theorem edit_eq_error {e : NamespaceError} (hopens : Opens parents space)
    (hchange : change (entryAt (parents ++ [name]) space) = .error e) :
    edit change done (parents ++ [name]) space = .error e := by
  induction parents generalizing space done with
  | nil =>
    rw [List.nil_append] at hchange ⊢
    rw [edit_singleton, hchange]
    rfl
  | cons first parents ih =>
    obtain ⟨hfirst, hopens⟩ := opens_cons_iff.1 hopens
    have hne : parents ++ [name] ≠ [] := List.append_ne_nil_of_right_ne_nil _ (List.cons_ne_nil _ _)
    rw [List.cons_append, entryAt_cons _ hne] at hchange
    rw [List.cons_append, edit_cons _ _ hne hfirst, ih _ hopens hchange]
    rfl

end Edit

/-- A namespace after an edit that gives `entry` to a path. -/
structure Edited (path : List String) (entry : NamespaceEntry) (space edited : Namespace) :
    Prop where
  entryAt_eq : entryAt path edited = entry
  pattern?_eq : ∀ other ≠ path, pattern? other edited = pattern? other space
  opens : ∀ other, Opens other space → Opens other edited

/-- The declaration at a longer path is looked up among the members of its first name. -/
theorem pattern?_cons (name : String) (rest : List String) (space : Namespace) :
    pattern? (name :: rest) space =
      if rest = [] then (entryAt [name] space).pattern
      else pattern? rest (entryAt [name] space).entries := by
  split
  · next h => rw [h, pattern?_eq]
  · next h => rw [pattern?_eq, pattern?_eq, entryAt_cons name h]

/-- What a path declares after an entry is put at a name. -/
theorem pattern?_put (first : String) (rest : List String) (name : String)
    (entry : NamespaceEntry) (space : Namespace) :
    pattern? (first :: rest) (space.put name entry) =
      if first = name then if rest = [] then entry.pattern else pattern? rest entry.entries
      else pattern? (first :: rest) space := by
  rw [pattern?_cons, pattern?_cons, entryAt_put]
  by_cases h : first = name
  · rw [if_pos h, if_pos h]
  · rw [if_neg h, if_neg h]

/-- Which paths are open after an entry is put at a name. -/
theorem opens_put_iff {first : String} : Opens (first :: rest) (space.put name entry) ↔
    if first = name then entry.members.isSome ∧ Opens rest entry.entries
    else Opens (first :: rest) space := by
  rw [opens_cons_iff, entryAt_put]
  split
  · rfl
  · exact opens_cons_iff.symm

/-- Putting an entry at a name edits the path of that name, when the members stay. -/
theorem edited_put (hkeeps : entry.entries = (entryAt [name] space).entries)
    (hopen : (entryAt [name] space).members.isSome → entry.members.isSome) :
    Edited [name] entry space (space.put name entry) where
  entryAt_eq := by rw [entryAt_put, if_pos rfl]
  pattern?_eq other hother := by
    cases other with
    | nil => rfl
    | cons first rest =>
      rw [pattern?_put]
      split
      · next h =>
        have hrest : rest ≠ [] := fun hrest => hother (by rw [h, hrest])
        rw [if_neg hrest, pattern?_cons, if_neg hrest, h, hkeeps]
      · rfl
  opens other hother := by
    cases other with
    | nil => exact opens_nil _
    | cons first rest =>
      rw [opens_put_iff]
      split
      · next h =>
        obtain ⟨hfirst, hrest⟩ := opens_cons_iff.1 hother
        rw [h] at hfirst hrest
        exact ⟨hopen hfirst, hkeeps ▸ hrest⟩
      · exact hother

/-- An edit of the members of a name edits the path through that name. -/
theorem Edited.cons {members : Namespace} (hpath : path ≠ [])
    (h : Edited path entry (entryAt [name] space).entries members) :
    Edited (name :: path) entry space
      (space.put name (.mk (entryAt [name] space).pattern (some members))) where
  entryAt_eq := by
    rw [entryAt_cons name hpath, entryAt_put, if_pos rfl]
    exact h.entryAt_eq
  pattern?_eq other hother := by
    cases other with
    | nil => rfl
    | cons first rest =>
      -- a path that begins with the same name goes on inside of the members, and any other one is
      -- kept
      rw [pattern?_put, pattern?_cons]
      split
      · next hfirst =>
        subst hfirst
        split
        · rfl
        · exact h.pattern?_eq rest fun hrest => hother (by rw [hrest])
      · rfl
  opens other hother := by
    cases other with
    | nil => exact opens_nil _
    | cons first rest =>
      rw [opens_put_iff]
      split
      · next hfirst =>
        obtain ⟨-, hrest⟩ := opens_cons_iff.1 hother
        rw [hfirst] at hrest
        exact ⟨rfl, h.opens rest hrest⟩
      · exact hother

/-- An edit succeeds with its change, when the change keeps the members of the entry. -/
theorem edit_eq_ok (change : NamespaceEntry → Except NamespaceError NamespaceEntry)
    (done : List String) {name : String} (hopens : Opens parents space)
    (hchange : change (entryAt (parents ++ [name]) space) = .ok entry)
    (hkeeps : entry.entries = (entryAt (parents ++ [name]) space).entries)
    (hopen : (entryAt (parents ++ [name]) space).members.isSome → entry.members.isSome) :
    ∃ edited, edit change done (parents ++ [name]) space = .ok edited ∧
      Edited (parents ++ [name]) entry space edited := by
  induction parents generalizing space done with
  | nil =>
    rw [List.nil_append] at hchange hkeeps hopen ⊢
    refine ⟨space.put name entry, ?_, edited_put hkeeps hopen⟩
    rw [edit_singleton, hchange]
    rfl
  | cons first parents ih =>
    have hne : parents ++ [name] ≠ [] := List.append_ne_nil_of_right_ne_nil _ (List.cons_ne_nil _ _)
    obtain ⟨hfirst, hopens⟩ := opens_cons_iff.1 hopens
    rw [List.cons_append, entryAt_cons _ hne] at hchange hkeeps hopen
    obtain ⟨members, hmembers, hedited⟩ := ih (done ++ [first]) hopens hchange hkeeps hopen
    rw [List.cons_append, edit_cons _ _ hne hfirst, hmembers]
    exact ⟨_, rfl, hedited.cons hne⟩

/-! ## Registering and making namespaces -/

/-- What registering a declaration does to the entry of its path. -/
def registering (path : List String) (pattern : NodeId) (entry : NamespaceEntry) :
    Except NamespaceError NamespaceEntry :=
  match entry.pattern with
  | some _ => .error (.alreadyDefined path)
  | none => .ok (.mk (some pattern) entry.members)

/-- What making a namespace does to the entry of its path. -/
def opening (entry : NamespaceEntry) : Except NamespaceError NamespaceEntry :=
  .ok (.mk entry.pattern (some entry.entries))

/-- Below an open path a declaration is registered unless the path has one. -/
theorem set_eq_ok (pattern : NodeId) (hopens : Opens parents space)
    (hnew : pattern? (parents ++ [name]) space = none) :
    ∃ edited, space.set (parents ++ [name]) pattern = .ok edited ∧
      (∀ other, pattern? other edited =
        if other = parents ++ [name] then some pattern else pattern? other space) ∧
      ∀ other, Opens other space → Opens other edited := by
  rw [pattern?_eq] at hnew
  have hchange : registering (parents ++ [name]) pattern (entryAt (parents ++ [name]) space) =
      .ok (.mk (some pattern) (entryAt (parents ++ [name]) space).members) := by
    rw [registering, hnew]
  obtain ⟨edited, hset, hedited⟩ := edit_eq_ok _ [] hopens hchange rfl id
  refine ⟨edited, hset, fun other => ?_, hedited.opens⟩
  split
  · next h =>
    rw [h, pattern?_eq, hedited.entryAt_eq]
    rfl
  · next h => exact hedited.pattern?_eq other h

/-- Below an open path the only reason against a declaration is another one at the same path. -/
theorem set_eq_error (pattern : NodeId) {other : NodeId} (hopens : Opens parents space)
    (hold : pattern? (parents ++ [name]) space = some other) :
    space.set (parents ++ [name]) pattern = .error (.alreadyDefined (parents ++ [name])) := by
  rw [pattern?_eq] at hold
  have hchange : registering (parents ++ [name]) pattern (entryAt (parents ++ [name]) space) =
      .error (.alreadyDefined (parents ++ [name])) := by
    rw [registering, hold]
  exact edit_eq_error _ [] hopens hchange

/-- Below an open path a namespace can be made. It changes no declaration. -/
theorem create_eq_ok (name : String) (hopens : Opens parents space) :
    ∃ edited, space.create (parents ++ [name]) = .ok edited ∧
      (∀ other, pattern? other edited = pattern? other space) ∧
      (∀ other, Opens other space → Opens other edited) ∧ Opens (parents ++ [name]) edited := by
  obtain ⟨edited, hcreate, hedited⟩ : ∃ edited, space.create (parents ++ [name]) = .ok edited ∧
      Edited (parents ++ [name]) _ space edited :=
    edit_eq_ok opening [] hopens rfl rfl fun _ => rfl
  refine ⟨edited, hcreate, fun other => ?_, hedited.opens, .inr ?_⟩
  · by_cases h : other = parents ++ [name]
    · rw [h, pattern?_eq, pattern?_eq, hedited.entryAt_eq]
      rfl
    · exact hedited.pattern?_eq other h
  · rw [hedited.entryAt_eq]
    rfl

end Namespace

end TreeLang
