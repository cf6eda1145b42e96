import Mathlib.Data.List.Infix
import TreeLang.Proofs.Scope.Namespace

/-!
# Updates of namespaces are exact and atomic

An edit goes down the names of its path through the namespaces that they stand for, changes the
entry at the path, and puts back on the way up what it went through. `Edits` says this once. It
tells when an edit succeeds, and that it makes no path a namespace but its own. An update in place
makes the entry at its path before it looks at it; still it leaves everything as it was when it
fails.
-/

namespace TreeLang

namespace Namespace

variable {space edited : Namespace} {name : String} {path parents rest : List String}
  {entry : NamespaceEntry} {pattern : NodeId}

/-! ## Paths of namespaces -/

/-- A namespace has members at exactly the open paths. -/
theorem isSome_members?_iff : (members? path space).isSome ↔ Opens path space := by
  rw [members?, Opens, entryAt]
  by_cases hpath : path = []
  · simp [hpath]
  · have hempty : path.isEmpty = false := by simpa using hpath
    rw [hempty, if_neg Bool.false_ne_true, or_iff_right hpath]
    cases get? path space with
    | none => simp [NamespaceEntry.members]
    | some entry => rfl

/-- A path lies below namespaces when all that is in front of its last name leads to one. -/
theorem opens_iff_forall_before :
    Opens parents space ↔
      ∀ before, before <+: parents ++ [name] → before ≠ parents ++ [name] →
        (members? before space).isSome := by
  constructor
  · intro h before hprefix hne
    rw [isSome_members?_iff]
    rcases List.prefix_concat_iff.1 hprefix with heq | ⟨rest, rfl⟩
    · exact absurd heq hne
    · exact h.of_append
  · intro h
    refine isSome_members?_iff.1 (h parents (List.prefix_append _ _) ?_)
    intro heq
    exact absurd (congrArg List.length heq) (by simp)

/-- A path is open when the rest of it is open among entries that there are. -/
theorem opens_of_entries_eq (h : rest ≠ []) (hrest : Opens rest (entryAt [name] space).entries) :
    Opens (name :: rest) space := by
  refine opens_cons_iff.2 ⟨?_, hrest⟩
  rw [NamespaceEntry.entries] at hrest
  cases hmembers : (entryAt [name] space).members with
  | some members => rfl
  | none =>
    rw [hmembers, Option.getD_none] at hrest
    rcases hrest with hrest | hrest
    · exact absurd hrest h
    · rw [entryAt_of_empty] at hrest
      cases hrest

/-! ## What an edit does -/

/-- An edit of a namespace: at the last name of its path it changes the entry, and at the names
before the namespace that the name stands for. -/
inductive Edits (change : NamespaceEntry → Except NamespaceError NamespaceEntry) :
    List String → Namespace → Namespace → Prop
  | last {name : String} {space : Namespace} {entry : NamespaceEntry}
    (h : change (entryAt [name] space) = .ok entry) :
    Edits change [name] space (space.put name entry)
  | through {name : String} {rest : List String} {space members : Namespace} (hrest : rest ≠ [])
    (hname : (entryAt [name] space).members.isSome)
    (h : Edits change rest (entryAt [name] space).entries members) :
    Edits change (name :: rest) space
      (space.put name (.mk (entryAt [name] space).pattern (some members)))

variable {change : NamespaceEntry → Except NamespaceError NamespaceEntry}

/-- An edit does not go through what is no namespace. -/
theorem edit_cons_of_none (change : NamespaceEntry → Except NamespaceError NamespaceEntry)
    (done : List String) (hrest : rest ≠ [])
    (hname : (entryAt [name] space).members = none) :
    ∃ e, edit change done (name :: rest) space = .error e := by
  obtain ⟨next, rest, rfl⟩ := List.exists_cons_of_ne_nil hrest
  have hentryAt : entryAt [name] space = (space.find name).getD (.mk none none) := rfl
  rw [hentryAt] at hname
  cases hfind : space.find name with
  | none =>
    refine ⟨.missingNamespace (done ++ [name]), ?_⟩
    simp only [edit, hfind]
  | some entry =>
    obtain ⟨pattern, members⟩ := entry
    rw [hfind] at hname
    obtain rfl : members = none := hname
    refine ⟨.notANamespace (done ++ [name]), ?_⟩
    simp only [edit, hfind]

/-- An edit that succeeds does what it is to do, and nothing else. -/
theorem edits_of_edit_eq_ok {done : List String} (h : edit change done path space = .ok edited) :
    Edits change path space edited := by
  -- by induction on the path: the last name is changed, and each name before it must have members
  induction path generalizing done space edited with
  | nil => cases h
  | cons name rest ih =>
    by_cases hrest : rest = []
    · subst hrest
      rw [edit_singleton] at h
      cases hchange : change (entryAt [name] space) with
      | error e =>
        rw [hchange] at h
        cases h
      | ok entry =>
        rw [hchange] at h
        cases h
        exact .last hchange
    · cases hname : (entryAt [name] space).members with
      | none =>
        obtain ⟨e, he⟩ := edit_cons_of_none change done hrest hname
        rw [he] at h
        cases h
      | some _ =>
        have hsome : (entryAt [name] space).members.isSome := by rw [hname]; rfl
        rw [edit_cons change done hrest hsome] at h
        cases hbelow : edit change (done ++ [name]) rest (entryAt [name] space).entries with
        | error e =>
          rw [hbelow] at h
          cases h
        | ok members =>
          rw [hbelow] at h
          cases h
          exact .through hrest hsome (ih hbelow)

namespace Edits

/-- An edit goes through namespaces only, and its change succeeds. -/
theorem exists_concat (h : Edits change path space edited) :
    ∃ parents name entry, path = parents ++ [name] ∧ Opens parents space ∧
      change (entryAt path space) = .ok entry := by
  induction h with
  | @last name space entry h => exact ⟨[], name, entry, rfl, opens_nil space, h⟩
  | @through name rest space members hrest hname h ih =>
    obtain ⟨parents, last, entry, rfl, hopens, hchange⟩ := ih
    refine ⟨name :: parents, last, entry, rfl, opens_cons_iff.2 ⟨hname, hopens⟩, ?_⟩
    rw [entryAt_cons name hrest]
    exact hchange

/-- An edit that keeps the members of its entry makes no path a namespace but its own. -/
theorem opens (h : Edits change path space edited)
    (hkeeps : ∀ before after, change before = .ok after → after.entries = before.entries)
    {other : List String} (hother : Opens other edited) :
    Opens other space ∨ other = path ∧
      ∃ entry, change (entryAt path space) = .ok entry ∧ entry.members.isSome := by
  induction h generalizing other with
  | @last name space entry h =>
    cases other with
    | nil => exact .inl (opens_nil space)
    | cons first rest =>
      -- the only members that may be new are those of the entry at the path itself
      rw [opens_put_iff] at hother
      by_cases hfirst : first = name
      · subst hfirst
        rw [if_pos rfl, hkeeps _ _ h] at hother
        by_cases hrest : rest = []
        · exact .inr ⟨by rw [hrest], entry, h, hother.1⟩
        · exact .inl (opens_of_entries_eq hrest hother.2)
      · rw [if_neg hfirst] at hother
        exact .inl hother
  | @through name path space members hpath hname h ih =>
    cases other with
    | nil => exact .inl (opens_nil space)
    | cons first rest =>
      rw [opens_put_iff] at hother
      by_cases hfirst : first = name
      · -- below the name it is an edit again, by induction
        subst hfirst
        rw [if_pos rfl] at hother
        rcases ih hother.2 with hrest | ⟨rfl, hentry⟩
        · exact .inl (opens_cons_iff.2 ⟨hname, hrest⟩)
        · refine .inr ⟨rfl, ?_⟩
          rw [entryAt_cons first hpath]
          exact hentry
      · rw [if_neg hfirst] at hother
        exact .inl hother

end Edits

/-! ## Updates in place -/

/-- What an update leaves: its outcome, and what there is afterward, which is the same as before
when the update fails. -/
def leaving {α : Type} (before : α) : Except NamespaceError α → Except NamespaceError Unit × α
  | .ok after => (.ok (), after)
  | .error e => (.error e, before)

/-- Updates the entry at a path in place. The entry is made if it is not there, before it is looked
at, and it stays as the update leaves it. `done` is the path that leads here. -/
def updateInPlace (update : NamespaceEntry → Except NamespaceError Unit × NamespaceEntry) :
    List String → List String → Namespace → Except NamespaceError Unit × Namespace
  | _, [], space => (.error .emptyPath, space)
  | _, [name], space =>
    let (outcome, entry) := update ((space.find name).getD (.mk none none))
    (outcome, space.put name entry)
  | done, name :: rest, space =>
    match space.find name with
    | none => (.error (.missingNamespace (done ++ [name])), space)
    | some (.mk _ none) => (.error (.notANamespace (done ++ [name])), space)
    | some (.mk pattern (some members)) =>
      let (outcome, members) := updateInPlace update (done ++ [name]) rest members
      (outcome, space.put name (.mk pattern (some members)))

/-- Registers a declaration in place. -/
def setInPlace (path : List String) (pattern : NodeId) (space : Namespace) :
    Except NamespaceError Unit × Namespace :=
  updateInPlace (fun entry =>
    match entry.pattern with
    | some _ => (.error (.alreadyDefined path), entry)
    | none => (.ok (), .mk (some pattern) entry.members)) [] path space

/-- Makes a namespace in place. -/
def createInPlace (path : List String) (space : Namespace) :
    Except NamespaceError Unit × Namespace :=
  updateInPlace (fun entry => (.ok (), .mk entry.pattern (some (entry.members.getD [])))) [] path
    space

/-- An update in place does what an edit does, if only an entry that is there can make it fail. -/
theorem updateInPlace_eq (change : NamespaceEntry → Except NamespaceError NamespaceEntry)
    {update : NamespaceEntry → Except NamespaceError Unit × NamespaceEntry}
    (hupdate : ∀ entry, update entry = leaving entry (change entry))
    (hnew : ∃ entry, change (.mk none none) = .ok entry) (done : List String) :
    updateInPlace update done path space = leaving space (edit change done path space) := by
  induction path generalizing done space with
  | nil => rfl
  | cons name rest ih =>
    by_cases hrest : rest = []
    · subst hrest
      rw [edit_singleton, updateInPlace]
      show ((update (entryAt [name] space)).1, space.put name (update (entryAt [name] space)).2) = _
      rw [hupdate]
      cases hchange : change (entryAt [name] space) with
      | ok entry => rfl
      | error e =>
        -- the entry was there before, so putting it back changes nothing
        have hfind : space.find name = some (entryAt [name] space) := by
          have hentryAt : entryAt [name] space = (space.find name).getD (.mk none none) := rfl
          cases hfind : space.find name with
          | some entry => rw [hentryAt, hfind, Option.getD_some]
          | none =>
            obtain ⟨entry, hentry⟩ := hnew
            rw [hentryAt, hfind, Option.getD_none, hentry] at hchange
            cases hchange
        show (_, space.put name (entryAt [name] space)) = _
        rw [Table.put_of_find hfind]
        rfl
    · obtain ⟨next, rest, rfl⟩ := List.exists_cons_of_ne_nil hrest
      cases hfind : space.find name with
      | none =>
        simp only [updateInPlace, edit, hfind]
        rfl
      | some entry =>
        obtain ⟨pattern, members⟩ := entry
        cases members with
        | none =>
          simp only [updateInPlace, edit, hfind]
          rfl
        | some members =>
          simp only [updateInPlace, edit, hfind, ih]
          cases edit change (done ++ [name]) (next :: rest) members with
          | ok edited => rfl
          | error e =>
            show (_, space.put name (.mk pattern (some members))) = _
            rw [Table.put_of_find hfind]
            rfl

/-- Setting a path in place does what setting it does, and leaves the namespace alone when that
fails. -/
theorem setInPlace_eq (path : List String) (pattern : NodeId) (space : Namespace) :
    space.setInPlace path pattern = leaving space (space.set path pattern) := by
  refine updateInPlace_eq (registering path pattern) ?_ ⟨_, rfl⟩ []
  intro entry
  rw [registering]
  cases entry.pattern <;> rfl

/-- Creating a namespace in place does what creating it does, and leaves the namespace alone when
that fails. -/
theorem createInPlace_eq (path : List String) (space : Namespace) :
    space.createInPlace path = leaving space (space.create path) :=
  updateInPlace_eq opening (fun _ => rfl) ⟨_, rfl⟩ []

/-! ## Registering and making namespaces, exactly -/

/-- What registering a declaration at a path comes to. -/
structure SetsExactly (space : Namespace) (path : List String) (pattern : NodeId) : Prop where
  /-- It fails and leaves the namespace as it was, or it succeeds and leaves the edited one. -/
  atomic : space.setInPlace path pattern = leaving space (space.set path pattern)
  /-- It succeeds when there is a last name, all in front of it leads to namespaces, and the path
  declares nothing. -/
  ok_iff : (∃ edited, space.set path pattern = .ok edited) ↔
    path ≠ [] ∧ (∀ before, before <+: path → before ≠ path → (members? before space).isSome) ∧
      pattern? path space = none
  /-- Then the path has the declaration, and nothing else changes. -/
  ok : ∀ edited, space.set path pattern = .ok edited →
    pattern? path edited = some pattern ∧
      (∀ other ≠ path, pattern? other edited = pattern? other space) ∧
      ∀ other, (members? other edited).isSome ↔ (members? other space).isSome

/-- What making a namespace at a path comes to. -/
structure CreatesExactly (space : Namespace) (path : List String) : Prop where
  /-- It fails and leaves the namespace as it was, or it succeeds and leaves the edited one. -/
  atomic : space.createInPlace path = leaving space (space.create path)
  /-- It succeeds when there is a last name and all in front of it leads to namespaces. -/
  ok_iff : (∃ edited, space.create path = .ok edited) ↔
    path ≠ [] ∧ ∀ before, before <+: path → before ≠ path → (members? before space).isSome
  /-- Then the path is a namespace, and nothing else changes. -/
  ok : ∀ edited, space.create path = .ok edited →
    (members? path edited).isSome ∧
      (∀ other, pattern? other edited = pattern? other space) ∧
      ∀ other ≠ path, (members? other edited).isSome ↔ (members? other space).isSome

/-- Registering at an entry succeeds when it has no declaration, and keeps its members. -/
theorem registering_eq_ok_iff {after : NamespaceEntry} :
    registering path pattern entry = .ok after ↔
      entry.pattern = none ∧ after = .mk (some pattern) entry.members := by
  rw [registering]
  cases entry.pattern with
  | none => simp [eq_comm]
  | some other => simp

/-- A registration that succeeds is below namespaces, at a path that declares nothing. -/
theorem exists_concat_of_set_eq_ok (h : space.set path pattern = .ok edited) :
    ∃ parents name, path = parents ++ [name] ∧ Opens parents space ∧
      pattern? path space = none := by
  have hedits : Edits (registering path pattern) path space edited := edits_of_edit_eq_ok h
  obtain ⟨parents, name, entry, hpath, hopens, hchange⟩ := hedits.exists_concat
  refine ⟨parents, name, hpath, hopens, ?_⟩
  rw [pattern?_eq]
  exact (registering_eq_ok_iff.1 hchange).1

/-- A registration makes no path a namespace. -/
theorem opens_of_set_eq_ok (h : space.set path pattern = .ok edited) {other : List String}
    (hother : Opens other edited) : Opens other space := by
  have hedits : Edits (registering path pattern) path space edited := edits_of_edit_eq_ok h
  have hkeeps : ∀ before after, registering path pattern before = .ok after →
      after.entries = before.entries := by
    intro before after hchange
    rw [(registering_eq_ok_iff.1 hchange).2]
    rfl
  rcases hedits.opens hkeeps hother with hspace | ⟨rfl, entry, hchange, hmembers⟩
  · exact hspace
  · rw [(registering_eq_ok_iff.1 hchange).2] at hmembers
    exact .inr hmembers

/-- Setting a path does exactly what is said of it. -/
theorem setsExactly (space : Namespace) (path : List String) (pattern : NodeId) :
    SetsExactly space path pattern := by
  refine ⟨setInPlace_eq path pattern space, ?_, ?_⟩
  · constructor
    · rintro ⟨edited, h⟩
      obtain ⟨parents, name, rfl, hopens, hnone⟩ := exists_concat_of_set_eq_ok h
      exact ⟨by simp, opens_iff_forall_before.1 hopens, hnone⟩
    · rintro ⟨hpath, hbefore, hnone⟩
      obtain ⟨parents, name, rfl⟩ := (List.eq_nil_or_concat' path).resolve_left hpath
      obtain ⟨edited, hset, -⟩ := set_eq_ok pattern (opens_iff_forall_before.2 hbefore) hnone
      exact ⟨edited, hset⟩
  · intro edited h
    obtain ⟨parents, name, rfl, hopens, hnone⟩ := exists_concat_of_set_eq_ok h
    obtain ⟨edited', hset, hpatterns, hkept⟩ := set_eq_ok pattern hopens hnone
    obtain rfl : edited = edited' := Except.ok.inj (h.symm.trans hset)
    refine ⟨?_, ?_, ?_⟩
    · rw [hpatterns, if_pos rfl]
    · intro other hother
      rw [hpatterns, if_neg hother]
    · intro other
      rw [isSome_members?_iff, isSome_members?_iff]
      exact ⟨opens_of_set_eq_ok h, hkept other⟩

/-- A namespace that is made is below namespaces. -/
theorem exists_concat_of_create_eq_ok (h : space.create path = .ok edited) :
    ∃ parents name, path = parents ++ [name] ∧ Opens parents space := by
  have hedits : Edits opening path space edited := edits_of_edit_eq_ok h
  obtain ⟨parents, name, entry, hpath, hopens, -⟩ := hedits.exists_concat
  exact ⟨parents, name, hpath, hopens⟩

/-- Creating a namespace does exactly what is said of it. -/
theorem createsExactly (space : Namespace) (path : List String) : CreatesExactly space path := by
  refine ⟨createInPlace_eq path space, ?_, ?_⟩
  · constructor
    · rintro ⟨edited, h⟩
      obtain ⟨parents, name, rfl, hopens⟩ := exists_concat_of_create_eq_ok h
      exact ⟨by simp, opens_iff_forall_before.1 hopens⟩
    · rintro ⟨hpath, hbefore⟩
      obtain ⟨parents, name, rfl⟩ := (List.eq_nil_or_concat' path).resolve_left hpath
      obtain ⟨edited, hcreate, -⟩ := create_eq_ok name (opens_iff_forall_before.2 hbefore)
      exact ⟨edited, hcreate⟩
  · intro edited h
    have hedits : Edits opening path space edited := edits_of_edit_eq_ok h
    obtain ⟨parents, name, rfl, hopens⟩ := exists_concat_of_create_eq_ok h
    obtain ⟨edited', hcreate, hpatterns, hkept, hmade⟩ := create_eq_ok name hopens
    obtain rfl : edited = edited' := Except.ok.inj (h.symm.trans hcreate)
    refine ⟨isSome_members?_iff.2 hmade, hpatterns, ?_⟩
    intro other hother
    rw [isSome_members?_iff, isSome_members?_iff]
    constructor
    · intro hopen
      rcases hedits.opens (fun _ _ hchange => Except.ok.inj hchange ▸ rfl) hopen with
        hspace | ⟨heq, -⟩
      · exact hspace
      · exact absurd heq hother
    · exact hkept other

end Namespace

end TreeLang
