import TreeLang.Proofs.Scope.Updates
import TreeLang.Proofs.Scope.Visible

/-!
# Flattened namespaces

Registering declarations and making namespaces keeps the names of every namespace distinct. So a
flattened namespace lists each path that declares something once, and a declaration in front of what
is declared beneath it.
-/

namespace TreeLang

namespace Namespace

variable {space members edited : Namespace} {name : String} {path done : List String}
  {entry : NamespaceEntry} {pattern : NodeId}

/-! ## Distinct names -/

/-- No name stands twice in a namespace, nor in any namespace beneath it. -/
inductive Keyed : Namespace → Prop
  | mk {space : Namespace} (distinct : Table.Distinct space)
    (below : ∀ entry ∈ space, Keyed entry.2.entries) : Keyed space

/-- Nothing is named twice in the namespace without names. -/
theorem keyed_nil : Keyed [] := .mk List.nodup_nil nofun

/-- The names beneath a name are distinct. -/
theorem Keyed.beneath (h : Keyed space) (name : String) : Keyed (entryAt [name] space).entries := by
  obtain ⟨-, hbelow⟩ := h
  have hentryAt : entryAt [name] space = (space.find name).getD (.mk none none) := rfl
  rw [hentryAt]
  cases hfind : space.find name with
  | none => exact keyed_nil
  | some entry => exact hbelow _ (Table.mem_of_find hfind)

/-- Putting an entry with distinct names below it keeps names distinct. -/
theorem Keyed.put (h : Keyed space) (hentry : Keyed entry.entries) (name : String) :
    Keyed (space.put name entry) := by
  obtain ⟨hdistinct, hbelow⟩ := h
  refine .mk (Table.Distinct.put hdistinct name entry) ?_
  intro other hother
  rcases Table.mem_of_mem_put hother with rfl | hother
  · exact hentry
  · exact hbelow other hother

/-- An edit keeps names distinct when its change keeps the members of the entry. -/
theorem Edits.keyed {change : NamespaceEntry → Except NamespaceError NamespaceEntry}
    (h : Edits change path space edited)
    (hkeeps : ∀ before after, change before = .ok after → after.entries = before.entries)
    (hspace : Keyed space) : Keyed edited := by
  induction h with
  | @last name space entry h =>
    refine hspace.put ?_ name
    rw [hkeeps _ _ h]
    exact hspace.beneath name
  | @through name rest space members hrest hname h ih =>
    have hmembers : Keyed
        (NamespaceEntry.mk (entryAt [name] space).pattern (some members)).entries :=
      ih (hspace.beneath name)
    exact hspace.put hmembers name

/-! ## Calls -/

/-- A call that may change a namespace. -/
inductive Call where
  | set (path : List String) (pattern : NodeId)
  | create (path : List String)

/-- What a call comes to. -/
def Call.edit (space : Namespace) : Call → Except NamespaceError Namespace
  | .set path pattern => space.set path pattern
  | .create path => space.create path

/-- The namespace that some calls have made, from the empty one. A call that fails is passed
over. -/
def madeBy (calls : List Call) : Namespace :=
  calls.foldl (fun space call => space.orSame (call.edit space)) []

/-- A call keeps names distinct. -/
theorem Keyed.edit (h : Keyed space) (call : Call) : Keyed (space.orSame (call.edit space)) := by
  cases hedit : call.edit space with
  | error e => exact h
  | ok edited =>
    show Keyed edited
    cases call with
    | set path pattern =>
      have hedits : Edits (registering path pattern) path space edited := edits_of_edit_eq_ok hedit
      refine hedits.keyed ?_ h
      intro before after hchange
      rw [(registering_eq_ok_iff.1 hchange).2]
      rfl
    | create path =>
      have hedits : Edits opening path space edited := edits_of_edit_eq_ok hedit
      refine hedits.keyed ?_ h
      intro before after hchange
      exact Except.ok.inj hchange ▸ rfl

/-- Namespaces that are made by calls have distinct names everywhere. -/
theorem keyed_madeBy (calls : List Call) : Keyed (madeBy calls) := by
  have hall : ∀ space, Keyed space →
      Keyed (calls.foldl (fun space call => space.orSame (call.edit space)) space) := by
    induction calls with
    | nil => exact fun space hspace => hspace
    | cons call rest ih => exact fun space hspace => ih _ (hspace.edit call)
  exact hall [] keyed_nil

/-! ## What is listed -/

/-- A namespace is listed entry after entry. -/
theorem flattenFrom_eq_flatMap (done : List String) (space : Namespace) :
    flattenFrom done space = space.flatMap fun entry => flattenAt (done ++ [entry.1]) entry.2 := by
  induction space with
  | nil => rfl
  | cons entry rest ih =>
    obtain ⟨name, entry⟩ := entry
    rw [flattenFrom, ih, List.flatMap_cons]

/-- What an entry lists: its own declaration, and what its members list. -/
theorem flattenAt_eq (path : List String) (entry : NamespaceEntry) :
    flattenAt path entry =
      entry.pattern.toList.map (path, ·) ++ flattenFrom path entry.entries := by
  obtain ⟨pattern, members⟩ := entry
  cases pattern <;> cases members <;> rfl

/-- No declaration is at the empty path. -/
theorem ne_nil_of_pattern? (h : pattern? path space = some pattern) : path ≠ [] := by
  rintro rfl
  cases h

/-- A path that declares something begins with a name that is there. -/
theorem exists_find_of_pattern? {rest : List String}
    (h : pattern? (name :: rest) space = some pattern) : ∃ entry, space.find name = some entry := by
  rw [← Option.ne_none_iff_exists']
  intro hnone
  have hempty : entryAt [name] space = .mk none none := by
    show (space.find name).getD _ = _
    rw [hnone, Option.getD_none]
  rw [pattern?_cons, hempty] at h
  by_cases hrest : rest = []
  · rw [if_pos hrest] at h
    cases h
  · rw [if_neg hrest, pattern?_eq, NamespaceEntry.entries, NamespaceEntry.members,
      Option.getD_none, entryAt_of_empty] at h
    cases h

/-- The entry of a name is the one that the namespace has for it. -/
theorem entryAt_of_mem (distinct : Table.Distinct space) (h : (name, entry) ∈ space) :
    entryAt [name] space = entry := by
  show (space.find name).getD _ = _
  rw [Table.find_eq_some_of_mem distinct h, Option.getD_some]

/-- Where names are distinct, a namespace lists what its paths declare. -/
theorem Keyed.mem_flattenFrom_iff (h : Keyed space) :
    (path, pattern) ∈ flattenFrom done space ↔
      ∃ rest, path = done ++ rest ∧ pattern? rest space = some pattern := by
  -- by induction on the namespace: a path is a name of its own or goes on inside of the entry
  induction h generalizing done path with
  | @mk space distinct below ih =>
    rw [flattenFrom_eq_flatMap, List.mem_flatMap]
    constructor
    · rintro ⟨⟨name, entry⟩, hentry, hmem⟩
      rw [flattenAt_eq, List.mem_append, List.mem_map] at hmem
      rcases hmem with ⟨id, hid, heq⟩ | hmem
      · cases heq
        refine ⟨[name], rfl, ?_⟩
        rw [pattern?_eq, entryAt_of_mem distinct hentry]
        exact Option.mem_toList.1 hid
      · obtain ⟨rest, rfl, hpattern⟩ := (ih (name, entry) hentry).1 hmem
        refine ⟨name :: rest, by rw [List.append_assoc, List.singleton_append], ?_⟩
        rw [pattern?_cons, if_neg (ne_nil_of_pattern? hpattern), entryAt_of_mem distinct hentry]
        exact hpattern
    · rintro ⟨rest, rfl, hpattern⟩
      -- a path that declares something begins with a name that has an entry
      obtain ⟨name, rest, rfl⟩ := List.exists_cons_of_ne_nil (ne_nil_of_pattern? hpattern)
      obtain ⟨entry, hfind⟩ := exists_find_of_pattern? hpattern
      have hentry : (name, entry) ∈ space := Table.mem_of_find hfind
      refine ⟨(name, entry), hentry, ?_⟩
      rw [pattern?_cons, entryAt_of_mem distinct hentry] at hpattern
      rw [flattenAt_eq, List.mem_append, List.mem_map]
      by_cases hrest : rest = []
      · rw [if_pos hrest] at hpattern
        exact .inl ⟨pattern, Option.mem_toList.2 hpattern, by rw [hrest]⟩
      · rw [if_neg hrest] at hpattern
        refine .inr ((ih _ hentry).2 ⟨rest, ?_, hpattern⟩)
        rw [List.append_assoc, List.singleton_append]

/-- What an entry lists is at its path or beneath it. -/
theorem prefix_of_mem_flattenAt (hentry : Keyed entry.entries) {listed : List String × NodeId}
    (h : listed ∈ flattenAt path entry) : path <+: listed.1 := by
  obtain ⟨path', id⟩ := listed
  rw [flattenAt_eq, List.mem_append, List.mem_map] at h
  rcases h with ⟨id', -, heq⟩ | h
  · cases heq
    exact List.prefix_rfl
  · obtain ⟨rest, rfl, -⟩ := hentry.mem_flattenFrom_iff.1 h
    exact List.prefix_append _ _

/-- Where names are distinct, nothing is listed after what is declared beneath it, and nothing
twice. -/
theorem Keyed.pairwise_flattenFrom (h : Keyed space) (done : List String) :
    (flattenFrom done space).Pairwise fun a b => ¬ b.1 <+: a.1 := by
  induction h generalizing done with
  | @mk space distinct below ih =>
    rw [flattenFrom_eq_flatMap, List.pairwise_flatMap]
    refine ⟨?_, ?_⟩
    · intro entry hentry
      rw [flattenAt_eq, List.pairwise_append]
      refine ⟨?_, ih entry hentry _, ?_⟩
      · cases entry.2.pattern with
        | none => exact .nil
        | some id => exact List.pairwise_singleton _ _
      · -- what is beneath a path is longer than the path
        rintro a ha ⟨path, id⟩ hb hprefix
        obtain ⟨id', -, rfl⟩ := List.mem_map.1 ha
        obtain ⟨rest, rfl, hpattern⟩ := (below entry hentry).mem_flattenFrom_iff.1 hb
        have hlength : (done ++ [entry.1] ++ rest).length ≤ (done ++ [entry.1]).length :=
          hprefix.length_le
        have hpos := List.length_pos_of_ne_nil (ne_nil_of_pattern? hpattern)
        rw [List.length_append] at hlength
        omega
    · refine (List.pairwise_map.1 distinct).imp_of_mem ?_
      intro first second hfirst hsecond hne a ha b hb hprefix
      -- two paths that lead to one are of the same length, so they end with the same name
      have hpath : done ++ [second.1] = done ++ [first.1] :=
        (List.prefix_of_prefix_length_le
          ((prefix_of_mem_flattenAt (below second hsecond) hb).trans hprefix)
          (prefix_of_mem_flattenAt (below first hfirst) ha) (by simp)).eq_of_length (by simp)
      exact hne (List.singleton_inj.1 (List.append_cancel_left hpath)).symm

/-- What flattening a namespace comes to. -/
structure FlattensExactly (space : Namespace) : Prop where
  /-- What is listed is what the paths declare. -/
  mem_iff : ∀ path pattern, (path, pattern) ∈ space.flatten ↔ pattern? path space = some pattern
  /-- No path is listed twice. -/
  nodup : (space.flatten.map Prod.fst).Nodup
  /-- Nothing is listed after what is declared beneath it. -/
  ordered : space.flatten.Pairwise fun a b => ¬ b.1 <+: a.1

/-- A namespace with distinct names is listed exactly. -/
theorem Keyed.flattensExactly (h : Keyed space) : FlattensExactly space := by
  have hordered := h.pairwise_flattenFrom []
  refine ⟨?_, ?_, hordered⟩
  · intro path pattern
    rw [flatten, h.mem_flattenFrom_iff]
    constructor
    · rintro ⟨rest, rfl, hpattern⟩
      exact hpattern
    · intro hpattern
      exact ⟨path, rfl, hpattern⟩
  · rw [List.Nodup, List.pairwise_map]
    refine hordered.imp ?_
    intro a b hprefix heq
    exact hprefix (heq ▸ List.prefix_rfl)

/-- **Namespaces are exact.** In every namespace that calls can make, registering a declaration and
making a namespace either do that and nothing else or change nothing, and they fail for the stated
reasons only. Flattening lists each declaration once, in front of those beneath it. -/
theorem madeBy_exact (calls : List Call) :
    (∀ path pattern, SetsExactly (madeBy calls) path pattern) ∧
      (∀ path, CreatesExactly (madeBy calls) path) ∧ FlattensExactly (madeBy calls) :=
  ⟨setsExactly _, createsExactly _, (keyed_madeBy calls).flattensExactly⟩

end Namespace

end TreeLang
