import Mathlib.Data.List.Nodup
import TreeLang.Scope.Stack

/-!
# What is visible

Flattening a scope stack lists the bindings that lookups find: the innermost one of each name.
-/

namespace TreeLang

namespace Table

variable {κ α : Type} [DecidableEq κ] {table : Table κ α} {key other : κ} {value : α}

/-- No key stands twice. -/
def Distinct (table : Table κ α) : Prop := (table.map Prod.fst).Nodup

/-- An entry of a table with distinct keys is found, and what is found is an entry. -/
theorem mem_iff_find (distinct : table.Distinct) :
    (key, value) ∈ table ↔ table.find key = some value :=
  ⟨find_eq_some_of_mem distinct, mem_of_find⟩

/-- A key is looked up in the first table and then in the second one. -/
theorem find_append (key : κ) (first second : Table κ α) :
    find key (first ++ second) = (first.find key).or (second.find key) := by
  induction first with
  | nil => rfl
  | cons entry rest ih =>
    obtain ⟨k, a⟩ := entry
    rw [List.cons_append, find, find, ih]
    split <;> rfl

/-- A key that a table does not list is not found. -/
theorem find_eq_none (h : key ∉ table.map Prod.fst) : table.find key = none := by
  rwa [← has_iff, has, Bool.not_eq_true, Option.isSome_eq_false_iff, Option.isNone_iff_eq_none] at h

/-- Putting a value keeps keys distinct. -/
theorem Distinct.put (distinct : table.Distinct) (key : κ) (value : α) :
    (table.put key value).Distinct := by
  rw [Distinct, keys_put]
  split
  · exact distinct
  · next hnew => exact List.nodup_append_comm.1 (List.nodup_cons.2 ⟨hnew, distinct⟩)

/-! ## Moving keys to the end -/

/-- Dropping a key leaves the others in their order. -/
theorem drop_sublist (key : κ) (table : Table κ α) : (drop key table).Sublist table := by
  induction table with
  | nil => exact .refl _
  | cons entry rest ih =>
    obtain ⟨k, a⟩ := entry
    rw [drop]
    split
    · exact List.sublist_cons_self _ _
    · exact ih.cons_cons _

/-- A key that was dropped is not found, and the others are found as before. -/
theorem Distinct.find_drop (distinct : table.Distinct) (key other : κ) :
    (drop key table).find other = if other = key then none else table.find other := by
  induction table with
  | nil => exact (ite_self _).symm
  | cons entry rest ih =>
    obtain ⟨k, a⟩ := entry
    obtain ⟨hnew, hrest⟩ := List.nodup_cons.1 distinct
    have habsent : k = key → find key rest = none := fun heq => find_eq_none (heq ▸ hnew)
    rw [drop]
    split
    · next heq =>
      subst heq
      split
      · next hother => rw [hother, habsent rfl]
      · next hother => rw [find, if_neg (Ne.symm hother)]
    · next hne =>
      rw [find, find, ih hrest]
      split
      · next heq => rw [if_neg (heq ▸ hne)]
      · rfl

/-- Putting a value at the end keeps keys distinct. -/
theorem Distinct.putLast (distinct : table.Distinct) (key : κ) (value : α) :
    (putLast key value table).Distinct := by
  have habsent : key ∉ (drop key table).map Prod.fst := by
    rw [← has_iff, has, distinct.find_drop, if_pos rfl]
    exact Bool.false_ne_true
  have hdrop : ((drop key table).map Prod.fst).Nodup :=
    distinct.sublist ((drop_sublist key table).map Prod.fst)
  rw [Distinct, Table.putLast, List.map_append]
  exact List.nodup_append_comm.1 (List.nodup_cons.2 ⟨habsent, hdrop⟩)

/-- A key that is put at the end has the value, and the others have theirs. -/
theorem Distinct.find_putLast (distinct : table.Distinct) (key other : κ) (value : α) :
    (Table.putLast key value table).find other =
      if other = key then some value else table.find other := by
  rw [Table.putLast, find_append, distinct.find_drop]
  split
  · next heq => rw [heq, find, if_pos rfl, Option.none_or]
  · next hne => rw [find, if_neg (Ne.symm hne), find, Option.or_none]

/-- The entries of a table, moved to the end of another one. -/
def overlay (table visible : Table κ α) : Table κ α :=
  table.foldl (fun visible entry => putLast entry.1 entry.2 visible) visible

/-- Lookups find the entries that are moved to the end first. -/
theorem Distinct.overlay {visible : Table κ α} (distinct : table.Distinct)
    (hvisible : visible.Distinct) :
    (table.overlay visible).Distinct ∧
      ∀ key, (table.overlay visible).find key = (table.find key).or (visible.find key) := by
  induction table generalizing visible with
  | nil => exact ⟨hvisible, fun key => rfl⟩
  | cons entry rest ih =>
    obtain ⟨k, a⟩ := entry
    obtain ⟨hnew, hrest⟩ := List.nodup_cons.1 distinct
    obtain ⟨hdistinct, hfind⟩ := ih hrest (hvisible.putLast k a)
    refine ⟨hdistinct, fun key => (hfind key).trans ?_⟩
    rw [hvisible.find_putLast, find]
    by_cases heq : key = k
    · rw [heq, find_eq_none hnew, if_pos rfl, if_pos rfl]
      rfl
    · rw [if_neg heq, if_neg (Ne.symm heq)]

end Table

namespace ScopeStack

variable {stack : ScopeStack}

/-- No frame binds a name twice. -/
def Distinct (stack : ScopeStack) : Prop := ∀ frame ∈ stack.frames, Table.Distinct frame

/-- The frame of an empty stack has no name twice. -/
theorem distinct_empty : Distinct {} := List.forall_mem_singleton.2 List.nodup_nil

/-- The frame that is pushed has no name twice. -/
theorem Distinct.push (h : stack.Distinct) : stack.push.Distinct :=
  List.forall_mem_cons.2 ⟨List.nodup_nil, h⟩

/-- The frames that a pop leaves have no name twice. -/
theorem Distinct.pop (h : stack.Distinct) : stack.pop.Distinct := by
  obtain ⟨inner, outer⟩ := stack
  cases outer with
  | nil => exact h
  | cons next rest => exact (List.forall_mem_cons.1 h).2

/-- Setting a name keeps the names of the frame distinct. -/
theorem Distinct.set (h : stack.Distinct) (name : String) (pattern : NodeId) :
    (stack.set name pattern).Distinct := by
  obtain ⟨hinner, houter⟩ := List.forall_mem_cons.1 h
  exact List.forall_mem_cons.2 ⟨hinner.put name pattern, houter⟩

/-- The flattened list overlays the frames, from the outermost to the innermost one. -/
theorem flattened_eq (stack : ScopeStack) :
    stack.flattened = stack.frames.foldr Table.overlay [] := List.foldl_reverse

/-- Laying frames over each other, from the outermost on, keeps for each name what the innermost
frame with it has. -/
theorem foldr_overlay {frames : List Frame} (distinct : ∀ frame ∈ frames, Table.Distinct frame) :
    (frames.foldr Table.overlay []).Distinct ∧
      ∀ name, (frames.foldr Table.overlay []).find name =
        frames.findSome? fun frame => frame.find name := by
  induction frames with
  | nil => exact ⟨List.nodup_nil, fun name => rfl⟩
  | cons frame rest ih =>
    obtain ⟨hframe, hrest⟩ := List.forall_mem_cons.1 distinct
    obtain ⟨hvisible, hfind⟩ := ih hrest
    obtain ⟨hdistinct, hfound⟩ := hframe.overlay hvisible
    refine ⟨hdistinct, fun name => (hfound name).trans ?_⟩
    rw [hfind, List.findSome?_cons]
    cases frame.find name <;> rfl

/-- The visible bindings are those that lookups find. -/
theorem mem_flattened_iff (distinct : stack.Distinct) {name : String} {pattern : NodeId} :
    (name, pattern) ∈ stack.flattened ↔ stack.get? name = some pattern := by
  obtain ⟨hvisible, hfind⟩ := foldr_overlay distinct
  rw [flattened_eq, get?, ← hfind]
  exact Table.mem_iff_find hvisible

end ScopeStack

end TreeLang
