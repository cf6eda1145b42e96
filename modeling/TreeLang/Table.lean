/-!
# Tables

A table is a list of keys with values in the order in which the keys were first put there. Writing
to a key that is present keeps its place, so the order of a table shows when each name was
introduced. The entries of a table may be read as the list they are.
-/

namespace TreeLang

/-- Keys with their values, in order of first insertion. -/
abbrev Table (κ : Type u) (α : Type v) := List (κ × α)

namespace Table

variable {κ : Type u} {α : Type v} [DecidableEq κ]

/-- The value at `key`. -/
def find (key : κ) : Table κ α → Option α
  | [] => none
  | (k, a) :: rest => if k = key then some a else find key rest

/-- Whether `key` has a value. -/
def has (key : κ) (table : Table κ α) : Bool := (find key table).isSome

/-- Sets the value at `key`: in place when the key is present, at the end when it is new. -/
def put (key : κ) (value : α) : Table κ α → Table κ α
  | [] => [(key, value)]
  | (k, a) :: rest => if k = key then (k, value) :: rest else (k, a) :: put key value rest

/-- Removes `key` and keeps the order of the others. -/
def drop (key : κ) : Table κ α → Table κ α
  | [] => []
  | (k, a) :: rest => if k = key then rest else (k, a) :: drop key rest

/-- Sets the value at `key` and moves the key to the end. -/
def putLast (key : κ) (value : α) (table : Table κ α) : Table κ α :=
  drop key table ++ [(key, value)]

/-- A key has the value that was put last. -/
@[simp]
theorem find_put_self (key : κ) (value : α) (table : Table κ α) :
    find key (put key value table) = some value := by
  induction table with
  | nil => simp [put, find]
  | cons entry rest ih =>
    obtain ⟨k, a⟩ := entry
    by_cases h : k = key <;> simp [put, find, h, ih]

/-- Putting a value leaves the other keys alone. -/
theorem find_put_of_ne {key other : κ} (h : other ≠ key) (value : α) (table : Table κ α) :
    find other (put key value table) = find other table := by
  induction table with
  | nil => simp [put, find, Ne.symm h]
  | cons entry rest ih =>
    obtain ⟨k, a⟩ := entry
    by_cases hk : k = key
    · subst hk
      simp [put, find, Ne.symm h]
    · simp [put, find, hk, ih]

/-- A table has exactly the keys that it lists. -/
theorem has_iff {key : κ} {table : Table κ α} : has key table ↔ key ∈ table.map Prod.fst := by
  induction table with
  | nil => simp [has, find]
  | cons entry rest ih =>
    obtain ⟨k, a⟩ := entry
    rw [has] at ih
    rw [has, find, List.map_cons, List.mem_cons]
    split
    · next hk => simp [hk]
    · next hk => rw [ih, or_iff_right (Ne.symm hk)]

/-- What is found is an entry. -/
theorem mem_of_find {key : κ} {value : α} {table : Table κ α} (h : find key table = some value) :
    (key, value) ∈ table := by
  induction table with
  | nil => cases h
  | cons entry rest ih =>
    obtain ⟨k, a⟩ := entry
    rw [find] at h
    split at h
    · next heq =>
      cases h
      exact heq ▸ List.mem_cons_self
    · exact List.mem_cons_of_mem _ (ih h)

/-- Where no key stands twice, every entry is found under its key. -/
theorem find_eq_some_of_mem {key : κ} {value : α} {table : Table κ α}
    (distinct : (table.map Prod.fst).Nodup) (h : (key, value) ∈ table) :
    find key table = some value := by
  induction table with
  | nil => cases h
  | cons entry rest ih =>
    obtain ⟨k, a⟩ := entry
    obtain ⟨hnew, hrest⟩ := List.nodup_cons.1 distinct
    rw [find]
    rcases List.mem_cons.1 h with heq | hmem
    · cases heq
      rw [if_pos rfl]
    · rw [if_neg, ih hrest hmem]
      rintro rfl
      exact hnew (List.mem_map.2 ⟨_, hmem, rfl⟩)

/-- Putting adds at most its own key to the keys of the table, and at the end. -/
theorem keys_put (key : κ) (value : α) (table : Table κ α) :
    (put key value table).map Prod.fst =
      if key ∈ table.map Prod.fst then table.map Prod.fst else table.map Prod.fst ++ [key] := by
  induction table with
  | nil => simp [put]
  | cons entry rest ih =>
    obtain ⟨k, a⟩ := entry
    by_cases h : k = key
    · simp [put, h]
    · simp only [put, if_neg h, List.map_cons, ih, List.mem_cons, Ne.symm h, false_or]
      split <;> rfl

/-- Putting what a table has changes nothing. -/
theorem put_of_find {key : κ} {value : α} {table : Table κ α} (h : find key table = some value) :
    put key value table = table := by
  induction table with
  | nil => cases h
  | cons entry rest ih =>
    obtain ⟨k, a⟩ := entry
    rw [find] at h
    rw [put]
    by_cases hk : k = key
    · rw [if_pos hk] at h ⊢
      cases h
      rfl
    · rw [if_neg hk] at h ⊢
      rw [ih h]

/-- The entries of a table after one is put into it. -/
theorem mem_of_mem_put {key : κ} {value : α} {table : Table κ α} {entry : κ × α}
    (h : entry ∈ put key value table) : entry = (key, value) ∨ entry ∈ table := by
  induction table with
  | nil => exact .inl (List.mem_singleton.1 h)
  | cons first rest ih =>
    obtain ⟨k, a⟩ := first
    rw [put] at h
    by_cases hk : k = key
    · rw [if_pos hk, hk] at h
      rcases List.mem_cons.1 h with h | h
      · exact .inl h
      · exact .inr (List.mem_cons_of_mem _ h)
    · rw [if_neg hk] at h
      rcases List.mem_cons.1 h with h | h
      · exact .inr (h ▸ List.mem_cons_self)
      · rcases ih h with h | h
        · exact .inl h
        · exact .inr (List.mem_cons_of_mem _ h)

end Table

end TreeLang
