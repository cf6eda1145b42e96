import Mathlib.Data.List.Nodup
import TreeLang.Evaluation

/-!
# Members of records

Declaring and filling members never changes which names there are. What fills one member leaves the
others as they are.
-/

namespace TreeLang

namespace Slot

variable {name other : String} {slot : Slot} {slots : List Slot} {value : Value}

/-- Slots are looked up from the front. -/
theorem find?_cons (name : String) (first : Slot) (rest : List Slot) :
    find? name (first :: rest) = if first.name = name then some first else find? name rest := by
  by_cases h : first.name = name <;> simp [find?, h]

/-- A slot has its name whether it is filled or not. -/
theorem name_ofOption (name : String) (value : Option Value) :
    (ofOption name value).name = name := by
  cases value <;> rfl

/-- A member of a new name comes last. -/
theorem declare_eq_append (h : slot.name ∉ slots.map Slot.name) :
    declare slot slots = slots ++ [slot] := by
  induction slots with
  | nil => rfl
  | cons first rest ih =>
    rw [List.map_cons, List.mem_cons, not_or] at h
    rw [declare, if_neg (Ne.symm h.1), ih h.2, List.cons_append]

/-! ## By name -/

/-- Filling a slot by its name leaves all names in their places. -/
@[simp] theorem map_name_fillNamed (name : String) (value : Value) (slots : List Slot) :
    (fillNamed name value slots).map Slot.name = slots.map Slot.name := by
  induction slots with
  | nil => rfl
  | cons first rest ih =>
    rw [fillNamed]
    split
    · next h =>
      rw [List.map_cons, List.map_cons, h]
      rfl
    · rw [List.map_cons, List.map_cons, ih]

/-- The slot that is filled by its name holds the value. -/
theorem find?_fillNamed_self (h : name ∈ slots.map Slot.name) (value : Value) :
    find? name (fillNamed name value slots) = some (.filled name value) := by
  induction slots with
  | nil => cases h
  | cons first rest ih =>
    rw [fillNamed]
    split
    · exact (find?_cons _ _ _).trans (if_pos rfl)
    · next hne =>
      rw [find?_cons, if_neg hne]
      exact ih ((List.mem_cons.1 h).resolve_left (Ne.symm hne))

/-- Filling a slot by its name leaves those of other names alone. -/
theorem find?_fillNamed_of_ne (h : other ≠ name) (value : Value) (slots : List Slot) :
    find? other (fillNamed name value slots) = find? other slots := by
  induction slots with
  | nil => rfl
  | cons first rest ih =>
    rw [fillNamed]
    split
    · next heq =>
      rw [find?_cons, find?_cons, if_neg, if_neg]
      · exact heq ▸ Ne.symm h
      · exact Ne.symm h
    · rw [find?_cons, find?_cons, ih]

/-! ## By position -/

/-- Filling a slot at a position leaves all names in their places. -/
@[simp] theorem map_name_fillAt (position : Nat) (value : Value) (slots : List Slot) :
    (fillAt position value slots).map Slot.name = slots.map Slot.name := by
  induction slots generalizing position with
  | nil => rw [fillAt]
  | cons first rest ih =>
    cases position with
    | zero => rfl
    | succ position => rw [fillAt, List.map_cons, List.map_cons, ih]

/-- Where names are distinct, the member at a position is found under its name once it is filled. -/
theorem find?_fillAt_self {position : Nat} (distinct : (slots.map Slot.name).Nodup)
    (h : (slots.map Slot.name)[position]? = some name) (value : Value) :
    find? name (fillAt position value slots) = some (.filled name value) := by
  induction slots generalizing position with
  | nil => cases h
  | cons first rest ih =>
    obtain ⟨hnew, hrest⟩ := List.nodup_cons.1 distinct
    cases position with
    | zero =>
      obtain rfl : first.name = name := by simpa using h
      exact (find?_cons _ _ _).trans (if_pos rfl)
    | succ position =>
      rw [List.map_cons, List.getElem?_cons_succ] at h
      have hne : first.name ≠ name := by
        rintro rfl
        exact hnew (List.mem_of_getElem? h)
      rw [fillAt, find?_cons, if_neg hne, ih hrest h]

/-- Filling a slot at a position leaves the names alone that do not stand there. -/
theorem find?_fillAt_of_ne {position : Nat} (h : (slots.map Slot.name)[position]? ≠ some name)
    (value : Value) : find? name (fillAt position value slots) = find? name slots := by
  induction slots generalizing position with
  | nil => rw [fillAt]
  | cons first rest ih =>
    cases position with
    | zero =>
      have hne : first.name ≠ name := by simpa using h
      rw [fillAt, find?_cons, find?_cons, if_neg hne, if_neg]
      exact hne
    | succ position =>
      rw [List.map_cons, List.getElem?_cons_succ] at h
      rw [fillAt, find?_cons, find?_cons, ih h]

/-! ## By argument -/

/-- Fills the member that an argument at a position goes to. -/
def fill (position : Nat) (argument : Option String × Value) (slots : List Slot) : List Slot :=
  match argument.1 with
  | some label => fillNamed label argument.2 slots
  | none => fillAt position argument.2 slots

/-- An argument does not change the names of the slots. -/
@[simp] theorem map_name_fill (position : Nat) (argument : Option String × Value)
    (slots : List Slot) : (fill position argument slots).map Slot.name = slots.map Slot.name := by
  obtain ⟨label, value⟩ := argument
  cases label with
  | none => exact map_name_fillAt position value slots
  | some label => exact map_name_fillNamed label value slots

end Slot

/-- Members are filled from the arguments in their order. -/
theorem fillMembers_cons (position : Nat) (argument : Option String × Value)
    (rest : List (Option String × Value)) (slots : List Slot) :
    fillMembers position (argument :: rest) slots =
      fillMembers (position + 1) rest (Slot.fill position argument slots) := by
  obtain ⟨label, value⟩ := argument
  cases label <;> rfl

/-! ## Records -/

/-- The members of a record with whether they have a written type. What is no variable is no
member. -/
def Declaration.members (declarations : List Declaration) : List (String × Bool) :=
  declarations.filterMap fun
    | .value _ name form _ => some (name.name, form.isSome)
    | _ => none

namespace Evaluator

/-- A variable is declared as a member. -/
theorem enterMember_value (evaluate : Expression → Store → Store) (state : List Slot × Store)
    (id : NodeId) (name : Pattern) (form : Option TypeForm) (initializer : Option Expression) :
    ∃ slot, slot.name = name.name ∧
      (enterMember evaluate state (.value id name form initializer)).1 =
        Slot.declare slot state.1 := by
  cases initializer with
  | none => exact ⟨.vacant name.name, rfl, rfl⟩
  | some initializer => exact ⟨_, Slot.name_ofOption name.name _, rfl⟩

/-- Where the names of members are distinct, a record has its members in the order of their
declarations. -/
theorem map_name_members (evaluate : Expression → Store → Store) (declarations : List Declaration)
    (state : List Slot × Store)
    (distinct : (state.1.map Slot.name ++ (Declaration.members declarations).map Prod.fst).Nodup) :
    (declarations.foldl (enterMember evaluate) state).1.map Slot.name =
      state.1.map Slot.name ++ (Declaration.members declarations).map Prod.fst := by
  induction declarations generalizing state with
  | nil => exact (List.append_nil _).symm
  | cons declaration rest ih =>
    rw [List.foldl_cons]
    cases declaration with
    | value id name form initializer =>
      have hmembers : Declaration.members (.value id name form initializer :: rest) =
          (name.name, form.isSome) :: Declaration.members rest := rfl
      obtain ⟨slot, hslot, heq⟩ := enterMember_value evaluate state id name form initializer
      rw [hmembers, List.map_cons] at distinct ⊢
      -- the member is new, so it comes after those that are there
      have hnew : slot.name ∉ state.1.map Slot.name := fun hmem =>
        (List.nodup_append.1 distinct).2.2 _ hmem _ List.mem_cons_self hslot
      have hnames : (enterMember evaluate state (.value id name form initializer)).1.map Slot.name =
          state.1.map Slot.name ++ [name.name] := by
        rw [heq, Slot.declare_eq_append hnew, List.map_append, List.map_singleton, hslot]
      rw [← List.singleton_append, ← List.append_assoc, ← hnames] at distinct
      rw [ih _ distinct, hnames, List.append_assoc, List.singleton_append]
    | function | enumeration | record | space | library | placeholder => exact ih state distinct

end Evaluator

end TreeLang
