import TreeLang.Evaluation

/-!
# Values without their types

Erasing a value puts one and the same type in the place of every type in it and keeps its content.
The operations on values do the same on erased values, for one exception: equality tells contents
apart by the types of nested values.
-/

namespace TreeLang

/-- Options that a function does not tell apart are both empty, or have contents that it does not
tell apart. -/
theorem Option.eq_none_or_of_map_eq {α β : Type} {f : α → β} {a b : Option α}
    (h : a.map f = b.map f) :
    (a = none ∧ b = none) ∨ ∃ x y, a = some x ∧ b = some y ∧ f x = f y := by
  cases a with
  | none =>
    rw [Option.map_none, eq_comm, Option.map_eq_none_iff] at h
    exact .inl ⟨rfl, h⟩
  | some x =>
    rw [Option.map_some, eq_comm, Option.map_eq_some_iff] at h
    obtain ⟨y, hy, heq⟩ := h
    exact .inr ⟨x, y, rfl, hy, heq.symm⟩

mutual

/-- A value without its types. -/
def Value.erased : Value → Value
  | .mk _ memory => .mk .unit memory.erased

/-- A content without the types in it. -/
def Memory.erased : Memory → Memory
  | .unit => .unit
  | .bool value => .bool value
  | .number value => .number value
  | .string value => .string value
  | .array items => .array (Value.erasedAll items)
  | .enumeration case values => .enumeration case (Value.erasedAll values)
  | .record members => .record (Slot.erasedAll members)
  | .function callable => .function callable.erased

/-- What can be called, without the types in it. -/
def Callable.erased : Callable → Callable
  | .builtin builtin => .builtin builtin
  | .constructor members => .constructor (Slot.erasedAll members)
  | .caseOf case => .caseOf case

/-- A member without the types in it. -/
def Slot.erased : Slot → Slot
  | .vacant name => .vacant name
  | .filled name value => .filled name value.erased

/-- Values without their types. -/
def Value.erasedAll : List Value → List Value
  | [] => []
  | value :: rest => value.erased :: Value.erasedAll rest

/-- Members without the types in them. -/
def Slot.erasedAll : List Slot → List Slot
  | [] => []
  | slot :: rest => slot.erased :: Slot.erasedAll rest

end

/-- Erasing the types of several values erases those of each. -/
theorem Value.erasedAll_eq_map (values : List Value) :
    Value.erasedAll values = values.map Value.erased := by
  induction values with
  | nil => rfl
  | cons value rest ih => rw [Value.erasedAll, ih, List.map_cons]

/-- Erasing the types of several slots erases those of each. -/
theorem Slot.erasedAll_eq_map (slots : List Slot) :
    Slot.erasedAll slots = slots.map Slot.erased := by
  induction slots with
  | nil => rfl
  | cons slot rest ih => rw [Slot.erasedAll, ih, List.map_cons]

/-! ## Members -/

namespace Slot

/-- A slot keeps its name without its types. -/
@[simp] theorem name_erased (slot : Slot) : slot.erased.name = slot.name := by
  cases slot <;> rfl

/-- A slot is filled or empty whether or not its value has types. -/
theorem erased_ofOption (name : String) (value : Option Value) :
    (ofOption name value).erased = ofOption name (value.map Value.erased) := by
  cases value <;> rfl

/-- Slots are found by name, so finding one commutes with erasing types. -/
theorem find?_map_erased (name : String) (slots : List Slot) :
    find? name (slots.map erased) = (find? name slots).map erased := by
  rw [find?, List.find?_map]
  congr 2
  funext slot
  exact congrArg (fun other => decide (other = name)) slot.name_erased

/-- Declaring a slot commutes with erasing types. -/
theorem map_erased_declare (slot : Slot) (slots : List Slot) :
    (declare slot slots).map erased = declare slot.erased (slots.map erased) := by
  induction slots with
  | nil => rfl
  | cons first rest ih =>
    simp only [declare, List.map_cons, name_erased]
    split
    · rfl
    · rw [List.map_cons, ih]

/-- Filling the slot of a name commutes with erasing types. -/
theorem map_erased_fillNamed (name : String) (value : Value) (slots : List Slot) :
    (fillNamed name value slots).map erased = fillNamed name value.erased (slots.map erased) := by
  induction slots with
  | nil => rfl
  | cons first rest ih =>
    simp only [fillNamed, List.map_cons, name_erased]
    split
    · rfl
    · rw [List.map_cons, ih]

/-- Filling the slot at a position commutes with erasing types. -/
theorem map_erased_fillAt (position : Nat) (value : Value) (slots : List Slot) :
    (fillAt position value slots).map erased = fillAt position value.erased (slots.map erased) := by
  induction slots generalizing position with
  | nil => cases position <;> rfl
  | cons first rest ih =>
    cases position with
    | zero => simp only [fillAt, List.map_cons, erased, name_erased]
    | succ position => simp only [fillAt, List.map_cons, ih]

end Slot

/-- An argument of a call without the types in it. -/
def erasedArgument (argument : Option String × Value) : Option String × Value :=
  (argument.1, argument.2.erased)

/-- Filling members from arguments commutes with erasing types. -/
theorem map_erased_fillMembers (position : Nat) (given : List (Option String × Value))
    (slots : List Slot) :
    (fillMembers position given slots).map Slot.erased =
      fillMembers position (given.map erasedArgument) (slots.map Slot.erased) := by
  induction given generalizing position slots with
  | nil => rfl
  | cons argument rest ih =>
    obtain ⟨label, value⟩ := argument
    cases label with
    | none =>
      rw [fillMembers, ih, Slot.map_erased_fillAt]
      rfl
    | some label =>
      rw [fillMembers, ih, Slot.map_erased_fillNamed]
      rfl

/-! ## Reading -/

namespace Value

/-- The memory of a value without types is the memory of the value, without the types in it. -/
@[simp] theorem memory_erased (value : Value) : value.erased.memory = value.memory.erased := by
  cases value
  rfl

/-- A value is read as a condition whatever its types are. -/
@[simp] theorem asBool_erased (value : Value) : value.erased.asBool = value.asBool := by
  obtain ⟨type, memory⟩ := value
  cases memory <;> rfl

/-- A value is read as a number whatever its types are. -/
@[simp] theorem asNumber_erased (value : Value) : value.erased.asNumber = value.asNumber := by
  obtain ⟨type, memory⟩ := value
  cases memory <;> rfl

/-- A value is read as a string whatever its types are. -/
@[simp] theorem asString_erased (value : Value) : value.erased.asString = value.asString := by
  obtain ⟨type, memory⟩ := value
  cases memory <;> rfl

/-- What can be called can be called without types. -/
theorem asCallable_erased (value : Value) :
    value.erased.asCallable = value.asCallable.map Callable.erased := by
  obtain ⟨type, memory⟩ := value
  cases memory <;> rfl

/-- A value is read as a colour whatever its types are. -/
@[simp] theorem asColor_erased (value : Value) : value.erased.asColor = value.asColor := by
  obtain ⟨type, memory⟩ := value
  cases memory with
  | record members =>
    simp only [erased, Memory.erased, asColor, Slot.erasedAll_eq_map, Slot.find?_map_erased]
    cases Slot.find? "value" members with
    | none => rfl
    | some slot =>
      cases slot with
      | vacant name => rfl
      | filled name value => exact value.asString_erased
  | unit | bool | number | string | array | enumeration | function => rfl

end Value

/-- The order of two contents does not look at types. -/
theorem Memory.compare?_erased (a b : Memory) : a.erased.compare? b.erased = a.compare? b := by
  cases a <;> cases b <;> rfl

/-! ## Calls -/

namespace Builtin

/-- The argument for a parameter is picked by its label or its position. -/
theorem argumentFor_map (given : List (Option String × Value)) (position : Nat)
    (parameter : String) :
    argumentFor (given.map erasedArgument) position parameter =
      (argumentFor given position parameter).map Value.erased := by
  have hlabel : (fun argument => decide (argument.1 = some parameter)) ∘ erasedArgument =
      fun argument : Option String × Value => decide (argument.1 = some parameter) := rfl
  rw [argumentFor, argumentFor, List.find?_map, hlabel, List.getElem?_map]
  cases given.find? fun argument => argument.1 = some parameter with
  | some argument => rfl
  | none =>
    rw [Option.map_none]
    cases given[position]? with
    | none => rfl
    | some argument =>
      obtain ⟨label, value⟩ := argument
      cases label <;> rfl

/-- The arguments for several parameters are picked by their labels or their positions. -/
theorem argumentsFor_map (given : List (Option String × Value)) (position : Nat)
    (parameters : List String) :
    argumentsFor (given.map erasedArgument) position parameters =
      (argumentsFor given position parameters).map (List.map Value.erased) := by
  induction parameters generalizing position with
  | nil => rfl
  | cons parameter rest ih =>
    rw [argumentsFor, argumentsFor, argumentFor_map, ih]
    cases argumentFor given position parameter with
    | none => rfl
    | some value => cases argumentsFor given (position + 1) rest <;> rfl

/-- A native function does not look at types. -/
theorem call_map (builtin : Builtin) (given : List (Option String × Value)) :
    builtin.call (given.map erasedArgument) = builtin.call given := by
  rw [call, call, argumentsFor_map]
  cases argumentsFor given 0 builtin.parameters with
  | none => rfl
  | some values =>
    rw [Option.map_some]
    -- both native functions take two arguments
    match values with
    | [] | [_] | _ :: _ :: _ :: _ => cases builtin <;> rfl
    | [a, b] => cases builtin <;> simp

end Builtin

section Calls

variable {given given' : List (Option String × Value)}
  (hgiven : given.map erasedArgument = given'.map erasedArgument)

include hgiven

/-- What can be called does not look at types. -/
theorem Callable.map_erased_call {callable callable' : Callable}
    (hcallable : callable.erased = callable'.erased) (type type' : Term) :
    (callable.call type given).map Value.erased =
      (callable'.call type' given').map Value.erased := by
  -- callables that are erased to the same one are of the same kind
  cases callable with
  | builtin builtin =>
    cases callable' with
    | builtin builtin' =>
      obtain rfl : builtin = builtin' := Callable.builtin.inj hcallable
      rw [call, call, ← builtin.call_map given, ← builtin.call_map given', hgiven]
    | constructor | caseOf => cases hcallable
  | constructor members =>
    cases callable' with
    | constructor members' =>
      -- members may differ in the types of their defaults, and are filled alike
      have hmembers : members.map Slot.erased = members'.map Slot.erased := by
        rw [← Slot.erasedAll_eq_map, ← Slot.erasedAll_eq_map]
        exact Callable.constructor.inj hcallable
      have hfilled : (fillMembers 0 given members).map Slot.erased =
          (fillMembers 0 given' members').map Slot.erased := by
        rw [map_erased_fillMembers, map_erased_fillMembers, hgiven, hmembers]
      simp only [call, Option.map_some, Value.erased, Memory.erased, Slot.erasedAll_eq_map, hfilled]
    | builtin | caseOf => cases hcallable
  | caseOf case =>
    cases callable' with
    | caseOf case' =>
      obtain rfl : case = case' := Callable.caseOf.inj hcallable
      -- a case forgets the labels of what it is given
      have hvalues : (given.map Prod.snd).map Value.erased =
          (given'.map Prod.snd).map Value.erased := by
        have hsnd := congrArg (List.map Prod.snd) hgiven
        rw [List.map_map, List.map_map] at hsnd
        rw [List.map_map, List.map_map]
        exact hsnd
      simp only [call, Option.map_some, Value.erased, Memory.erased, Value.erasedAll_eq_map,
        hvalues]
    | builtin | constructor => cases hcallable

/-- Calls of functions that differ in types only, with arguments that do, come to values that do. -/
theorem Value.map_erased_call? {function function' : Value}
    (hfunction : function.erased = function'.erased) (expected expected' : Option Term) :
    (function.call? expected given).map Value.erased =
      (function'.call? expected' given').map Value.erased := by
  have hcallable : function.asCallable.map Callable.erased =
      function'.asCallable.map Callable.erased := by
    rw [← asCallable_erased, ← asCallable_erased, hfunction]
  rw [call?, call?]
  obtain ⟨hnone, hnone'⟩ | ⟨callable, callable', hleft, hright, herased⟩ :=
    Option.eq_none_or_of_map_eq hcallable
  · rw [hnone, hnone']
    rfl
  · rw [hleft, hright]
    exact Callable.map_erased_call hgiven herased _ _

end Calls

/-! ## Equality -/

/-- Erasing keeps the number of slots, which equality compares first. -/
theorem Slot.length_erasedAll_beq (as bs : List Slot) :
    ((Slot.erasedAll as).length == (Slot.erasedAll bs).length) = (as.length == bs.length) := by
  rw [Slot.erasedAll_eq_map, Slot.erasedAll_eq_map, List.length_map, List.length_map]

mutual

/-- Values that are the same are so without their types. -/
theorem Value.same_erased : (a b : Value) → a.same b = true → a.erased.same b.erased = true
  | .mk _ memory, .mk _ memory', h => by
    obtain ⟨-, hmemory⟩ := Bool.and_eq_true_iff.1 h
    exact memory.same_erased memory' hmemory

/-- Memories that are equal are equal without types. The other direction fails: erasing loses the
types that equality compares. -/
theorem Memory.same_erased : (a b : Memory) → a.same b = true → a.erased.same b.erased = true
  | .array as, b, h => by
    cases b with
    | array bs => exact Value.sameList_erasedAll as bs h
    | unit | bool | number | string | enumeration | record | function => cases h
  | .enumeration _ as, b, h => by
    cases b with
    | enumeration _ bs =>
      obtain ⟨hcase, hvalues⟩ := Bool.and_eq_true_iff.1 h
      exact Bool.and_eq_true_iff.2 ⟨hcase, Value.sameList_erasedAll as bs hvalues⟩
    | unit | bool | number | string | array | record | function => cases h
  | .record as, b, h => by
    cases b with
    | record bs =>
      obtain ⟨hlength, hwithin⟩ := Bool.and_eq_true_iff.1 h
      exact Bool.and_eq_true_iff.2
        ⟨(Slot.length_erasedAll_beq as bs).trans hlength, Slot.sameWithin_erasedAll as bs hwithin⟩
    | unit | bool | number | string | array | enumeration | function => cases h
  | .function a, b, h => by
    cases b with
    | function b => exact a.same_erased b h
    | unit | bool | number | string | array | enumeration | record => cases h
  | .unit, b, h | .bool _, b, h | .number _, b, h | .string _, b, h => by
    cases b <;> exact h

theorem Callable.same_erased : (a b : Callable) → a.same b = true →
    a.erased.same b.erased = true
  | .constructor as, b, h => by
    cases b with
    | constructor bs =>
      obtain ⟨hlength, hwithin⟩ := Bool.and_eq_true_iff.1 h
      exact Bool.and_eq_true_iff.2
        ⟨(Slot.length_erasedAll_beq as bs).trans hlength, Slot.sameWithin_erasedAll as bs hwithin⟩
    | builtin | caseOf => cases h
  | .builtin _, b, h | .caseOf _, b, h => by
    cases b <;> exact h

/-- Lists of values that are equal are equal without types. -/
theorem Value.sameList_erasedAll : (as bs : List Value) → Value.sameList as bs = true →
    Value.sameList (Value.erasedAll as) (Value.erasedAll bs) = true
  | [], bs, h => by
    cases bs with
    | nil => exact h
    | cons b bs => cases h
  | a :: as, bs, h => by
    cases bs with
    | nil => cases h
    | cons b bs =>
      obtain ⟨hfirst, hrest⟩ := Bool.and_eq_true_iff.1 h
      exact Bool.and_eq_true_iff.2
        ⟨a.same_erased b hfirst, Value.sameList_erasedAll as bs hrest⟩

/-- Slots that are equal are equal without types, in whatever order they are found. -/
theorem Slot.sameWithin_erasedAll : (as bs : List Slot) → Slot.sameWithin as bs = true →
    Slot.sameWithin (Slot.erasedAll as) (Slot.erasedAll bs) = true
  | [], _, _ => rfl
  | .vacant name :: rest, bs, h => by
    obtain ⟨hfirst, hrest⟩ := Bool.and_eq_true_iff.1 h
    refine Bool.and_eq_true_iff.2 ⟨?_, Slot.sameWithin_erasedAll rest bs hrest⟩
    rw [Slot.erasedAll_eq_map, Slot.find?_map_erased]
    cases hfind : Slot.find? name bs with
    | none => rw [hfind] at hfirst; cases hfirst
    | some slot =>
      cases slot with
      | vacant other => rfl
      | filled other value => rw [hfind] at hfirst; cases hfirst
  | .filled name value :: rest, bs, h => by
    obtain ⟨hfirst, hrest⟩ := Bool.and_eq_true_iff.1 h
    refine Bool.and_eq_true_iff.2 ⟨?_, Slot.sameWithin_erasedAll rest bs hrest⟩
    rw [Slot.erasedAll_eq_map, Slot.find?_map_erased]
    cases hfind : Slot.find? name bs with
    | none => rw [hfind] at hfirst; cases hfirst
    | some slot =>
      rw [hfind] at hfirst
      cases slot with
      | vacant other => cases hfirst
      | filled other value' => exact value.same_erased value' hfirst

end

end TreeLang
