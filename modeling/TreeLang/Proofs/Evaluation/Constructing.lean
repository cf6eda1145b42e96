import TreeLang.Proofs.Evaluation.Effects
import TreeLang.Proofs.Evaluation.Writing

/-!
# Records have the shape that is declared

A constructor is found in the store only where a record was declared before, and it is the one that
was made then, with the defaults that were evaluated then. So no call changes what a later one
makes: each call makes a record with the declared members, from these defaults and its own
arguments.
-/

namespace TreeLang

open Evaluator (Effect perform performAll performAll_append constructorValue declaredMembers
  memberNames)

/-! ## Where constructors come from -/

/-- Whether a value is the constructor of a record. -/
def Value.isConstructor : Value → Bool
  | .mk _ (.function (.constructor _)) => true
  | _ => false

/-- What can be called as a constructor is a constructor. -/
theorem Value.isConstructor_of_asCallable {value : Value} {members : List Slot}
    (h : value.asCallable = some (.constructor members)) : value.isConstructor = true := by
  obtain ⟨type, memory⟩ := value
  cases memory with
  | function callable =>
    cases h
    rfl
  | _ => cases h

/-- Native functions give no constructors. -/
theorem Builtin.isConstructor_call {builtin : Builtin} {given : List (Option String × Value)}
    {value : Value} (h : builtin.call given = some value) : value.isConstructor = false := by
  obtain ⟨arguments, -, h⟩ := Option.bind_eq_some_iff.1 h
  split at h
  · obtain ⟨a, -, h⟩ := Option.bind_eq_some_iff.1 h
    obtain ⟨b, -, h⟩ := Option.bind_eq_some_iff.1 h
    cases h
    rfl
  · obtain ⟨hex, -, h⟩ := Option.bind_eq_some_iff.1 h
    obtain ⟨factor, -, h⟩ := Option.bind_eq_some_iff.1 h
    split at h
    · cases h
      rfl
    · cases h
  · cases h

namespace Evaluator

variable {known : Knowledge} {before : List Effect} {store : Store} {id : NodeId}

/-- A value is what some effect has given to the name of a record. -/
def Constructed (known : Knowledge) (before : List Effect) (function : Value) : Prop :=
  ∃ name declarations entered, .construct name declarations entered ∈ before ∧
    function = constructorValue known name
      (declaredMembers (Expression.evaluate known) declarations entered)

/-- All constructors in a store were made by effects. -/
def Justified (known : Knowledge) (before : List Effect) (store : Store) : Prop :=
  ∀ id function, store.find id = some function → function.isConstructor = true →
    Constructed known before function

/-- A constructor that was made before is made before any later effect as well. -/
theorem Constructed.append {function : Value} (h : Constructed known before function)
    (effects : List Effect) : Constructed known (before ++ effects) function := by
  obtain ⟨name, declarations, entered, hmem, heq⟩ := h
  exact ⟨name, declarations, entered, List.mem_append_left effects hmem, heq⟩

/-- What justifies the constructors of a store still does so after more effects. -/
theorem Justified.append (h : Justified known before store) (effects : List Effect) :
    Justified known (before ++ effects) store := fun id function hfind hconstructor =>
  (h id function hfind hconstructor).append effects

/-- A store stays justified when a value is put that is no constructor, or one that was made
before. -/
theorem Justified.put (h : Justified known before store) {value : Value}
    (hvalue : value.isConstructor = true → Constructed known before value) (id : NodeId) :
    Justified known before (store.put id value) := by
  intro other function hfind hconstructor
  by_cases hother : other = id
  · subst hother
    rw [Table.find_put_self] at hfind
    cases hfind
    exact hvalue hconstructor
  · rw [Table.find_put_of_ne hother] at hfind
    exact h other function hfind hconstructor

/-- A store stays justified when a value is put, if it is known, that is no constructor or was made
before. -/
theorem Justified.putKnown (h : Justified known before store) {value : Option Value}
    (hvalue : ∀ found, value = some found → found.isConstructor = true →
      Constructed known before found) (id : NodeId) :
    Justified known before (store.putKnown id value) := by
  cases value with
  | none => exact h
  | some value => exact h.put (hvalue value rfl) id

/-- What is copied from the store is justified there. -/
theorem Justified.putKnown_find (h : Justified known before store) (source id : NodeId) :
    Justified known before (store.putKnown id (store.find source)) :=
  h.putKnown (fun found hfound => h source found hfound) id

/-- What is no constructor needs no declaration. -/
theorem Justified.putKnown_of_plain (h : Justified known before store) {value : Option Value}
    (hplain : ∀ found, value = some found → found.isConstructor = false) (id : NodeId) :
    Justified known before (store.putKnown id value) :=
  h.putKnown (fun found hfound hconstructor => by
    rw [hplain found hfound] at hconstructor
    cases hconstructor) id

/-! ## What one effect keeps -/

/-- A literal is no constructor. -/
theorem isConstructor_literalValue {literal : Literal} {value : Value}
    (h : literalValue known id store literal = some value) : value.isConstructor = false := by
  cases literal with
  | array inner items =>
    obtain ⟨values, -, rfl⟩ := Option.map_eq_some_iff.1 h
    rfl
  | none | boolean | number | string | color =>
    cases h
    rfl

/-- A call gives no constructor: a constructor gives a record. -/
theorem isConstructor_callValue {callee : Expression} {arguments : List Argument} {value : Value}
    (h : callValue known id callee arguments store = some value) :
    value.isConstructor = false := by
  obtain ⟨function, -, h⟩ := Option.bind_eq_some_iff.1 h
  obtain ⟨given, -, h⟩ := Option.bind_eq_some_iff.1 h
  obtain ⟨callable, -, h⟩ := Option.bind_eq_some_iff.1 h
  cases callable with
  | builtin native => exact Builtin.isConstructor_call h
  | constructor members | caseOf case =>
    cases h
    rfl

/-- The value of an operator is no constructor, and an assignment moves one that there is. -/
theorem Justified.applyOperator (h : Justified known before store) (id : NodeId)
    (operator : Operator) (left right : Expression) :
    Justified known before (applyOperator known id operator left right store) := by
  rw [applyOperator_eq]
  split
  · cases hright : store.find right.id with
    | none => exact h
    | some value =>
      simp only [assign]
      split
      · exact h.put (h right.id value hright) _
      · exact h
  · refine h.putKnown_of_plain (fun found hfound => ?_) id
    obtain ⟨first, -, hfound⟩ := Option.bind_eq_some_iff.1 hfound
    obtain ⟨second, -, hfound⟩ := Option.bind_eq_some_iff.1 hfound
    obtain ⟨result, -, rfl⟩ := Option.map_eq_some_iff.1 hfound
    rfl

/-- Leaving an expression puts a literal, the value of what is referred to, or the result of a call
or an operator: none of them is a constructor that was not made before. -/
theorem Justified.leaveExpression (h : Justified known before store) (expression : Expression) :
    Justified known before (leaveExpression known expression store) := by
  cases expression with
  | literal id literal =>
    have hplain : ∀ found, literalValue known id store literal = some found →
        found.isConstructor = false := fun _ => isConstructor_literalValue
    exact (h.putKnown_of_plain hplain literal.id).putKnown_of_plain hplain id
  | identifier id used | member id base name =>
    refine h.putKnown (fun found hfound => ?_) id
    obtain ⟨pattern, -, hfind⟩ := Option.bind_eq_some_iff.1 hfound
    exact h pattern found hfind
  | call id callee arguments =>
    exact h.putKnown_of_plain (fun _ => isConstructor_callValue) id
  | binary id left right operator => exact h.applyOperator id operator left right
  | placeholder id => exact h

/-- What one effect keeps: only a declared record puts a new constructor into the store. -/
theorem Justified.perform (h : Justified known before store) (effect : Effect) :
    Justified known (before ++ [effect]) (perform known store effect) := by
  have hbefore := h.append [effect]
  cases effect with
  | leave expression => exact hbefore.leaveExpression expression
  | bind name initializer => exact hbefore.putKnown_find initializer.id name.id
  | native name =>
    refine hbefore.putKnown_of_plain (fun found hfound => ?_) name.id
    obtain ⟨builtin, -, rfl⟩ := Option.map_eq_some_iff.1 hfound
    rfl
  | case enumeration case =>
    cases case with
    | placeholder id => exact hbefore
    | case id name associatedTypes =>
      refine hbefore.put (fun hconstructor => ?_) name.id
      cases associatedTypes <;> cases hconstructor
  | construct name declarations entered =>
    exact hbefore.put (fun _ => ⟨name, declarations, entered,
      List.mem_append_right _ List.mem_cons_self, rfl⟩) name.id

/-- What a whole run keeps. -/
theorem justified_performAll (effects : List Effect) :
    Justified known effects (performAll known effects []) := by
  induction effects using List.reverseRecOn with
  | nil => exact fun _ _ h => nomatch h
  | append_singleton effects effect ih =>
    rw [performAll_append]
    exact ih.perform effect

/-! ## Where records are declared -/

/-- Among some effects, each record is constructed after the effects of its defaults, from the store
that there was before these. -/
def ConstructsInPlace (known : Knowledge) (store : Store) (effects : List Effect) : Prop :=
  ∀ first name declarations entered rest,
    effects = first ++ .construct name declarations entered :: rest →
      ∃ earlier, first = earlier ++ Declaration.defaultEffects declarations ∧
        entered = performAll known earlier store

/-- Whether an effect is the second visit of an expression. -/
def Effect.isLeave : Effect → Bool
  | .leave _ => true
  | _ => false

/-- Effects that construct nothing construct nothing in a wrong place. -/
theorem ConstructsInPlace.of_not_mem {effects : List Effect}
    (h : ∀ name declarations entered, .construct name declarations entered ∉ effects) :
    ConstructsInPlace known store effects := by
  rintro first name declarations entered rest rfl
  exact absurd (List.mem_append_right first List.mem_cons_self) (h name declarations entered)

/-- Leaving expressions constructs no record. -/
theorem ConstructsInPlace.of_all {effects : List Effect}
    (h : effects.all Effect.isLeave = true) : ConstructsInPlace known store effects :=
  .of_not_mem fun _ _ _ hmem => nomatch List.all_eq_true.1 h _ hmem

/-- What two runs of effects construct in place, they construct in place one after the other. -/
theorem ConstructsInPlace.append {first second : List Effect}
    (h : ConstructsInPlace known store first)
    (h' : ConstructsInPlace known (performAll known first store) second) :
    ConstructsInPlace known store (first ++ second) := by
  intro before name declarations entered rest heq
  rcases List.append_eq_append_iff.1 heq with ⟨between, rfl, hsecond⟩ | ⟨between, rfl, hrest⟩
  · obtain ⟨earlier, rfl, rfl⟩ := h' between name declarations entered rest hsecond
    exact ⟨first ++ earlier, (List.append_assoc _ _ _).symm, (performAll_append _ _ _).symm⟩
  · cases between with
    | nil =>
      obtain ⟨earlier, hearlier, rfl⟩ := h' [] name declarations entered rest hrest.symm
      obtain ⟨rfl, hdefaults⟩ := List.append_eq_nil_iff.1 hearlier.symm
      rw [List.append_nil, hdefaults]
      exact ⟨before, (List.append_nil _).symm, rfl⟩
    | cons effect between =>
      obtain ⟨rfl, -⟩ := List.cons.inj hrest
      exact h before name declarations entered between rfl

/-- A record is constructed after its defaults. -/
theorem ConstructsInPlace.record {declarations : List Declaration} (name : Pattern)
    (hdefaults : (Declaration.defaultEffects declarations).all Effect.isLeave = true) :
    ConstructsInPlace known store
      (Declaration.defaultEffects declarations ++ [.construct name declarations store]) := by
  intro first name' declarations' entered rest hsplit
  rcases List.append_eq_append_iff.1 hsplit with ⟨between, rfl, hlast⟩ | ⟨between, hfirst, hrest⟩
  · cases between with
    | nil =>
      cases hlast
      exact ⟨[], List.append_nil _, rfl⟩
    | cons effect between =>
      have hnil := (List.cons.inj hlast).2
      exact absurd hnil.symm (List.append_ne_nil_of_right_ne_nil _ (List.cons_ne_nil _ _))
  · cases between with
    | nil =>
      cases hrest
      exact ⟨[], by rw [List.nil_append, hfirst, List.append_nil], rfl⟩
    | cons effect between =>
      obtain ⟨rfl, -⟩ := List.cons.inj hrest
      have hleave := List.all_eq_true.1 hdefaults _ (hfirst ▸ List.mem_append_right first
        List.mem_cons_self)
      cases hleave

end Evaluator

open Evaluator (ConstructsInPlace)

mutual

/-- The effects of an expression are those of leaving it and what is in it. -/
theorem Expression.all_isLeave : (expression : Expression) →
    expression.effects.all Effect.isLeave = true
  | .binary _ left right _ => by
    rw [Expression.effects, List.all_append, List.all_append, left.all_isLeave, right.all_isLeave]
    rfl
  | .identifier _ _ | .placeholder _ => rfl
  | .call _ callee arguments => by
    rw [Expression.effects, List.all_append, List.all_append, callee.all_isLeave,
      Argument.all_isLeaveAll arguments]
    rfl
  | .literal _ literal => by
    rw [Expression.effects, List.all_append, literal.all_isLeave]
    rfl
  | .member _ base _ => by
    rw [Expression.effects, List.all_append, base.all_isLeave]
    rfl

theorem Argument.all_isLeave : (argument : Argument) → argument.effects.all Effect.isLeave = true
  | .argument _ _ expression => expression.all_isLeave
  | .placeholder _ => rfl

theorem Literal.all_isLeave : (literal : Literal) → literal.effects.all Effect.isLeave = true
  | .array _ items => Expression.all_isLeaveAll items
  | .none _ | .boolean _ _ | .number _ _ | .string _ _ | .color _ _ => rfl

theorem Expression.all_isLeaveAll : (expressions : List Expression) →
    (Expression.effectsAll expressions).all Effect.isLeave = true
  | [] => rfl
  | expression :: rest => by
    rw [Expression.effectsAll, List.all_append, expression.all_isLeave,
      Expression.all_isLeaveAll rest]
    rfl

theorem Argument.all_isLeaveAll : (arguments : List Argument) →
    (Argument.effectsAll arguments).all Effect.isLeave = true
  | [] => rfl
  | argument :: rest => by
    rw [Argument.effectsAll, List.all_append, argument.all_isLeave, Argument.all_isLeaveAll rest]
    rfl

end

/-- The defaults of members are expressions, so their effects are of this sort too. -/
theorem Declaration.all_isLeave_defaultEffects (declarations : List Declaration) :
    (Declaration.defaultEffects declarations).all Effect.isLeave = true := by
  rw [defaultEffects, List.all_flatMap, List.all_eq_true]
  intro declaration _
  cases declaration with
  | value id name form initializer =>
    cases initializer with
    | none => rfl
    | some initializer => exact initializer.all_isLeave
  | function | enumeration | record | space | library | placeholder => rfl

variable {known : Knowledge}

mutual

/-- A statement constructs records at their declarations only, from the members that are entered
there. -/
theorem Statement.constructsInPlace : (statement : Statement) → (store : Store) →
    ConstructsInPlace known store (statement.effects known store)
  | .declaration _ content, store => content.constructsInPlace store
  | .branch _ condition block, store => by
    rw [Statement.effects]
    refine .append (.of_all condition.all_isLeave) ?_
    rw [condition.performAll_effects]
    split
    · exact Statement.constructsInPlaceAll block _
    · exact .of_all rfl
  | .loop _ _ _ _, _ | .placeholder _, _ => .of_all rfl
  | .expression _ expression, _ | .result _ expression, _ => .of_all expression.all_isLeave

theorem Declaration.constructsInPlace : (declaration : Declaration) → (store : Store) →
    ConstructsInPlace known store (declaration.effects known store)
  | .value _ name _ (some initializer), store =>
    .append (.of_all initializer.all_isLeave) (.of_not_mem (by simp))
  | .value _ _ _ none, _ | .library _ _, _ | .placeholder _, _ => .of_all rfl
  | .function _ _ _ _ _ _, _ => .of_not_mem (by simp [Declaration.effects])
  | .record _ name _ declarations, store => by
    rw [Declaration.effects]
    split
    · exact .of_all rfl
    · exact .record name (Declaration.all_isLeave_defaultEffects declarations)
  | .enumeration _ _ _ _, _ => .of_not_mem (by simp [Declaration.effects])
  | .space _ _ declarations, store => Declaration.constructsInPlaceAll declarations store

/-- A block does so as well: the effects of a statement are performed before those of the next one
are known. -/
theorem Statement.constructsInPlaceAll : (block : List Statement) → (store : Store) →
    ConstructsInPlace known store (Statement.effectsAll known block store)
  | [], _ => .of_all rfl
  | statement :: rest, store => by
    rw [Statement.effectsAll]
    refine (statement.constructsInPlace store).append ?_
    rw [statement.performAll_effects]
    exact Statement.constructsInPlaceAll rest _

theorem Declaration.constructsInPlaceAll : (declarations : List Declaration) → (store : Store) →
    ConstructsInPlace known store (Declaration.effectsAll known declarations store)
  | [], _ => .of_all rfl
  | declaration :: rest, store => by
    rw [Declaration.effectsAll]
    refine (declaration.constructsInPlace store).append ?_
    rw [declaration.performAll_effects]
    exact Declaration.constructsInPlaceAll rest _

end

/-! ## Calls -/

namespace Evaluator

/-- The default of each member when a record is declared, where the declaration is entered with a
store. -/
def defaultsAt (known : Knowledge) (declarations : List Declaration) (entered : Store) :
    String → Option Value :=
  lastDefault (Declaration.defaults (Expression.evaluate known) declarations entered)

/-- A call of a function after some effects is a call of the constructor of a record that was
declared after the earlier ones of these. The constructor is as it was made then, and each member
that the call gives to a record has the last argument directed to it, or else its default from
then. -/
structure MakesRecord (known : Knowledge) (before : List Effect) (id : NodeId)
    (callee : Expression) (arguments : List Argument) (function : Value) (name : Pattern)
    (declarations : List Declaration) (earlier later : List Effect) : Prop where
  declared : before = earlier ++ (Declaration.defaultEffects declarations ++
    .construct name declarations (performAll known earlier []) :: later)
  constructor : function = constructorValue known name
    (Slot.table (memberNames declarations)
      (defaultsAt known declarations (performAll known earlier [])))
  made : ∀ given, givenArguments (performAll known before []) arguments = some given →
    ∃ type, (performAll known (before ++ [.leave (.call id callee arguments)]) []).find id =
      some (.mk type (.record (Slot.table (memberNames declarations) fun name =>
        (lastDirected (memberNames declarations) 0 given name).or
          (defaultsAt known declarations (performAll known earlier []) name))))
  missed : givenArguments (performAll known before []) arguments = none →
    performAll known (before ++ [.leave (.call id callee arguments)]) [] =
      performAll known before []
  others : ∀ other, other ≠ id →
    (performAll known (before ++ [.leave (.call id callee arguments)]) []).find other =
      (performAll known before []).find other

/-- A constructor fills its members with the arguments, when all of them have values. -/
theorem callValue_of_constructor (known : Knowledge) (id : NodeId) (arguments : List Argument)
    {store : Store} {callee : Expression} {function : Value} {members : List Slot}
    (hfunction : store.find callee.id = some function)
    (hconstructor : function.asCallable = some (.constructor members)) :
    ∃ type, callValue known id callee arguments store =
      (givenArguments store arguments).map fun given =>
        .mk type (.record (fillMembers 0 given members)) := by
  refine ⟨((known.nodeType id).or function.type.resultType).getD .unit, ?_⟩
  rw [callValue, hfunction]
  cases givenArguments store arguments with
  | none => rfl
  | some given =>
    change function.call? (known.nodeType id) given = _
    rw [Value.call?, hconstructor]
    rfl

end Evaluator

open Evaluator (MakesRecord callValue callValue_of_constructor)

/-- Records have the shape that is declared: whatever is called as a constructor is the constructor
of a record that was declared before, with the defaults from then, whatever has been called since;
and the record that the call makes has exactly the declared members. The evaluation goes on from
there. -/
theorem Program.calls_construct {program : Program} {before after : List Effect} {id : NodeId}
    {callee : Expression} {arguments : List Argument}
    (hcall : program.effects known = before ++ .leave (.call id callee arguments) :: after)
    {function : Value} (hfunction : (performAll known before []).find callee.id = some function)
    {members : List Slot} (hconstructor : function.asCallable = some (.constructor members)) :
    (∃ name declarations earlier later,
      MakesRecord known before id callee arguments function name declarations earlier later) ∧
      program.evaluate known = performAll known after
        (performAll known (before ++ [.leave (.call id callee arguments)]) []) := by
  -- a constructor in the store was put there by a record that was entered before
  obtain ⟨name, declarations, entered, hmem, rfl⟩ := Evaluator.justified_performAll before
    callee.id function hfunction (Value.isConstructor_of_asCallable hconstructor)
  obtain ⟨first, later, hfirst⟩ := List.append_of_mem hmem
  -- records are walked in place, so that the effects right before it are those of its members
  have hinPlace : ConstructsInPlace known [] (program.effects known) :=
    Statement.constructsInPlaceAll program.block []
  obtain ⟨earlier, rfl, rfl⟩ := hinPlace first name declarations entered
    (later ++ .leave (.call id callee arguments) :: after)
    (by rw [hcall, hfirst, List.append_assoc, List.cons_append])
  have hafter : performAll known (before ++ [.leave (.call id callee arguments)]) [] =
      (performAll known before []).putKnown id
        (callValue known id callee arguments (performAll known before [])) := by
    rw [performAll_append]
    rfl
  obtain ⟨type, hvalue⟩ := callValue_of_constructor known id arguments hfunction hconstructor
  have hevaluate : program.evaluate known = performAll known after
      (performAll known (before ++ [.leave (.call id callee arguments)]) []) := by
    rw [program.evaluate_eq_performAll, hcall, performAll_append, performAll_append]
    rfl
  -- what remains is what `MakesRecord` says of the call, part by part
  refine ⟨⟨name, declarations, earlier, later, ?_, ?_, ?_, ?_, ?_⟩, hevaluate⟩
  · rw [hfirst, List.append_assoc]
  · rw [Evaluator.declaredMembers_eq]
    rfl
  · -- the members are filled from what was given, in the declared order
    intro given hgiven
    cases hconstructor
    have hfilled := Evaluator.fillMembers_declaredMembers (Expression.evaluate known) declarations
      (performAll known earlier []) given
    refine ⟨type, ?_⟩
    rw [hafter, hvalue, hgiven, Option.map_some, hfilled]
    exact Table.find_put_self _ _ _
  · intro hnone
    rw [hafter, hvalue, hnone]
    rfl
  · intro other hother
    rw [hafter]
    exact Store.find_putKnown_of_ne hother _ _

/-- `struct R { a = "s"; b; a = "t" }`, then `R(b: "u", "v", c: "w")` and `R()`. -/
def constructingProgram : Program where
  id := .ofNat 0
  block :=
    let text (id : Nat) (value : String) : Expression :=
      .literal (.ofNat id) (.string (.ofNat (id + 1)) value)
    let constructor (id : Nat) : Expression :=
      .identifier (.ofNat id) ⟨.ofNat (id + 1), "R", false⟩
    [.declaration (.ofNat 1) (.record (.ofNat 2) ⟨.ofNat 3, "R"⟩ []
      [.value (.ofNat 4) ⟨.ofNat 5, "a"⟩ none (some (text 6 "s")),
        .value (.ofNat 8) ⟨.ofNat 9, "b"⟩ none none,
        .value (.ofNat 10) ⟨.ofNat 11, "a"⟩ none (some (text 12 "t"))]),
    .expression (.ofNat 14) (.call (.ofNat 15) (constructor 16)
      [.argument (.ofNat 18) (some "b") (text 19 "u"), .argument (.ofNat 21) none (text 22 "v"),
        .argument (.ofNat 24) (some "c") (text 25 "w")]),
    .expression (.ofNat 27) (.call (.ofNat 28) (constructor 29) [])]

/-- What evaluation knows of the names only. -/
def constructingKnowledge : Knowledge where
  scope := constructingProgram.resolve none
  inference := {}
  substitution := .empty

/-- The member `a` is one, with its last default. The first call fills `b` by its label and then
again by its position, and has an argument for no member; the second call makes what was
declared. -/
theorem calls_construct_twice :
    let before := (constructingProgram.effects constructingKnowledge).take 9
    let callee : Expression := .identifier (.ofNat 29) ⟨.ofNat 30, "R", false⟩
    let members : List Slot := [.filled "a" (.string "t"), .vacant "b"]
    (∃ name declarations earlier later,
      MakesRecord constructingKnowledge before (.ofNat 28) callee []
        (.mk (.fn [] (.named "R")) (.function (.constructor members))) name declarations earlier
        later) ∧
      constructingProgram.evaluate constructingKnowledge = performAll constructingKnowledge []
        (performAll constructingKnowledge (before ++ [.leave (.call (.ofNat 28) callee [])]) []) ∧
      (constructingProgram.evaluate constructingKnowledge).find (.ofNat 15) = some (.mk (.named "R")
        (.record [.filled "a" (.string "t"), .filled "b" (.string "v")])) ∧
      (constructingProgram.evaluate constructingKnowledge).find (.ofNat 28) =
        some (.mk (.named "R") (.record members)) := by
  intro before callee members
  have hcall : constructingProgram.effects constructingKnowledge =
      before ++ .leave (.call (.ofNat 28) callee []) :: [] := rfl
  have hfunction : (performAll constructingKnowledge before []).find callee.id =
      some (.mk (.fn [] (.named "R")) (.function (.constructor members))) := rfl
  obtain ⟨hmakes, hevaluate⟩ := Program.calls_construct hcall hfunction rfl
  refine ⟨hmakes, hevaluate, ?_, ?_⟩
  · rw [hevaluate]
    rfl
  · rw [hevaluate]
    rfl

end TreeLang
