import TreeLang.Proofs.Evaluation.Erasure
import TreeLang.Proofs.Evaluation.Writing

/-!
# What types can change in an evaluation

Two evaluations that know different types go the same way until they compare contents that differ in
the types of nested values only. Without such a comparison they give the same values, but for types.
-/

namespace TreeLang

/-- Whether two contents are different, but only in the types of nested values. -/
def Memory.differInTypes (a b : Memory) : Bool := a.erased.same b.erased && !a.same b

/-- None of some comparisons is one of contents that differ in types only. -/
def TypeBlind (comparisons : List (Memory × Memory)) : Prop :=
  ∀ compared ∈ comparisons, compared.1.differInTypes compared.2 = false

instance (comparisons : List (Memory × Memory)) : Decidable (TypeBlind comparisons) :=
  inferInstanceAs (Decidable (∀ compared ∈ comparisons, _ = _))

/-- Comparisons do not depend on types when neither the first nor the second of two runs of them
do. -/
theorem typeBlind_append {first second : List (Memory × Memory)} :
    TypeBlind (first ++ second) ↔ TypeBlind first ∧ TypeBlind second :=
  List.forall_mem_append

/-! ## The comparisons of an evaluation -/

section Comparisons

variable (known : Knowledge)

/-- What an operator tests for equality when its operands are done. -/
def Operator.compared (operator : Operator) (left right : Option Value) : List (Memory × Memory) :=
  match operator, left, right with
  | .isEqualTo, some first, some second | .isNotEqualTo, some first, some second =>
    [(first.memory, second.memory)]
  | _, _, _ => []

mutual

/-- What an evaluation of an expression tests for equality, in order. -/
def Expression.comparisons : Expression → Store → List (Memory × Memory)
  | .binary _ left right operator, store =>
    let between := left.evaluate known store
    let after := right.evaluate known between
    left.comparisons store ++ (right.comparisons between ++
      operator.compared (after.find left.id) (after.find right.id))
  | .identifier _ _, _ => []
  | .call _ callee arguments, store =>
    callee.comparisons store ++ Argument.comparisonsAll arguments (callee.evaluate known store)
  | .literal _ literal, store => literal.comparisons store
  | .member _ base _, store => base.comparisons store
  | .placeholder _, _ => []

/-- What an evaluation of an argument tests for equality. -/
def Argument.comparisons : Argument → Store → List (Memory × Memory)
  | .argument _ _ expression, store => expression.comparisons store
  | .placeholder _, _ => []

/-- What an evaluation of the items of an array tests for equality. -/
def Literal.comparisons : Literal → Store → List (Memory × Memory)
  | .array _ items, store => Expression.comparisonsAll items store
  | .none _, _ | .boolean _ _, _ | .number _ _, _ | .string _ _, _ | .color _ _, _ => []

/-- What an evaluation of a list of expressions tests for equality. -/
def Expression.comparisonsAll : List Expression → Store → List (Memory × Memory)
  | [], _ => []
  | expression :: rest, store =>
    expression.comparisons store ++ Expression.comparisonsAll rest (expression.evaluate known store)

/-- What an evaluation of a list of arguments tests for equality. -/
def Argument.comparisonsAll : List Argument → Store → List (Memory × Memory)
  | [], _ => []
  | argument :: rest, store =>
    argument.comparisons store ++ Argument.comparisonsAll rest (argument.evaluate known store)

end

/-- The store after the default of a member. -/
def Declaration.evaluateDefault : Declaration → Store → Store
  | .value _ _ _ (some initializer), store => initializer.evaluate known store
  | _, store => store

/-- What the evaluation of the default of a member tests for equality. -/
def Declaration.defaultComparisons : Declaration → Store → List (Memory × Memory)
  | .value _ _ _ (some initializer), store => initializer.comparisons known store
  | _, _ => []

/-- What the evaluation of the defaults of a record tests for equality. -/
def Declaration.defaultComparisonsAll : List Declaration → Store → List (Memory × Memory)
  | [], _ => []
  | declaration :: rest, store =>
    declaration.defaultComparisons known store ++
      Declaration.defaultComparisonsAll rest (declaration.evaluateDefault known store)

mutual

/-- What a run of a statement tests for equality. -/
def Statement.comparisons : Statement → Store → List (Memory × Memory)
  | .declaration _ content, store => content.comparisons store
  | .branch _ condition block, store =>
    let after := condition.evaluate known store
    condition.comparisons known store ++
      if (after.find condition.id).bind Value.asBool = some true then
        Statement.comparisonsAll block after
      else []
  | .loop _ _ _ _, _ => []
  | .expression _ expression, store | .result _ expression, store =>
    expression.comparisons known store
  | .placeholder _, _ => []

/-- What a run of a declaration tests for equality. -/
def Declaration.comparisons : Declaration → Store → List (Memory × Memory)
  | .value _ _ _ (some initializer), store => initializer.comparisons known store
  | .record _ name _ declarations, store =>
    if name.name ∈ primitiveTypes then []
    else Declaration.defaultComparisonsAll known declarations store
  | .space _ _ declarations, store => Declaration.comparisonsAll declarations store
  | .value _ _ _ none, _ | .function _ _ _ _ _ _, _ | .enumeration _ _ _ _, _ | .library _ _, _
  | .placeholder _, _ => []

/-- What a run of a block tests for equality. -/
def Statement.comparisonsAll : List Statement → Store → List (Memory × Memory)
  | [], _ => []
  | statement :: rest, store =>
    statement.comparisons store ++ Statement.comparisonsAll rest (statement.evaluate known store)

/-- What a run of declarations tests for equality. -/
def Declaration.comparisonsAll : List Declaration → Store → List (Memory × Memory)
  | [], _ => []
  | declaration :: rest, store =>
    declaration.comparisons store ++
      Declaration.comparisonsAll rest (declaration.evaluate known store)

end

/-- What the evaluation of a program tests for equality, in order. -/
def Program.comparisons (program : Program) : List (Memory × Memory) :=
  Statement.comparisonsAll known program.block []

end Comparisons

/-! ## Stores that are alike -/

/-- The stores have values at the same ids, and these differ in types only. -/
def Store.Alike (store store' : Store) : Prop :=
  ∀ id, (store.find id).map Value.erased = (store'.find id).map Value.erased

namespace Store.Alike

variable {store store' : Store}

/-- A node has no value in either store, or values that differ in types only. -/
theorem eq_none_or (h : Alike store store') (id : NodeId) :
    (store.find id = none ∧ store'.find id = none) ∨
      ∃ value value', store.find id = some value ∧ store'.find id = some value' ∧
        value.erased = value'.erased :=
  Option.eq_none_or_of_map_eq (h id)

/-- What is put for an identifier, if it is known, keeps two stores alike when it is the same
without types. -/
theorem putKnown (h : Alike store store') (id : NodeId) {value value' : Option Value}
    (hvalue : value.map Value.erased = value'.map Value.erased) :
    Alike (store.putKnown id value) (store'.putKnown id value') := by
  intro other
  by_cases hother : other = id
  · rw [hother, find_putKnown_self, find_putKnown_self, Option.map_or, Option.map_or, hvalue, h id]
  · rw [find_putKnown_of_ne hother, find_putKnown_of_ne hother, h other]

/-- Values that are the same without types keep two stores alike when they are put for one
identifier. -/
theorem put (h : Alike store store') (id : NodeId) {value value' : Value}
    (hvalue : value.erased = value'.erased) :
    Alike (store.put id value) (store'.put id value') := by
  have hsome : (some value).map Value.erased = (some value').map Value.erased :=
    congrArg some hvalue
  exact h.putKnown id hsome

/-- Conditions are read alike from stores that are alike. -/
theorem asBool_eq (h : Alike store store') (id : NodeId) :
    (store.find id).bind Value.asBool = (store'.find id).bind Value.asBool := by
  obtain ⟨hnone, hnone'⟩ | ⟨value, value', hvalue, hvalue', herased⟩ := h.eq_none_or id
  · rw [hnone, hnone']
  · rw [hvalue, hvalue', Option.bind_some, Option.bind_some, ← value.asBool_erased, herased,
      value'.asBool_erased]

/-- The values of the items of an array. -/
theorem mapM_find (h : Alike store store') (items : List Expression) :
    (items.mapM fun item => store.find item.id).map (List.map Value.erased) =
      (items.mapM fun item => store'.find item.id).map (List.map Value.erased) := by
  induction items with
  | nil => rfl
  | cons item rest ih =>
    rw [List.mapM_cons, List.mapM_cons]
    obtain ⟨hnone, hnone'⟩ | ⟨value, value', hvalue, hvalue', herased⟩ := h.eq_none_or item.id
    · rw [hnone, hnone']
      rfl
    · rw [hvalue, hvalue']
      obtain ⟨hnone, hnone'⟩ | ⟨values, values', hvalues, hvalues', hmap⟩ :=
        Option.eq_none_or_of_map_eq ih
      · rw [hnone, hnone']
        rfl
      · rw [hvalues, hvalues']
        change some (value.erased :: _) = some (value'.erased :: _)
        rw [herased, hmap]

/-- The arguments of a call. -/
theorem givenArguments (h : Alike store store') (arguments : List Argument) :
    (givenArguments store arguments).map (List.map erasedArgument) =
      (TreeLang.givenArguments store' arguments).map (List.map erasedArgument) := by
  induction arguments with
  | nil => rfl
  | cons argument rest ih =>
    cases argument with
    | placeholder id => exact ih
    | argument id label expression =>
      rw [TreeLang.givenArguments, TreeLang.givenArguments]
      obtain ⟨hnone, hnone'⟩ | ⟨value, value', hvalue, hvalue', herased⟩ :=
        h.eq_none_or expression.id
      · rw [hnone, hnone']
        rfl
      · rw [hvalue, hvalue']
        obtain ⟨hnone, hnone'⟩ | ⟨given, given', hgiven, hgiven', hmap⟩ :=
          Option.eq_none_or_of_map_eq ih
        · rw [hnone, hnone']
          rfl
        · rw [hgiven, hgiven']
          change some ((label, value.erased) :: _) = some ((label, value'.erased) :: _)
          rw [herased, hmap]

end Store.Alike

/-! ## Operators -/

namespace Memory

variable {a a' b b' : Memory}

/-- Where two values do not differ in types alone, equality does not see their types. -/
theorem same_eq (h : a.differInTypes b = false) : a.same b = a.erased.same b.erased := by
  cases hsame : a.same b with
  | true => exact (a.same_erased b hsame).symm
  | false => simpa [differInTypes, hsame] using h.symm

/-- Equality gives the same answer on contents that differ in types only. -/
theorem same_congr (ha : a.erased = a'.erased) (hb : b.erased = b'.erased)
    (h : a.differInTypes b = false) (h' : a'.differInTypes b' = false) :
    a.same b = a'.same b' := by
  rw [same_eq h, same_eq h', ha, hb]

/-- The order of two values depends on what they are without types. -/
theorem compare?_congr (ha : a.erased = a'.erased) (hb : b.erased = b'.erased) :
    a.compare? b = a'.compare? b' := by
  rw [← compare?_erased a b, ha, hb, compare?_erased]

end Memory

/-- An operator gives the same answer on operands that differ in types only. -/
theorem Operator.compare?_congr (operator : Operator) {first first' second second' : Value}
    (hfirst : first.erased = first'.erased) (hsecond : second.erased = second'.erased)
    (hblind : TypeBlind (operator.compared (some first) (some second)))
    (hblind' : TypeBlind (operator.compared (some first') (some second'))) :
    operator.compare? first.memory second.memory =
      operator.compare? first'.memory second'.memory := by
  have hmemory : first.memory.erased = first'.memory.erased := by
    rw [← Value.memory_erased, hfirst, Value.memory_erased]
  have hmemory' : second.memory.erased = second'.memory.erased := by
    rw [← Value.memory_erased, hsecond, Value.memory_erased]
  cases operator with
  | isEqualTo | isNotEqualTo =>
    have hsame := Memory.same_congr hmemory hmemory' (hblind _ List.mem_cons_self)
      (hblind' _ List.mem_cons_self)
    rw [compare?, compare?, hsame]
  | isLessThan | isGreaterThan | isLessThanOrEqualTo | isGreaterThanOrEqualTo =>
    rw [compare?, compare?, Memory.compare?_congr hmemory hmemory']
  | setEqualTo => rfl

variable {known known' : Knowledge} {store store' : Store}

namespace Evaluator

/-- Assigning values that are the same without types to one target keeps stores alike. -/
theorem alike_assign (hscope : known.scope = known'.scope) (h : store.Alike store')
    (target : NodeId) {value value' : Value} (hvalue : value.erased = value'.erased) :
    (assign known target value store).Alike (assign known' target value' store') := by
  rw [assign, assign, hscope]
  split
  · exact h.put _ hvalue
  · exact h

/-- A name that is used has the same value without types in stores that are alike. -/
theorem map_erased_referred (hscope : known.scope = known'.scope) (h : store.Alike store')
    (id : NodeId) :
    (referred known id store).map Value.erased = (referred known' id store').map Value.erased := by
  rw [referred, referred, hscope]
  cases known'.scope.patternFor id with
  | none => rfl
  | some pattern => exact h pattern

/-- An operator gives values that are alike, as long as it compares nothing that differs in types
alone. -/
theorem alike_applyOperator (hscope : known.scope = known'.scope) (h : store.Alike store')
    (id : NodeId) (operator : Operator) (left right : Expression)
    (hblind : TypeBlind (operator.compared (store.find left.id) (store.find right.id)))
    (hblind' : TypeBlind (operator.compared (store'.find left.id) (store'.find right.id))) :
    (applyOperator known id operator left right store).Alike
      (applyOperator known' id operator left right store') := by
  rw [applyOperator, applyOperator]
  obtain ⟨hnone, hnone'⟩ | ⟨second, second', hsecond, hsecond', herased⟩ := h.eq_none_or right.id
  · rw [hnone, hnone']
    exact h
  · rw [hsecond] at hblind
    rw [hsecond'] at hblind'
    rw [hsecond, hsecond']
    by_cases hassigns : operator = .setEqualTo
    · simp only [if_pos hassigns]
      exact alike_assign hscope h left.id herased
    · simp only [if_neg hassigns]
      obtain ⟨hnone, hnone'⟩ | ⟨first, first', hfirst, hfirst', herased'⟩ := h.eq_none_or left.id
      · rw [hnone, hnone']
        exact h
      · rw [hfirst] at hblind
        rw [hfirst'] at hblind'
        rw [hfirst, hfirst']
        apply h.putKnown
        rw [operator.compare?_congr herased' herased hblind hblind']

/-- Calls give values that are the same without types. -/
theorem map_erased_callValue (h : store.Alike store') (id : NodeId) (callee : Expression)
    (arguments : List Argument) :
    (callValue known id callee arguments store).map Value.erased =
      (callValue known' id callee arguments store').map Value.erased := by
  rw [callValue, callValue]
  obtain ⟨hnone, hnone'⟩ | ⟨function, function', hfunction, hfunction', herased⟩ :=
    h.eq_none_or callee.id
  · rw [hnone, hnone']
    rfl
  · rw [hfunction, hfunction']
    obtain ⟨hnone, hnone'⟩ | ⟨given, given', hgiven, hgiven', hmap⟩ :=
      Option.eq_none_or_of_map_eq (h.givenArguments arguments)
    · rw [hnone, hnone']
      rfl
    · rw [hgiven, hgiven']
      exact Value.map_erased_call? hmap herased _ _

/-- Literals give values that are the same without types. -/
theorem map_erased_literalValue (h : store.Alike store') (id : NodeId) (literal : Literal) :
    (literalValue known id store literal).map Value.erased =
      (literalValue known' id store' literal).map Value.erased := by
  cases literal with
  | array own items =>
    rw [literalValue, literalValue]
    obtain ⟨hnone, hnone'⟩ | ⟨values, values', hvalues, hvalues', hmap⟩ :=
      Option.eq_none_or_of_map_eq (h.mapM_find items)
    · rw [hnone, hnone']
      rfl
    · rw [hvalues, hvalues']
      simp only [Option.map_some, arrayValue, Value.erased, Memory.erased, Value.erasedAll_eq_map,
        hmap]
  | none | boolean | number | string | color => rfl

/-- The value of a native function is found in the scope, so it does not depend on types. -/
theorem map_erased_functionValue (hscope : known.scope = known'.scope) (name : Pattern) :
    (functionValue known name).map Value.erased = (functionValue known' name).map Value.erased := by
  rw [functionValue, functionValue, Knowledge.builtinFor, Knowledge.builtinFor, hscope]
  cases (known'.scope.qualifiedName name.id).bind Builtin.ofPath? with
  | none => rfl
  | some builtin => rfl

/-- A default has the same effect whatever the members before it are. -/
theorem enterMember_snd (known : Knowledge) (declaration : Declaration)
    (state : List Slot × Store) :
    (enterMember (Expression.evaluate known) state declaration).2 =
      declaration.evaluateDefault known state.2 := by
  cases declaration with
  | value id name form initializer => cases initializer <;> rfl
  | function | enumeration | record | space | library | placeholder => rfl

/-- A case of an enumeration gets its value in both stores. -/
theorem alike_enterCase (h : store.Alike store') (enumeration : Pattern) (case : EnumerationCase) :
    (enterCase known enumeration store case).Alike (enterCase known' enumeration store' case) := by
  cases case with
  | placeholder id => exact h
  | case id name associatedTypes => exact h.put name.id rfl

/-- The cases of an enumeration are entered alike, one after the other. -/
theorem alike_enterCases (enumeration : Pattern) (cases : List EnumerationCase)
    {store store' : Store} (h : store.Alike store') :
    (cases.foldl (enterCase known enumeration) store).Alike
      (cases.foldl (enterCase known' enumeration) store') := by
  induction cases generalizing store store' with
  | nil => exact h
  | cons case rest ih => exact ih (alike_enterCase h enumeration case)

end Evaluator

/-! ## The run -/

mutual

/-- Evaluations of one expression from stores that are alike end in stores that are alike, for
whatever types they read. -/
theorem Expression.alike_evaluate (hscope : known.scope = known'.scope) :
    (expression : Expression) → {store store' : Store} → store.Alike store' →
    TypeBlind (expression.comparisons known store) →
    TypeBlind (expression.comparisons known' store') →
    (expression.evaluate known store).Alike (expression.evaluate known' store')
  | .binary id left right operator, _, _, h, hblind, hblind' => by
    -- the comparisons of the parts are among those of the whole, so that they are blind to types
    -- too
    rw [Expression.comparisons, typeBlind_append, typeBlind_append] at hblind hblind'
    have hleft := left.alike_evaluate hscope h hblind.1 hblind'.1
    have hright := right.alike_evaluate hscope hleft hblind.2.1 hblind'.2.1
    rw [Expression.evaluate, Expression.evaluate]
    exact Evaluator.alike_applyOperator hscope hright id operator left right hblind.2.2 hblind'.2.2
  | .identifier id _, _, _, h, _, _ =>
    h.putKnown id (Evaluator.map_erased_referred hscope h id)
  | .call id callee arguments, _, _, h, hblind, hblind' => by
    rw [Expression.comparisons, typeBlind_append] at hblind hblind'
    have hcallee := callee.alike_evaluate hscope h hblind.1 hblind'.1
    have harguments := Argument.alike_evaluateAll hscope arguments hcallee hblind.2 hblind'.2
    rw [Expression.evaluate, Expression.evaluate]
    exact harguments.putKnown id (Evaluator.map_erased_callValue harguments id callee arguments)
  | .literal id literal, _, _, h, hblind, hblind' => by
    rw [Expression.comparisons] at hblind hblind'
    have hitems := literal.alike_evaluateItems hscope h hblind hblind'
    have hvalue : (Evaluator.literalValue known id _ literal).map Value.erased =
        (Evaluator.literalValue known' id _ literal).map Value.erased :=
      Evaluator.map_erased_literalValue hitems id literal
    rw [Expression.evaluate, Expression.evaluate]
    exact (hitems.putKnown literal.id hvalue).putKnown id hvalue
  | .member id base _, _, _, h, hblind, hblind' => by
    rw [Expression.comparisons] at hblind hblind'
    have hbase := base.alike_evaluate hscope h hblind hblind'
    rw [Expression.evaluate, Expression.evaluate]
    exact hbase.putKnown id (Evaluator.map_erased_referred hscope hbase id)
  | .placeholder _, _, _, h, _, _ => h

theorem Argument.alike_evaluate (hscope : known.scope = known'.scope) :
    (argument : Argument) → {store store' : Store} → store.Alike store' →
    TypeBlind (argument.comparisons known store) →
    TypeBlind (argument.comparisons known' store') →
    (argument.evaluate known store).Alike (argument.evaluate known' store')
  | .argument _ _ expression, _, _, h, hblind, hblind' =>
    expression.alike_evaluate hscope h hblind hblind'
  | .placeholder _, _, _, h, _, _ => h

theorem Literal.alike_evaluateItems (hscope : known.scope = known'.scope) :
    (literal : Literal) → {store store' : Store} → store.Alike store' →
    TypeBlind (literal.comparisons known store) →
    TypeBlind (literal.comparisons known' store') →
    (literal.evaluateItems known store).Alike (literal.evaluateItems known' store')
  | .array _ items, _, _, h, hblind, hblind' =>
    Expression.alike_evaluateAll hscope items h hblind hblind'
  | .none _, _, _, h, _, _ | .boolean _ _, _, _, h, _, _ | .number _ _, _, _, h, _, _
  | .string _ _, _, _, h, _, _ | .color _ _, _, _, h, _, _ => h

theorem Expression.alike_evaluateAll (hscope : known.scope = known'.scope) :
    (expressions : List Expression) → {store store' : Store} → store.Alike store' →
    TypeBlind (Expression.comparisonsAll known expressions store) →
    TypeBlind (Expression.comparisonsAll known' expressions store') →
    (Expression.evaluateAll known expressions store).Alike
      (Expression.evaluateAll known' expressions store')
  | [], _, _, h, _, _ => h
  | expression :: rest, _, _, h, hblind, hblind' => by
    rw [Expression.comparisonsAll, typeBlind_append] at hblind hblind'
    have hfirst := expression.alike_evaluate hscope h hblind.1 hblind'.1
    exact Expression.alike_evaluateAll hscope rest hfirst hblind.2 hblind'.2

theorem Argument.alike_evaluateAll (hscope : known.scope = known'.scope) :
    (arguments : List Argument) → {store store' : Store} → store.Alike store' →
    TypeBlind (Argument.comparisonsAll known arguments store) →
    TypeBlind (Argument.comparisonsAll known' arguments store') →
    (Argument.evaluateAll known arguments store).Alike
      (Argument.evaluateAll known' arguments store')
  | [], _, _, h, _, _ => h
  | argument :: rest, _, _, h, hblind, hblind' => by
    rw [Argument.comparisonsAll, typeBlind_append] at hblind hblind'
    have hfirst := argument.alike_evaluate hscope h hblind.1 hblind'.1
    exact Argument.alike_evaluateAll hscope rest hfirst hblind.2 hblind'.2

end

section Members

variable {members members' : List Slot} {store store' : Store}
  (hscope : known.scope = known'.scope)
  (hmembers : members.map Slot.erased = members'.map Slot.erased)

include hscope hmembers

/-- One more member of a record, and the stores after its default. -/
theorem Evaluator.alike_enterMember (declaration : Declaration) (h : store.Alike store')
    (hblind : TypeBlind (declaration.defaultComparisons known store))
    (hblind' : TypeBlind (declaration.defaultComparisons known' store')) :
    (enterMember (Expression.evaluate known) (members, store) declaration).1.map Slot.erased =
        (enterMember (Expression.evaluate known') (members', store') declaration).1.map
          Slot.erased ∧
      (declaration.evaluateDefault known store).Alike
        (declaration.evaluateDefault known' store') := by
  cases declaration with
  | value id name form initializer =>
    cases initializer with
    | none =>
      refine ⟨?_, h⟩
      simp only [enterMember, Slot.map_erased_declare, hmembers]
    | some initializer =>
      have hdefault := initializer.alike_evaluate hscope h hblind hblind'
      refine ⟨?_, hdefault⟩
      simp only [enterMember, Slot.map_erased_declare, hmembers, Slot.erased_ofOption,
        hdefault initializer.id]
  | function | enumeration | record | space | library | placeholder => exact ⟨hmembers, h⟩

/-- The members of a record are declared alike, and their defaults leave the stores alike. -/
theorem Evaluator.alike_enterMembers (declarations : List Declaration) (h : store.Alike store')
    (hblind : TypeBlind (Declaration.defaultComparisonsAll known declarations store))
    (hblind' : TypeBlind (Declaration.defaultComparisonsAll known' declarations store')) :
    (declarations.foldl (enterMember (Expression.evaluate known)) (members, store)).1.map
        Slot.erased =
        (declarations.foldl (enterMember (Expression.evaluate known')) (members', store')).1.map
          Slot.erased ∧
      (declarations.foldl (enterMember (Expression.evaluate known)) (members, store)).2.Alike
        (declarations.foldl (enterMember (Expression.evaluate known')) (members', store')).2 := by
  induction declarations generalizing members members' store store' with
  | nil => exact ⟨hmembers, h⟩
  | cons declaration rest ih =>
    rw [Declaration.defaultComparisonsAll, typeBlind_append] at hblind hblind'
    obtain ⟨hmember, hstores⟩ :=
      alike_enterMember hscope hmembers declaration h hblind.1 hblind'.1
    have hsnd := enterMember_snd known declaration (members, store)
    have hsnd' := enterMember_snd known' declaration (members', store')
    have hfirst : (enterMember (Expression.evaluate known) (members, store) declaration).2.Alike
        (enterMember (Expression.evaluate known') (members', store') declaration).2 := by
      rw [hsnd, hsnd']
      exact hstores
    rw [← hsnd] at hblind
    rw [← hsnd'] at hblind'
    rw [List.foldl_cons, List.foldl_cons]
    exact ih hmember hfirst hblind.2 hblind'.2

end Members

/-- A record that is not one of the primitive types is entered alike. -/
theorem Evaluator.alike_enterRecord (hscope : known.scope = known'.scope) (name : Pattern)
    (declarations : List Declaration) (hname : name.name ∉ primitiveTypes) {store store' : Store}
    (h : store.Alike store')
    (hblind : TypeBlind (Declaration.defaultComparisonsAll known declarations store))
    (hblind' : TypeBlind (Declaration.defaultComparisonsAll known' declarations store')) :
    (enterRecord known (Expression.evaluate known) name declarations store).Alike
      (enterRecord known' (Expression.evaluate known') name declarations store') := by
  obtain ⟨hmembers, hstores⟩ :=
    alike_enterMembers hscope (List.map_nil.trans List.map_nil.symm) declarations h hblind hblind'
  rw [enterRecord, enterRecord, if_neg hname, if_neg hname]
  apply hstores.put name.id
  simp only [constructorValue, Value.erased, Memory.erased, Callable.erased, Slot.erasedAll_eq_map]
  rw [hmembers]

mutual

/-- Evaluations of one statement from stores that are alike end in stores that are alike. -/
theorem Statement.alike_evaluate (hscope : known.scope = known'.scope) :
    (statement : Statement) → {store store' : Store} → store.Alike store' →
    TypeBlind (statement.comparisons known store) →
    TypeBlind (statement.comparisons known' store') →
    (statement.evaluate known store).Alike (statement.evaluate known' store')
  | .declaration _ content, _, _, h, hblind, hblind' =>
    content.alike_evaluate hscope h hblind hblind'
  | .branch _ condition block, store, store', h, hblind, hblind' => by
    simp only [Statement.comparisons, typeBlind_append] at hblind hblind'
    have hcondition := condition.alike_evaluate hscope h hblind.1 hblind'.1
    -- both runs take the branch, or neither does
    rw [← hcondition.asBool_eq condition.id] at hblind'
    simp only [Statement.evaluate]
    rw [← hcondition.asBool_eq condition.id]
    by_cases htaken :
      ((condition.evaluate known store).find condition.id).bind Value.asBool = some true
    · rw [if_pos htaken] at hblind hblind'
      rw [if_pos htaken, if_pos htaken]
      exact Statement.alike_evaluateAll hscope block hcondition hblind.2 hblind'.2
    · rw [if_neg htaken, if_neg htaken]
      exact hcondition
  | .loop _ _ _ _, _, _, h, _, _ => h
  | .expression _ expression, _, _, h, hblind, hblind'
  | .result _ expression, _, _, h, hblind, hblind' =>
    expression.alike_evaluate hscope h hblind hblind'
  | .placeholder _, _, _, h, _, _ => h

theorem Declaration.alike_evaluate (hscope : known.scope = known'.scope) :
    (declaration : Declaration) → {store store' : Store} → store.Alike store' →
    TypeBlind (declaration.comparisons known store) →
    TypeBlind (declaration.comparisons known' store') →
    (declaration.evaluate known store).Alike (declaration.evaluate known' store')
  | .value _ _ _ none, _, _, h, _, _ => h
  | .value _ name _ (some initializer), _, _, h, hblind, hblind' => by
    have hvalue := initializer.alike_evaluate hscope h hblind hblind'
    exact hvalue.putKnown name.id (hvalue initializer.id)
  | .function _ name _ _ _ _, _, _, h, _, _ =>
    h.putKnown name.id (Evaluator.map_erased_functionValue hscope name)
  | .record _ name _ declarations, _, _, h, hblind, hblind' => by
    simp only [Declaration.comparisons] at hblind hblind'
    rw [Declaration.evaluate, Declaration.evaluate]
    by_cases hname : name.name ∈ primitiveTypes
    · rw [Evaluator.enterRecord, Evaluator.enterRecord, if_pos hname, if_pos hname]
      exact h
    · rw [if_neg hname] at hblind hblind'
      exact Evaluator.alike_enterRecord hscope name declarations hname h hblind hblind'
  | .enumeration _ name _ cases, _, _, h, _, _ => by
    rw [Declaration.evaluate, Declaration.evaluate]
    exact Evaluator.alike_enterCases name cases h
  | .space _ _ declarations, _, _, h, hblind, hblind' =>
    Declaration.alike_evaluateAll hscope declarations h hblind hblind'
  | .library _ _, _, _, h, _, _ | .placeholder _, _, _, h, _, _ => h

/-- Blocks keep stores alike. The blocks that do not run are the same ones, since conditions are
read alike. -/
theorem Statement.alike_evaluateAll (hscope : known.scope = known'.scope) :
    (block : List Statement) → {store store' : Store} → store.Alike store' →
    TypeBlind (Statement.comparisonsAll known block store) →
    TypeBlind (Statement.comparisonsAll known' block store') →
    (Statement.evaluateAll known block store).Alike (Statement.evaluateAll known' block store')
  | [], _, _, h, _, _ => h
  | statement :: rest, _, _, h, hblind, hblind' => by
    rw [Statement.comparisonsAll, typeBlind_append] at hblind hblind'
    have hfirst := statement.alike_evaluate hscope h hblind.1 hblind'.1
    exact Statement.alike_evaluateAll hscope rest hfirst hblind.2 hblind'.2

theorem Declaration.alike_evaluateAll (hscope : known.scope = known'.scope) :
    (declarations : List Declaration) → {store store' : Store} → store.Alike store' →
    TypeBlind (Declaration.comparisonsAll known declarations store) →
    TypeBlind (Declaration.comparisonsAll known' declarations store') →
    (Declaration.evaluateAll known declarations store).Alike
      (Declaration.evaluateAll known' declarations store')
  | [], _, _, h, _, _ => h
  | declaration :: rest, _, _, h, hblind, hblind' => by
    rw [Declaration.comparisonsAll, typeBlind_append] at hblind hblind'
    have hfirst := declaration.alike_evaluate hscope h hblind.1 hblind'.1
    exact Declaration.alike_evaluateAll hscope rest hfirst hblind.2 hblind'.2

end

/-- Under two substitutions a program gives the same values, but for types, as long as neither
evaluation tests contents for equality that differ in the types of nested values only. -/
theorem Program.evaluate_alike (program : Program) (scope : Scope) (inference : Inference)
    (s s' : Substitution)
    (hblind : TypeBlind (program.comparisons { scope, inference, substitution := s }))
    (hblind' : TypeBlind (program.comparisons { scope, inference, substitution := s' })) :
    (program.evaluate { scope, inference, substitution := s }).Alike
      (program.evaluate { scope, inference, substitution := s' }) := by
  have hempty : Store.Alike [] [] := fun _ => rfl
  rw [Program.evaluate_eq, Program.evaluate_eq]
  rw [comparisons] at hblind hblind'
  refine Statement.alike_evaluateAll ?_ program.block hempty hblind hblind'
  rfl

/-- Compares two texts, each in an array in an array: `[["…"]] == [["…"]]`. -/
def nestedComparison (first second : String) : Program where
  id := .ofNat 0
  block := [.expression (.ofNat 1) (.binary (.ofNat 2)
    (.literal (.ofNat 3) (.array (.ofNat 4) [.literal (.ofNat 5) (.array (.ofNat 6)
      [.literal (.ofNat 7) (.string (.ofNat 8) first)])]))
    (.literal (.ofNat 9) (.array (.ofNat 10) [.literal (.ofNat 11) (.array (.ofNat 12)
      [.literal (.ofNat 13) (.string (.ofNat 14) second)])]))
    .isEqualTo)]

/-- What is known of such a comparison once it is checked, with a substitution of one's own. -/
def nestedKnowledge (first second : String) (substitution : Substitution) : Knowledge where
  scope := (nestedComparison first second).resolve none
  inference := (nestedComparison first second).infer ((nestedComparison first second).resolve none)
  substitution

/-- The substitution that a check of such a comparison comes to. -/
def nestedSolution (first second : String) : Substitution :=
  ((nestedComparison first second).check 20).solution.substitution?.getD .empty

/-- Different texts are different whatever is known of types. -/
theorem evaluate_alike_nested :
    ((nestedComparison "a" "b").evaluate (nestedKnowledge "a" "b" (nestedSolution "a" "b"))).Alike
        ((nestedComparison "a" "b").evaluate (nestedKnowledge "a" "b" .empty)) ∧
      (((nestedComparison "a" "b").evaluate (nestedKnowledge "a" "b" .empty)).find (.ofNat 2)).bind
        Value.asBool = some false := by
  refine ⟨Program.evaluate_alike _ _ _ _ _ ?_ ?_, ?_⟩
  · decide +kernel
  · decide +kernel
  · decide +kernel

/-- Equal texts in arrays in arrays are equal only when the types of the inner arrays are. Without
the solution, these are two variables. -/
theorem not_forall_evaluate_alike :
    ¬ ∀ (program : Program) (scope : Scope) (inference : Inference) (s s' : Substitution),
      (program.evaluate { scope, inference, substitution := s }).Alike
        (program.evaluate { scope, inference, substitution := s' }) := by
  intro h
  have hsolved : (((nestedComparison "a" "a").evaluate
      (nestedKnowledge "a" "a" (nestedSolution "a" "a"))).find (.ofNat 2)).bind Value.asBool =
        some true := by decide +kernel
  have hunsolved : (((nestedComparison "a" "a").evaluate
      (nestedKnowledge "a" "a" .empty)).find (.ofNat 2)).bind Value.asBool = some false := by
    decide +kernel
  have halike := h (nestedComparison "a" "a") (nestedKnowledge "a" "a" .empty).scope
    (nestedKnowledge "a" "a" .empty).inference (nestedSolution "a" "a") .empty
  have hequal := halike.asBool_eq (.ofNat 2)
  have hfalse : some true = some false := hsolved.symm.trans (hequal.trans hunsolved)
  cases hfalse

end TreeLang
