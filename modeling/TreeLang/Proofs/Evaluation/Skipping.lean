import TreeLang.Proofs.Evaluation.Recursion

/-!
# Code that does not run

The block of a branch that is not taken, what a loop iterates over and its block, and the parameters
and the block of a function do not run. Whatever stands there instead, the values of a program are
the same: each statement leaves the store that it would leave otherwise, so those after it, and the
conditions in them, find what they would find.
-/

namespace TreeLang

/-! ## Replacing what does not run -/

mutual

/-- The other declaration has other parameters and other blocks in some of its functions. -/
inductive Declaration.ReplacesIdle : Declaration → Declaration → Prop
  | same (declaration : Declaration) : ReplacesIdle declaration declaration
  | function (id : NodeId) (name : Pattern) (result : TypeForm) (generics : List GenericParameter)
      (parameters others : List Parameter) (block other : List Statement) :
    ReplacesIdle (.function id name result generics parameters block)
      (.function id name result generics others other)
  | record (id : NodeId) (name : Pattern) (generics : List GenericParameter)
      {declarations others : List Declaration} (members : ReplacesIdleAll declarations others) :
    ReplacesIdle (.record id name generics declarations) (.record id name generics others)
  | space (id : NodeId) (name : Pattern) {declarations others : List Declaration}
      (members : ReplacesIdleAll declarations others) :
    ReplacesIdle (.space id name declarations) (.space id name others)

/-- Declarations of which some have functions with other parameters and other blocks. -/
inductive Declaration.ReplacesIdleAll : List Declaration → List Declaration → Prop
  | nil : ReplacesIdleAll [] []
  | cons {declaration other : Declaration} {rest others : List Declaration}
      (first : Declaration.ReplacesIdle declaration other) (later : ReplacesIdleAll rest others) :
    ReplacesIdleAll (declaration :: rest) (other :: others)

end

/-- Whether a branch with the condition is taken when the run comes to it with a store. -/
def Expression.IsTaken (known : Knowledge) (condition : Expression) (store : Store) : Prop :=
  ((condition.evaluate known store).find condition.id).bind Value.asBool = some true

instance (known : Knowledge) (condition : Expression) (store : Store) :
    Decidable (condition.IsTaken known store) := inferInstanceAs (Decidable (_ = some true))

mutual

/-- The other statement has something else in places that do not run when the first one is run from
the store: in the block of a branch that is not taken, in a loop, and in functions. The places may
be inside of branches that are taken, and there may be any number of them. -/
inductive Statement.ReplacesIdle (known : Knowledge) : Store → Statement → Statement → Prop
  | same (store : Store) (statement : Statement) : ReplacesIdle known store statement statement
  | declaration (store : Store) (id : NodeId) {content other : Declaration}
      (replaces : content.ReplacesIdle other) :
    ReplacesIdle known store (.declaration id content) (.declaration id other)
  | skipped {store : Store} (id : NodeId) {condition : Expression}
      (idle : ¬ condition.IsTaken known store) (block other : List Statement) :
    ReplacesIdle known store (.branch id condition block) (.branch id condition other)
  | branch {store : Store} (id : NodeId) {condition : Expression} {block other : List Statement}
      (replaces : ReplacesIdleAll known (condition.evaluate known store) block other) :
    ReplacesIdle known store (.branch id condition block) (.branch id condition other)
  | loop (store : Store) (id : NodeId) (bound : Pattern) (iterated otherIterated : Expression)
      (block other : List Statement) :
    ReplacesIdle known store (.loop id bound iterated block) (.loop id bound otherIterated other)

/-- Each statement has something else in places that do not run when the first block is run. -/
inductive Statement.ReplacesIdleAll (known : Knowledge) :
    Store → List Statement → List Statement → Prop
  | nil (store : Store) : ReplacesIdleAll known store [] []
  | cons {store : Store} {statement other : Statement} {rest others : List Statement}
      (first : Statement.ReplacesIdle known store statement other)
      (later : ReplacesIdleAll known (statement.evaluate known store) rest others) :
    ReplacesIdleAll known store (statement :: rest) (other :: others)

end

/-! ## Runs -/

variable {known : Knowledge}

/-- Functions are no members of a record. -/
theorem Declaration.ReplacesIdle.enterMember_eq {declaration other : Declaration}
    (h : declaration.ReplacesIdle other) (evaluate : Expression → Store → Store)
    (state : List Slot × Store) :
    Evaluator.enterMember evaluate state other =
      Evaluator.enterMember evaluate state declaration := by
  cases h with
  | same | function | record | space => rfl

/-- Members whose defaults are the same are entered alike. -/
theorem Declaration.ReplacesIdleAll.foldl_enterMember_eq {declarations others : List Declaration}
    (h : Declaration.ReplacesIdleAll declarations others) (evaluate : Expression → Store → Store)
    (state : List Slot × Store) :
    others.foldl (Evaluator.enterMember evaluate) state =
      declarations.foldl (Evaluator.enterMember evaluate) state := by
  induction declarations generalizing others state with
  | nil =>
    cases h
    rfl
  | cons declaration rest ih =>
    obtain _ | ⟨hfirst, hlater⟩ := h
    rw [List.foldl_cons, List.foldl_cons, hfirst.enterMember_eq, ih hlater]

mutual

/-- A declaration that differs in what does not run is evaluated alike. -/
theorem Declaration.ReplacesIdle.evaluate_eq {declaration other : Declaration}
    (h : declaration.ReplacesIdle other) (store : Store) :
    other.evaluate known store = declaration.evaluate known store := by
  cases h with
  | same => rfl
  | function => rfl
  | record id name generics members =>
    simp only [Declaration.evaluate, Evaluator.enterRecord, members.foldl_enterMember_eq]
  | space id name members =>
    rw [Declaration.evaluate, Declaration.evaluate]
    exact members.evaluateAll_eq store

/-- Declarations that differ in what does not run are evaluated alike. -/
theorem Declaration.ReplacesIdleAll.evaluateAll_eq {declarations others : List Declaration}
    (h : Declaration.ReplacesIdleAll declarations others) (store : Store) :
    Declaration.evaluateAll known others store =
      Declaration.evaluateAll known declarations store := by
  cases h with
  | nil => rfl
  | cons hfirst hlater =>
    rw [Declaration.evaluateAll, Declaration.evaluateAll, hfirst.evaluate_eq store,
      hlater.evaluateAll_eq]

end

mutual

/-- A statement that differs in what does not run from this store is evaluated alike. -/
theorem Statement.ReplacesIdle.evaluate_eq {store : Store} {statement other : Statement}
    (h : statement.ReplacesIdle known store other) :
    other.evaluate known store = statement.evaluate known store := by
  cases h with
  | same => rfl
  | declaration _ id replaces =>
    rw [Statement.evaluate, Statement.evaluate]
    exact replaces.evaluate_eq store
  | skipped id idle block other =>
    have hidle : ¬ ((_ : Store).find _).bind Value.asBool = some true := idle
    simp only [Statement.evaluate]
    rw [if_neg hidle, if_neg hidle]
  | branch id replaces =>
    simp only [Statement.evaluate]
    rw [replaces.evaluateAll_eq]
  | loop => rfl

/-- A block that differs in what does not run is evaluated alike, each statement from the store that
those before it have left. -/
theorem Statement.ReplacesIdleAll.evaluateAll_eq {store : Store} {block other : List Statement}
    (h : Statement.ReplacesIdleAll known store block other) :
    Statement.evaluateAll known other store = Statement.evaluateAll known block store := by
  cases h with
  | nil => rfl
  | cons hfirst hlater =>
    rw [Statement.evaluateAll, Statement.evaluateAll, hfirst.evaluate_eq, hlater.evaluateAll_eq]

end

/-- What stands in places that do not run has no effect on the values of a program, whatever is
known of its names and types. -/
theorem Program.evaluate_eq_of_replacesIdle {program other : Program}
    (h : Statement.ReplacesIdleAll known [] program.block other.block) :
    other.evaluate known = program.evaluate known := by
  rw [other.evaluate_eq, program.evaluate_eq, h.evaluateAll_eq]

/-- `let x = true`, then `if x { x = false; if x { idle }; for y in iterated { idle } }`, then
`namespace n { func f(parameters) -> _ { idle } }`, and at last `x`. -/
def idlingProgram (idle : List Statement) (iterated : Expression) (parameters : List Parameter) :
    Program where
  id := .ofNat 0
  block := [
    .declaration (.ofNat 1) (.value (.ofNat 2) ⟨.ofNat 3, "x"⟩ none
      (some (.literal (.ofNat 4) (.boolean (.ofNat 5) true)))),
    .branch (.ofNat 6) (.identifier (.ofNat 7) ⟨.ofNat 8, "x", false⟩) [
      .expression (.ofNat 9) (.binary (.ofNat 10)
        (.identifier (.ofNat 11) ⟨.ofNat 12, "x", false⟩)
        (.literal (.ofNat 13) (.boolean (.ofNat 14) false)) .setEqualTo),
      .branch (.ofNat 15) (.identifier (.ofNat 16) ⟨.ofNat 17, "x", false⟩) idle,
      .loop (.ofNat 18) ⟨.ofNat 19, "y"⟩ iterated idle],
    .declaration (.ofNat 20) (.space (.ofNat 21) ⟨.ofNat 22, "n"⟩ [
      .function (.ofNat 23) ⟨.ofNat 24, "f"⟩ (.placeholder (.ofNat 25)) [] parameters idle]),
    .expression (.ofNat 26) (.identifier (.ofNat 27) ⟨.ofNat 28, "x", false⟩)]

/-- The program with `x = true` in the idle places. -/
def busyProgram : Program :=
  idlingProgram [.expression (.ofNat 29) (.binary (.ofNat 30)
    (.identifier (.ofNat 31) ⟨.ofNat 32, "x", false⟩)
    (.literal (.ofNat 33) (.boolean (.ofNat 34) true)) .setEqualTo)] (.placeholder (.ofNat 35)) []

/-- The program with nothing in the idle places, another iterated expression and a parameter. -/
def emptiedProgram : Program :=
  idlingProgram [] (.literal (.ofNat 36) (.none (.ofNat 37))) [.placeholder (.ofNat 38)]

/-- What is known of the busy program when its names are resolved and nothing is inferred. -/
def busyKnowledge : Knowledge where
  scope := busyProgram.resolve none
  inference := {}
  substitution := .empty

/-- The outer condition holds when the run comes to it, the inner one does not any more. So `x` is
`false` in the end, with either code in the idle places. -/
theorem evaluate_eq_of_replacesIdle_emptied :
    Statement.ReplacesIdleAll busyKnowledge [] busyProgram.block emptiedProgram.block ∧
      emptiedProgram.evaluate busyKnowledge = busyProgram.evaluate busyKnowledge ∧
      ((busyProgram.evaluate busyKnowledge).find (.ofNat 27)).bind Value.asBool = some false := by
  have hreplaces :
      Statement.ReplacesIdleAll busyKnowledge [] busyProgram.block emptiedProgram.block := by
    refine .cons (.same _ _) (.cons (.branch _ ?_) (.cons (.declaration _ _ ?_)
      (.cons (.same _ _) (.nil _))))
    · refine .cons (.same _ _) (.cons (.skipped _ ?_ _ _) (.cons (.loop _ _ _ _ _ _ _) (.nil _)))
      decide +kernel
    · exact .space _ _ (.cons (.function _ _ _ _ _ _ _ _) .nil)
  exact ⟨hreplaces, Program.evaluate_eq_of_replacesIdle hreplaces, by decide +kernel⟩

end TreeLang
