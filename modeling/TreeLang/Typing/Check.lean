import TreeLang.Typing.Inference

/-!
# Checking

Checking a program resolves its names, infers terms and constraints, and unifies the constraints.
Types are known only when unification comes to a good end.
-/

namespace TreeLang

/-- All that is known about the types of a program. -/
structure Checked where
  scope : Scope
  inference : Inference
  solution : Solution

namespace Checked

/-- A term with the solution applied. -/
def solved (checked : Checked) (term : Term) : Option Term :=
  checked.solution.substitution?.map fun s => s.apply term

/-- The type of an expression. -/
def typeOf (checked : Checked) (id : NodeId) : Option Term :=
  (checked.inference.nodeTerms.find id).bind checked.solved

/-- The type of a pattern. -/
def patternType (checked : Checked) (id : NodeId) : Option Term :=
  (checked.inference.patternTerms.find id).bind checked.solved

/-- Whether unification came to a good end and every call is one of a function. -/
def isOk (checked : Checked) : Bool :=
  checked.solution.substitution?.isSome && checked.inference.errors.isEmpty

end Checked

/-- The number of steps that unification is given where nothing else is said. -/
def stepLimit : Nat := 1000000000

/-- Checks a program; unification takes at most the given number of steps. -/
def Program.check (steps : Nat) (program : Program) : Checked :=
  let scope := program.resolve none
  let inference := program.infer scope
  { scope, inference, solution := solve steps inference.constraints }

end TreeLang
