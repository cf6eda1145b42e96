import TreeLang.Term.Substitution

/-!
# Unification

The unifier takes constraints first in, first out. A variable is bound to the other side, and the
binding is applied to all constraints that are left; a pair of types with one head is replaced by
the pairs of its parts, which are put last. A generic parameter stands against anything. The first
pair of types with different heads ends the work.

There is no check that a variable does not occur in what it is bound to, and with such a binding the
work may go on for ever. So `solve` is given a number of steps, and says when they were not enough.
-/

namespace TreeLang

/-- Two terms that are to be made equal. -/
structure Constraint where
  head : Term
  tail : Term
  deriving DecidableEq

/-- Applies a substitution to both sides. -/
def Constraint.apply (s : Substitution) (c : Constraint) : Constraint :=
  ⟨s.apply c.head, s.apply c.tail⟩

/-- The first two terms found that cannot be made equal. -/
inductive Mismatch where
  | name (head tail : Term)
  | argumentCount (head tail : Term)
  | kind (head tail : Term)
  deriving DecidableEq

/-- The left term of a mismatch. -/
def Mismatch.head : Mismatch → Term
  | .name head _ | .argumentCount head _ | .kind head _ => head

/-- The right term of a mismatch. -/
def Mismatch.tail : Mismatch → Term
  | .name _ tail | .argumentCount _ tail | .kind _ tail => tail

/-- The text of a mismatch. -/
def Mismatch.message : Mismatch → String
  | .name head tail => "type mismatch: `" ++ head.text ++ "` is not `" ++ tail.text ++ "`"
  | .argumentCount head tail =>
    "argument count mismatch between `" ++ head.text ++ "` and `" ++ tail.text ++ "`"
  | .kind head tail =>
    "kind mismatch: `" ++ head.text ++ "` cannot unify with `" ++ tail.text ++ "`"

/-- What follows from one constraint. -/
inductive Consequence where
  | nothing
  | binding (key value : Term)
  | parts (constraints : List Constraint)
  | mismatch (mismatch : Mismatch)
  deriving DecidableEq

/-- The constraints between the types of two lists of arguments. -/
def Constraint.ofFormals : List Formal → List Formal → List Constraint
  | .mk _ a :: as, .mk _ b :: bs => ⟨a, b⟩ :: Constraint.ofFormals as bs
  | _, _ => []

/-- The constraints between two lists of terms. -/
def Constraint.ofTerms : List Term → List Term → List Constraint
  | a :: as, b :: bs => ⟨a, b⟩ :: Constraint.ofTerms as bs
  | _, _ => []

/-- What follows from a constraint between two different terms. -/
def Constraint.consequence (c : Constraint) : Consequence :=
  match c.head, c.tail with
  | .gen _, _ => .nothing
  | _, .gen _ => .nothing
  | .evar name, tail => .binding (.evar name) tail
  | head, .evar name => .binding (.evar name) head
  | .fn as a, .fn bs b =>
    if as.length ≠ bs.length then .mismatch (.argumentCount c.head c.tail)
    else .parts (Constraint.ofFormals as bs ++ [⟨a, b⟩])
  | .cons a as, .cons b bs =>
    if a ≠ b then .mismatch (.name c.head c.tail)
    else if as.length ≠ bs.length then .mismatch (.argumentCount c.head c.tail)
    else .parts (Constraint.ofTerms as bs)
  | .cons _ _, .fn _ _ => .mismatch (.kind c.head c.tail)
  | .fn _ _, .cons _ _ => .mismatch (.kind c.head c.tail)

/-- The outcome of unification. -/
inductive Solution where
  | solved (substitution : Substitution)
  | failed (mismatch : Mismatch)
  | unfinished
  deriving DecidableEq

/-- The substitution of a solution. -/
def Solution.substitution? : Solution → Option Substitution
  | .solved s => some s
  | _ => none

/-- Works on a list of constraints for a number of steps. -/
def solveFrom : Nat → Substitution → List Constraint → Solution
  | _, s, [] => .solved s
  | 0, _, _ :: _ => .unfinished
  | steps + 1, s, c :: rest =>
    if c.head = c.tail then solveFrom steps s rest
    else
      match c.consequence with
      | .nothing => solveFrom steps s rest
      | .binding key value =>
        let s := s.insert key value
        solveFrom steps s (rest.map (Constraint.apply s))
      | .parts constraints => solveFrom steps s (rest ++ constraints)
      | .mismatch mismatch => .failed mismatch

/-- Makes the two sides of every constraint equal, first to last. -/
def solve (steps : Nat) (constraints : List Constraint) : Solution :=
  solveFrom steps .empty constraints

end TreeLang
