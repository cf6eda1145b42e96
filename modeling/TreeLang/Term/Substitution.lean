import TreeLang.Term

/-!
# Substitutions

A substitution is the list of its bindings in the order in which they were made; the latest binding
of a term counts. Applying it follows bindings until none applies, inside the bound terms too. A
term that is being expanded already is left as it is, so cyclic bindings come to an end.
-/

namespace TreeLang

namespace Term

mutual

/-- Replaces, from the outside in, every subterm for which there is a replacement. A replacement is
not searched again. -/
def replaceOutermost (new : Term → Option Term) : Term → Term
  | evar name => (new (evar name)).getD (evar name)
  | gen name => (new (gen name)).getD (gen name)
  | cons name parameters =>
    match new (cons name parameters) with
    | some term => term
    | none => cons name (replaceOutermostList new parameters)
  | fn arguments result =>
    match new (fn arguments result) with
    | some term => term
    | none => fn (replaceOutermostFormals new arguments) (replaceOutermost new result)

/-- Replaces within each term of a list. -/
def replaceOutermostList (new : Term → Option Term) : List Term → List Term
  | [] => []
  | term :: rest => replaceOutermost new term :: replaceOutermostList new rest

/-- Replaces within each argument of a list. -/
def replaceOutermostFormals (new : Term → Option Term) : List Formal → List Formal
  | [] => []
  | .mk label type :: rest =>
    .mk label (replaceOutermost new type) :: replaceOutermostFormals new rest

end

end Term

/-- Bindings of terms to terms, in the order in which they were made. -/
structure Substitution where
  pairs : List (Term × Term) := []
  deriving DecidableEq

namespace Substitution

/-- The substitution without bindings. -/
def empty : Substitution := {}

/-- Binds a term; an earlier binding of it no longer counts. -/
def insert (s : Substitution) (key value : Term) : Substitution :=
  { pairs := s.pairs ++ [(key, value)] }

/-- The term bound to a term directly. -/
def lookup (s : Substitution) (key : Term) : Option Term :=
  (s.pairs.reverse.find? fun pair => pair.1 = key).map Prod.snd

/-- Applies the bindings within a term, except to terms of `expanding`. A term is expanded inside
its own expansion only once, so `depth` expansions can be nested at most when there are that many
bindings. -/
def applyWithin (s : Substitution) : Nat → List Term → Term → Term
  | 0, _, term => term
  | depth + 1, expanding, term =>
    term.replaceOutermost fun key =>
      if key ∈ expanding then none
      else (s.lookup key).map (s.applyWithin depth (key :: expanding))

/-- Applies the substitution to a term. -/
def apply (s : Substitution) (term : Term) : Term := s.applyWithin s.pairs.length [] term

end Substitution

end TreeLang
