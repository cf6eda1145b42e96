import TreeLang.Table
import TreeLang.Term

/-!
# Fresh names

One counter gives names to type variables and to generic parameters. A use of a declaration replaces
each of its generic parameters by one fresh variable, the same at all places.
-/

namespace TreeLang

/-- A source of names: how many it has given out. The program counts them in 32 bits; the number
here has no bound, so the two are the same for a run that takes fewer than `2 ^ 32` names. -/
structure NameSupply where
  issued : Nat := 0
  deriving DecidableEq

namespace NameSupply

/-- The supply that has given out nothing. -/
def start : NameSupply := {}

/-- The next number. -/
def number (names : NameSupply) : Nat × NameSupply := (names.issued + 1, ⟨names.issued + 1⟩)

/-- A fresh type variable, named by its number. -/
def evar (names : NameSupply) : Term × NameSupply :=
  let (n, names) := names.number
  (.evar (toString n), names)

/-- A name for a generic parameter: the written name and then a number. -/
def genericName (names : NameSupply) (name : String) : String × NameSupply :=
  let (n, names) := names.number
  (name ++ toString n, names)

end NameSupply

/-- The variables that stand for generic parameters, with the supply they come from. -/
structure Renaming where
  names : NameSupply
  chosen : Table String Term := []

/-- The variable for a generic parameter; a new one on its first occurrence. -/
def Renaming.variableFor (r : Renaming) (name : String) : Term × Renaming :=
  match r.chosen.find name with
  | some term => (term, r)
  | none =>
    let (term, names) := r.names.evar
    (term, { names, chosen := r.chosen.put name term })

namespace Term

mutual

/-- Replaces generic parameters by variables, from left to right and arguments before results. -/
def replaceGenerics : Term → Renaming → Term × Renaming
  | gen name, r => r.variableFor name
  | evar name, r => (evar name, r)
  | cons name parameters, r =>
    let (parameters, r) := replaceGenericsList parameters r
    (cons name parameters, r)
  | fn arguments result, r =>
    let (arguments, r) := replaceGenericsFormals arguments r
    let (result, r) := replaceGenerics result r
    (fn arguments result, r)

/-- Replaces generic parameters in each term of a list. -/
def replaceGenericsList : List Term → Renaming → List Term × Renaming
  | [], r => ([], r)
  | term :: rest, r =>
    let (term, r) := replaceGenerics term r
    let (rest, r) := replaceGenericsList rest r
    (term :: rest, r)

/-- Replaces generic parameters in each argument of a list. -/
def replaceGenericsFormals : List Formal → Renaming → List Formal × Renaming
  | [], r => ([], r)
  | .mk label type :: rest, r =>
    let (type, r) := replaceGenerics type r
    let (rest, r) := replaceGenericsFormals rest r
    (.mk label type :: rest, r)

end

/-- The term with a fresh variable for each of its generic parameters. -/
def instantiate (term : Term) (names : NameSupply) : Term × NameSupply :=
  let (term, r) := term.replaceGenerics { names }
  (term, r.names)

end Term

end TreeLang
