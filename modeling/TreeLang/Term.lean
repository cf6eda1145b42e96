/-!
# Terms

A term is a type as the unifier sees it. Named types are compared by name and parameters. A generic
parameter stays opaque until a use of its declaration replaces it by a fresh variable.
-/

namespace TreeLang

mutual

/-- A type with variables in it. -/
inductive Term where
  | evar (name : String)
  | cons (name : String) (parameters : List Term)
  | gen (name : String)
  | fn (arguments : List Formal) (result : Term)

/-- An argument of a function type, under a label or without. -/
inductive Formal where
  | mk (label : Option String) (type : Term)

end

/-- The label of an argument. -/
def Formal.label : Formal → Option String
  | .mk label _ => label

/-- The type of an argument. -/
def Formal.type : Formal → Term
  | .mk _ type => type

namespace Term

/-- A named type without parameters. -/
def named (name : String) : Term := cons name []

/-- The type of truth values. -/
def boolean : Term := named "Boolean"

/-- The type of numbers. -/
def number : Term := named "Number"

/-- The type of strings. -/
def string : Term := named "String"

/-- The type of colours. -/
def color : Term := named "Color"

/-- The type of the value that says nothing. -/
def unit : Term := named "Unit"

/-- The type of lists of elements. -/
def array (element : Term) : Term := cons "Array" [element]

/-- Whether the term is a variable. -/
def isEvar : Term → Bool
  | evar _ => true
  | _ => false

/-- The name of a named type. -/
def consName : Term → Option String
  | cons name _ => some name
  | _ => none

mutual

/-- The variables that occur in a term, from left to right. -/
def evars : Term → List String
  | evar name => [name]
  | cons _ parameters => evarsList parameters
  | gen _ => []
  | fn arguments result => evarsFormals arguments ++ evars result

/-- The variables of a list of terms. -/
def evarsList : List Term → List String
  | [] => []
  | term :: rest => evars term ++ evarsList rest

/-- The variables of a list of arguments. -/
def evarsFormals : List Formal → List String
  | [] => []
  | .mk _ type :: rest => evars type ++ evarsFormals rest

end

/-- Whether a variable occurs in the term. -/
def hasEvars (term : Term) : Bool := !term.evars.isEmpty

/-! ## Text -/

mutual

/-- The written form of a term. -/
def text : Term → String
  | evar name => "?" ++ name
  | gen name => name
  | cons name parameters =>
    match parameters with
    | [] => name
    | first :: rest => name ++ "<" ++ ", ".intercalate (texts (first :: rest)) ++ ">"
  | fn arguments result =>
    "(" ++ ", ".intercalate (formalTexts arguments) ++ ") -> " ++ text result

/-- The written forms of a list of terms. -/
def texts : List Term → List String
  | [] => []
  | term :: rest => text term :: texts rest

/-- The written forms of a list of arguments, each after its label. -/
def formalTexts : List Formal → List String
  | [] => []
  | .mk label type :: rest =>
    (match label with
      | some label => label ++ ": " ++ text type
      | none => text type) :: formalTexts rest

end

/-! ## Equality -/

mutual

/-- Decides whether two terms are the same. -/
def decEq : (a b : Term) → Decidable (a = b)
  | evar a, evar b => if h : a = b then isTrue (by rw [h]) else isFalse (by simp [h])
  | gen a, gen b => if h : a = b then isTrue (by rw [h]) else isFalse (by simp [h])
  | cons a as, cons b bs =>
    if h : a = b then
      match decEqList as bs with
      | isTrue hs => isTrue (by rw [h, hs])
      | isFalse hs => isFalse (by simp [hs])
    else isFalse (by simp [h])
  | fn as a, fn bs b =>
    match decEqFormals as bs, decEq a b with
    | isTrue hs, isTrue h => isTrue (by rw [hs, h])
    | isFalse hs, _ => isFalse (by simp [hs])
    | _, isFalse h => isFalse (by simp [h])
  | evar _, cons _ _ | evar _, gen _ | evar _, fn _ _ => isFalse nofun
  | cons _ _, evar _ | cons _ _, gen _ | cons _ _, fn _ _ => isFalse nofun
  | gen _, evar _ | gen _, cons _ _ | gen _, fn _ _ => isFalse nofun
  | fn _ _, evar _ | fn _ _, cons _ _ | fn _ _, gen _ => isFalse nofun

/-- Decides whether two lists of terms are the same. -/
def decEqList : (as bs : List Term) → Decidable (as = bs)
  | [], [] => isTrue rfl
  | a :: as, b :: bs =>
    match decEq a b, decEqList as bs with
    | isTrue h, isTrue hs => isTrue (by rw [h, hs])
    | isFalse h, _ => isFalse (by simp [h])
    | _, isFalse hs => isFalse (by simp [hs])
  | [], _ :: _ => isFalse nofun
  | _ :: _, [] => isFalse nofun

/-- Decides whether two lists of arguments are the same, labels included. -/
def decEqFormals : (as bs : List Formal) → Decidable (as = bs)
  | [], [] => isTrue rfl
  | .mk l a :: as, .mk m b :: bs =>
    if hl : l = m then
      match decEq a b, decEqFormals as bs with
      | isTrue h, isTrue hs => isTrue (by rw [hl, h, hs])
      | isFalse h, _ => isFalse (by simp [h])
      | _, isFalse hs => isFalse (by simp [hs])
    else isFalse (by simp [hl])
  | [], _ :: _ => isFalse nofun
  | _ :: _, [] => isFalse nofun

end

instance : DecidableEq Term := decEq

end Term

instance : DecidableEq Formal := fun
  | .mk l a, .mk m b =>
    if hl : l = m then
      if h : a = b then isTrue (by rw [hl, h]) else isFalse (by simp [h])
    else isFalse (by simp [hl])

end TreeLang
