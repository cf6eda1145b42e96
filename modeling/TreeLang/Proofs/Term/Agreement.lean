import TreeLang.Proofs.Term.Basic

/-!
# Agreement

The unifier ignores the labels of function arguments, and a generic parameter stands against
anything. `Agrees` is the relation between terms that this leaves.
-/

namespace TreeLang.Term

/-- Two terms agree when they are equal up to the labels of function arguments, where a generic
parameter on either side agrees with anything. -/
inductive Agrees : Term → Term → Prop
  | genericLeft (name : String) (term : Term) : Agrees (.gen name) term
  | genericRight (term : Term) (name : String) : Agrees term (.gen name)
  | evar (name : String) : Agrees (.evar name) (.evar name)
  | cons (name : String) {as bs : List Term} (parameters : List.Forall₂ Agrees as bs) :
    Agrees (.cons name as) (.cons name bs)
  | fn {as bs : List Formal} {a b : Term}
    (arguments : List.Forall₂ (fun f g => Agrees f.type g.type) as bs) (result : Agrees a b) :
    Agrees (.fn as a) (.fn bs b)

/-- A term agrees with itself. -/
theorem Agrees.refl (term : Term) : Agrees term term := by
  induction term with
  | evar name => exact .evar name
  | gen name => exact .genericLeft name _
  | cons name parameters ih => exact .cons name (List.forall₂_same.2 ih)
  | fn arguments result ihs ih => exact .fn (List.forall₂_same.2 ihs) ih

/-- What agrees with a named type without parameters is that type or a generic parameter. -/
theorem Agrees.eq_named {term : Term} {name : String} (h : Agrees term (named name)) :
    term = named name ∨ ∃ generic, term = .gen generic := by
  cases h with
  | genericLeft generic _ => exact .inr ⟨generic, rfl⟩
  | cons _ parameters =>
    cases parameters
    exact .inl rfl

end TreeLang.Term
