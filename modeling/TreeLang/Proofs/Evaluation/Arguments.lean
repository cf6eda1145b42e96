import TreeLang.Proofs.Evaluation.Members
import TreeLang.Proofs.Evaluation.Writing
import TreeLang.Proofs.Term.Generics
import TreeLang.Proofs.Typing.Growth

/-!
# Which argument is for which parameter

Inference and evaluation match the arguments of a call with parameters on their own. Inference
counts the arguments with the placeholders among them and the members of a record that have a
written type; evaluation counts the arguments that are no placeholders, and all members. For
labelled arguments this makes no difference, and for the others none either where the two ways of
counting agree.
-/

namespace TreeLang

/-- An argument of a call that is no placeholder, with its position among all arguments. -/
structure GivenArgument where
  position : Nat
  label : Option String
  expression : Expression

/-- The arguments of a call that are no placeholders, where the first one has the given position. -/
def Argument.given : Nat → List Argument → List GivenArgument
  | _, [] => []
  | position, .placeholder _ :: rest => given (position + 1) rest
  | position, .argument _ label expression :: rest =>
    ⟨position, label, expression⟩ :: given (position + 1) rest

namespace GivenArgument

/-- The parameter that inference passes the argument to. -/
def formal? (formals : List Formal) (a : GivenArgument) : Option Formal :=
  Generator.formalFor formals a.position a.label

/-- The label of that parameter. -/
def parameter? (formals : List Formal) (a : GivenArgument) : Option String :=
  (a.formal? formals).bind Formal.label

/-- What inference asks of the argument: its term, if it has one, must be that of its parameter. -/
def constraint? (formals : List Formal) (g : Generator) (a : GivenArgument) : Option Constraint :=
  (a.formal? formals).bind fun formal =>
    (g.nodeTerm a.expression.id).map fun term => ⟨formal.type, term⟩

end GivenArgument

/-- What is used in the end is the value of one of some arguments, or what there is otherwise if
there are no such arguments. -/
def Store.Provides (store : Store) (arguments : List GivenArgument)
    (otherwise used : Option Value) : Prop :=
  (arguments = [] ∧ used = otherwise) ∨
    ∃ a ∈ arguments, ∃ value, store.find a.expression.id = some value ∧ used = some value

/-- A call with the states in which inference and evaluation come to it. -/
structure CallSite where
  id : NodeId
  callee : Expression
  arguments : List Argument
  typing : Generator
  store : Store

namespace CallSite

/-- The arguments that are no placeholders. -/
def given (site : CallSite) : List GivenArgument := Argument.given 0 site.arguments

/-- The parameters of the callee as inference knows them. -/
def formals (site : CallSite) : List Formal :=
  match site.typing.nodeTerm site.callee.id with
  | some (.fn formals _) => formals
  | _ => []

/-- The arguments that inference passes to the parameter with a label. -/
def passedTo (site : CallSite) (parameter : String) : List GivenArgument :=
  site.given.filter fun a => a.parameter? site.formals = some parameter

/-- The arguments that inference constrains against the parameter with a label: those passed to it
that have a term. -/
def constrainedTo (site : CallSite) (parameter : String) : List GivenArgument :=
  (site.passedTo parameter).filter fun a => (a.constraint? site.formals site.typing).isSome

/-- The callee is what a declaration has declared: its term is an instance of the one that inference
gives to the name on entering the declaration, and its value is the one that evaluation gives to
the name then, which had none before. -/
structure Refers (site : CallSite) (known : Knowledge) (declaration : Declaration)
    (name : Pattern) : Prop where
  typed : ∃ (before : Generator) (names : NameSupply) (type : Term),
    (before.enterDeclaration declaration {}).2.patternTerm name.id = some type ∧
      site.typing.nodeTerm site.callee.id = some (type.instantiate names).1
  valued : ∃ (nested : Outline → Store → Store) (before : Store), before.find name.id = none ∧
    site.store.find site.callee.id =
      (Evaluator.enterDeclaration known nested declaration {} before).2.find name.id

/-- A record that the call makes has for each member with a type what inference passes to it, or
else its default. -/
def FillsAsTyped (site : CallSite) (known : Knowledge) (members : List (String × Bool)) : Prop :=
  ∀ value, Evaluator.callValue known site.id site.callee site.arguments site.store = some value →
    ∃ defaults filled,
      (site.store.find site.callee.id).bind Value.asCallable = some (.constructor defaults) ∧
      value.memory = .record filled ∧
      ∀ member, (member, true) ∈ members →
        site.store.Provides (site.passedTo member)
          ((Slot.find? member defaults).bind Slot.value?)
          ((Slot.find? member filled).bind Slot.value?)

/-- A native function that the call gets a value from is applied to what inference passes to its
parameters. -/
def AppliesAsTyped (site : CallSite) (known : Knowledge) (builtin : Builtin) : Prop :=
  ∀ value, Evaluator.callValue known site.id site.callee site.arguments site.store = some value →
    ∃ given, givenArguments site.store site.arguments = some given ∧
      builtin.call given = some value ∧
      ∀ (position : Nat) parameter, builtin.parameters[position]? = some parameter →
        site.store.Provides (site.passedTo parameter) none
          (Builtin.argumentFor given position parameter)

/-- No argument without a label stands after a placeholder. -/
def Unshifted (site : CallSite) : Prop :=
  ∀ a ∈ site.given.zipIdx, a.1.label = none → a.1.position = a.2

instance (site : CallSite) : Decidable site.Unshifted :=
  inferInstanceAs (Decidable (∀ a ∈ site.given.zipIdx, a.1.label = none → a.1.position = a.2))

/-- An argument without a label stands at a member that has the same position among the members with
a type, or at one without a type when there are not as many with one. -/
def AtTyped (site : CallSite) (members : List (String × Bool)) : Prop :=
  ∀ a ∈ site.given, a.label = none →
    (members.filter Prod.snd)[a.position]? = members[a.position]?.filter Prod.snd

instance (site : CallSite) (members : List (String × Bool)) : Decidable (site.AtTyped members) :=
  inferInstanceAs (Decidable (∀ a ∈ site.given, a.label = none →
    (members.filter Prod.snd)[a.position]? = members[a.position]?.filter Prod.snd))

end CallSite

/-! ## What inference asks for -/

namespace Generator

variable {g : Generator}

/-- Constraints do not change which terms nodes have. -/
@[simp] theorem nodeTerm_constrainKnown (head tail : Option Term) (id : NodeId) (g : Generator) :
    (g.constrainKnown head tail).nodeTerm id = g.nodeTerm id := by
  cases head <;> cases tail <;> rfl

/-- A constraint is added at the end, when both of its sides are known. -/
theorem constraints_constrainKnown (head tail : Option Term) (g : Generator) :
    (g.constrainKnown head tail).inference.constraints = g.inference.constraints ++
      (head.bind fun head => tail.map fun tail => (⟨head, tail⟩ : Constraint)).toList := by
  cases head <;> cases tail <;> first | rfl | exact (List.append_nil _).symm

/-- The constraints of a call are those of its arguments, in order. -/
theorem constraints_constrainArguments (formals : List Formal) (position : Nat)
    (arguments : List Argument) (g : Generator) :
    (constrainArguments formals position arguments g).inference.constraints =
      g.inference.constraints ++
        (Argument.given position arguments).filterMap (GivenArgument.constraint? formals g) := by
  induction arguments generalizing position g with
  | nil => exact (List.append_nil _).symm
  | cons argument rest ih =>
    cases argument with
    | placeholder id => exact ih (position + 1) g
    | argument id label expression =>
      have hsame : ∀ head tail, GivenArgument.constraint? formals (g.constrainKnown head tail) =
          GivenArgument.constraint? formals g := by
        intro head tail
        funext a
        rw [GivenArgument.constraint?, nodeTerm_constrainKnown, GivenArgument.constraint?]
      rw [constrainArguments, ih, hsame, constraints_constrainKnown, Option.bind_map,
        List.append_assoc, Argument.given, List.filterMap_cons]
      congr 1
      have hfirst : GivenArgument.constraint? formals g ⟨position, label, expression⟩ =
          (formalFor formals position label).bind
            ((fun head => (g.nodeTerm expression.id).map fun tail => (⟨head, tail⟩ : Constraint)) ∘
              Formal.type) := rfl
      rw [← hfirst]
      cases GivenArgument.constraint? formals g ⟨position, label, expression⟩ <;> rfl

end Generator

/-! ## Labels -/

/-- The labels of parameters are those of the members with a type. -/
def LabelsTyped (formals : List Formal) (members : List (String × Bool)) : Prop :=
  formals.map Formal.label = (members.filter Prod.snd).map fun member => some member.1

/-- The labels of the parameters of a record are those of its typed members. -/
theorem Generator.labels_memberFormals (declarations : List Declaration) (g : Generator) :
    LabelsTyped (memberFormals declarations g).1 (Declaration.members declarations) := by
  rw [LabelsTyped]
  induction declarations generalizing g with
  | nil => rfl
  | cons declaration rest ih =>
    cases declaration with
    | value id name form initializer =>
      cases form with
      | none => exact ih g
      | some form => exact congrArg (some name.name :: ·) (ih _)
    | function | enumeration | record | space | library | placeholder => exact ih g

/-- The labels of the parameters of a function. -/
theorem Generator.labels_parameterFormals (parameters : List Parameter) (g : Generator) :
    (parameterFormals parameters g).1.map Formal.label =
      (parameters.filterMap Parameter.label).map some := by
  induction parameters generalizing g with
  | nil => rfl
  | cons parameter rest ih =>
    cases parameter with
    | placeholder id => exact ih g
    | parameter id externalName localName form defaultValue =>
      exact congrArg (some (externalName.getD localName.name) :: ·) (ih _)

/-- An instance of a function type has the labels of the function type. -/
theorem Term.labels_instantiate (formals : List Formal) (result : Term) (names : NameSupply) :
    ∃ formals' result', ((Term.fn formals result).instantiate names).1 = .fn formals' result' ∧
      formals'.map Formal.label = formals.map Formal.label := by
  obtain ⟨ρ, -, -, heq⟩ := ((Term.fn formals result).isInstance_instantiate names).2
  refine ⟨_, _, heq.trans withVariables_fn, ?_⟩
  rw [List.map_map]
  refine List.map_congr_left fun formal _ => ?_
  cases formal
  rfl

namespace GivenArgument

variable {formals : List Formal} {members : List (String × Bool)} {parameter : String}

/-- A labelled argument is passed to the typed member that it names. -/
theorem parameter?_of_label (hlabels : LabelsTyped formals members)
    (hmember : (parameter, true) ∈ members) {a : GivenArgument} {label : String}
    (ha : a.label = some label) : a.parameter? formals = some parameter ↔ label = parameter := by
  rw [parameter?, formal?, ha, Generator.formalFor]
  constructor
  · intro h
    obtain ⟨formal, hfound, hlabel⟩ := Option.bind_eq_some_iff.1 h
    have hsome : formal.label = some label := by simpa using List.find?_some hfound
    exact Option.some.inj (hsome.symm.trans hlabel)
  · rintro rfl
    have hmem : some label ∈ formals.map Formal.label := by
      rw [hlabels]
      exact List.mem_map.2 ⟨(label, true), List.mem_filter.2 ⟨hmember, rfl⟩, rfl⟩
    obtain ⟨formal, hformal, hlabel⟩ := List.mem_map.1 hmem
    have hsome : (formals.find? fun formal => formal.label = some label).isSome :=
      List.find?_isSome.2 ⟨formal, hformal, by simpa using hlabel⟩
    obtain ⟨found, hfound⟩ := Option.isSome_iff_exists.1 hsome
    rw [hfound]
    simpa using List.find?_some hfound

/-- An argument without a label is passed to the typed member at its position. -/
theorem parameter?_of_no_label (hlabels : LabelsTyped formals members) {a : GivenArgument}
    (ha : a.label = none) :
    a.parameter? formals = some parameter ↔
      (members.filter Prod.snd)[a.position]? = some (parameter, true) := by
  have hlabel : a.parameter? formals = (formals.map Formal.label)[a.position]?.bind id := by
    rw [parameter?, formal?, ha, Generator.formalFor, List.getElem?_map]
    cases formals[a.position]? <;> rfl
  rw [hlabel, hlabels, List.getElem?_map]
  cases hfound : (members.filter Prod.snd)[a.position]? with
  | none => simp
  | some member =>
    obtain ⟨name, typed⟩ := member
    have htyped : typed = true := (List.mem_filter.1 (List.mem_of_getElem? hfound)).2
    simp [htyped]

end GivenArgument

/-! ## Values -/

/-- The labels and values of arguments. -/
def Valued (store : Store) : List GivenArgument → List (Option String × Value) → Prop :=
  List.Forall₂ fun a labelled =>
    labelled.1 = a.label ∧ store.find a.expression.id = some labelled.2

/-- The arguments with their values are those that the call gives, placeholders left out, each with
the value that the store has for it. -/
theorem givenArguments_valued {store : Store} {position : Nat} {arguments : List Argument}
    {given : List (Option String × Value)} (h : givenArguments store arguments = some given) :
    Valued store (Argument.given position arguments) given := by
  induction arguments generalizing position given with
  | nil =>
    cases h
    exact .nil
  | cons argument rest ih =>
    cases argument with
    | placeholder id => exact ih h
    | argument id label expression =>
      rw [givenArguments] at h
      obtain ⟨value, hvalue, h⟩ := Option.bind_eq_some_iff.1 h
      obtain ⟨values, hvalues, h⟩ := Option.bind_eq_some_iff.1 h
      cases h
      exact .cons ⟨rfl, hvalue⟩ (ih hvalues)

/-- The value of an argument is provided when nothing else overrides it. -/
theorem Store.Provides.cons {store : Store} {a : GivenArgument} {arguments : List GivenArgument}
    {otherwise used : Option Value} {value : Value}
    (hvalue : store.find a.expression.id = some value)
    (h : store.Provides arguments (some value) used) :
    store.Provides (a :: arguments) otherwise used := by
  refine .inr ?_
  rcases h with ⟨-, rfl⟩ | ⟨later, hlater, hused⟩
  · exact ⟨a, List.mem_cons_self, value, hvalue, rfl⟩
  · exact ⟨later, List.mem_cons_of_mem _ hlater, hused⟩

section Filling

variable {members : List (String × Bool)} {formals : List Formal} {parameter : String}

/-- Where names are distinct, the member at a position is known by its name. -/
theorem getElem?_eq_some_iff_name (distinct : (members.map Prod.fst).Nodup)
    (hmember : (parameter, true) ∈ members) {position : Nat} :
    members[position]?.filter Prod.snd = some (parameter, true) ↔
      (members.map Prod.fst)[position]? = some parameter := by
  rw [List.getElem?_map, Option.filter_eq_some_iff, Option.map_eq_some_iff]
  constructor
  · rintro ⟨h, -⟩
    exact ⟨_, h, rfl⟩
  · rintro ⟨member, h, rfl⟩
    have hsame : member = (member.1, true) :=
      List.inj_on_of_nodup_map distinct (List.mem_of_getElem? h) hmember rfl
    exact ⟨hsame ▸ h, rfl⟩

/-- An argument fills the typed member that inference passes it to, and no other one with a type. -/
theorem find?_fill (hlabels : LabelsTyped formals members) (distinct : (members.map Prod.fst).Nodup)
    (hmember : (parameter, true) ∈ members) {a : GivenArgument} {position : Nat}
    (hunshifted : a.label = none → a.position = position)
    (htyped : a.label = none →
      (members.filter Prod.snd)[a.position]? = members[a.position]?.filter Prod.snd)
    {slots : List Slot} (hslots : slots.map Slot.name = members.map Prod.fst) (value : Value) :
    Slot.find? parameter (Slot.fill position (a.label, value) slots) =
      if a.parameter? formals = some parameter then some (.filled parameter value)
      else Slot.find? parameter slots := by
  -- with a label both go by the name, and without one both go by the position
  cases ha : a.label with
  | some label =>
    simp only [Slot.fill, GivenArgument.parameter?_of_label hlabels hmember ha]
    by_cases heq : label = parameter
    · subst heq
      have hname : label ∈ slots.map Slot.name := hslots ▸ List.mem_map_of_mem hmember
      rw [if_pos rfl, Slot.find?_fillNamed_self hname]
    · rw [if_neg heq, Slot.find?_fillNamed_of_ne (Ne.symm heq)]
  | none =>
    -- without a label, inference counts typed members only, which `htyped` makes the position among
    -- all
    have hpassed : a.parameter? formals = some parameter ↔
        (slots.map Slot.name)[position]? = some parameter := by
      rw [GivenArgument.parameter?_of_no_label hlabels ha, htyped ha, hunshifted ha,
        getElem?_eq_some_iff_name distinct hmember, hslots]
    simp only [Slot.fill, hpassed]
    split
    · next hposition => exact Slot.find?_fillAt_self (hslots ▸ distinct) hposition value
    · next hposition => exact Slot.find?_fillAt_of_ne hposition value

/-- Filling a record passes the arguments to the typed members that inference passes them to. The
arguments are those from one on that evaluation counts as the given one. -/
theorem provides_fillMembers (hlabels : LabelsTyped formals members)
    (distinct : (members.map Prod.fst).Nodup) (hmember : (parameter, true) ∈ members)
    {store : Store} {arguments : List GivenArgument} {start : Nat}
    (hunshifted : ∀ a ∈ arguments.zipIdx start, a.1.label = none → a.1.position = a.2)
    (htyped : ∀ a ∈ arguments, a.label = none →
      (members.filter Prod.snd)[a.position]? = members[a.position]?.filter Prod.snd)
    {given : List (Option String × Value)} (hgiven : Valued store arguments given)
    {slots : List Slot} (hslots : slots.map Slot.name = members.map Prod.fst) :
    store.Provides (arguments.filter fun a => a.parameter? formals = some parameter)
      ((Slot.find? parameter slots).bind Slot.value?)
      ((Slot.find? parameter (fillMembers start given slots)).bind Slot.value?) := by
  -- by induction on the arguments: the first one fills a member, and the others find it filled
  induction hgiven generalizing start slots with
  | nil => exact .inl ⟨rfl, rfl⟩
  | @cons a argument arguments given hfirst _ ih =>
    obtain ⟨label, value⟩ := argument
    obtain ⟨rfl, hvalue⟩ := hfirst
    rw [List.zipIdx_cons, List.forall_mem_cons] at hunshifted
    rw [List.forall_mem_cons] at htyped
    have hfill := find?_fill hlabels distinct hmember hunshifted.1 htyped.1 hslots value
    have hrest := ih hunshifted.2 htyped.2
      ((Slot.map_name_fill start (a.label, value) slots).trans hslots)
    rw [hfill] at hrest
    rw [fillMembers_cons, List.filter_cons]
    -- the parameter is given this argument or not
    by_cases hpassed : a.parameter? formals = some parameter
    · rw [if_pos hpassed] at hrest
      rw [if_pos (by simpa using hpassed)]
      exact hrest.cons hvalue
    · rw [if_neg hpassed] at hrest
      rwa [if_neg (by simpa using hpassed)]

end Filling

section Applying

variable {store : Store} {arguments : List GivenArgument} {given : List (Option String × Value)}
  {formals : List Formal} {parameters : List String} {parameter : String}

/-- The arguments and what is given for them stand at the same positions. -/
theorem Valued.getElem? (h : Valued store arguments given) (position : Nat) :
    (arguments[position]? = none ∧ given[position]? = none) ∨
      ∃ a value, arguments[position]? = some a ∧ given[position]? = some (a.label, value) ∧
        store.find a.expression.id = some value := by
  induction h generalizing position with
  | nil => exact .inl ⟨rfl, rfl⟩
  | @cons a argument arguments given hfirst _ ih =>
    cases position with
    | zero =>
      obtain ⟨label, value⟩ := argument
      obtain ⟨rfl, hvalue⟩ := hfirst
      exact .inr ⟨a, value, rfl, rfl, hvalue⟩
    | succ position => exact ih position

/-- Parameters that all have a name are members with a written type each. -/
theorem labelsTyped_of_map_some (h : formals.map Formal.label = parameters.map some) :
    LabelsTyped formals (parameters.map fun name => (name, true)) := by
  rw [LabelsTyped, h, List.filter_eq_self.2, List.map_map]
  · rfl
  · exact List.forall_mem_map.2 fun _ _ => rfl

/-- A native function takes for a parameter an argument that inference passes to it. -/
theorem provides_argumentFor (hlabels : formals.map Formal.label = parameters.map some)
    (distinct : parameters.Nodup) {position : Nat}
    (hparameter : parameters[position]? = some parameter)
    (hunshifted : ∀ a ∈ arguments.zipIdx, a.1.label = none → a.1.position = a.2)
    (hgiven : Valued store arguments given) :
    store.Provides (arguments.filter fun a => a.parameter? formals = some parameter) none
      (Builtin.argumentFor given position parameter) := by
  have htyped := labelsTyped_of_map_some hlabels
  have hmember : (parameter, true) ∈ parameters.map fun name => (name, true) :=
    List.mem_map_of_mem (List.mem_of_getElem? hparameter)
  -- an argument without a label is passed to the parameter just if it stands there
  have hposition : ∀ index a, arguments[index]? = some a → a.label = none →
      (a.parameter? formals = some parameter ↔ index = position) := by
    intro index a ha hnone
    have hindex : a.position = index :=
      hunshifted (a, index) (List.mk_mem_zipIdx_iff_getElem?.2 ha) hnone
    rw [GivenArgument.parameter?_of_no_label htyped hnone, hindex, List.filter_eq_self.2
      (List.forall_mem_map.2 fun _ _ => rfl), List.getElem?_map, Option.map_eq_some_iff]
    constructor
    · rintro ⟨name, hname, heq⟩
      cases heq
      obtain ⟨hlt, -⟩ := List.getElem?_eq_some_iff.1 hname
      exact (List.getElem?_inj hlt distinct).1 (hname.trans hparameter.symm)
    · rintro rfl
      exact ⟨parameter, hparameter, rfl⟩
  rw [Builtin.argumentFor]
  cases hfound : given.find? fun argument => argument.1 = some parameter with
  | some argument =>
    obtain ⟨index, hindex⟩ := List.getElem?_of_mem (List.mem_of_find?_eq_some hfound)
    have hlabel : argument.1 = some parameter := by simpa using List.find?_some hfound
    rcases hgiven.getElem? index with ⟨-, hnone⟩ | ⟨a, value, ha, hargument, hvalue⟩
    · cases hindex.symm.trans hnone
    · cases hindex.symm.trans hargument
      have hpassed := (GivenArgument.parameter?_of_label htyped hmember hlabel).2 rfl
      exact .inr ⟨a, List.mem_filter.2 ⟨List.mem_of_getElem? ha, by simpa using hpassed⟩, value,
        hvalue, rfl⟩
  | none =>
    -- no argument has the label, so at most the one at the position is passed to the parameter
    have honly : ∀ a ∈ arguments, a.parameter? formals = some parameter →
        a.label = none ∧ arguments[position]? = some a := by
      intro a hmem hpassed
      obtain ⟨index, ha⟩ := List.getElem?_of_mem hmem
      cases hlabel : a.label with
      | none =>
        rw [← (hposition index a ha hlabel).1 hpassed]
        exact ⟨rfl, ha⟩
      | some label =>
        rw [GivenArgument.parameter?_of_label htyped hmember hlabel] at hpassed
        rcases hgiven.getElem? index with ⟨hnone, -⟩ | ⟨b, value, hb, hargument, -⟩
        · cases ha.symm.trans hnone
        · cases ha.symm.trans hb
          have habsent := List.find?_eq_none.1 hfound _ (List.mem_of_getElem? hargument)
          simp [hlabel, hpassed] at habsent
    rcases hgiven.getElem? position with ⟨hnone, hnone'⟩ | ⟨a, value, ha, hargument, hvalue⟩
    · refine .inl ⟨List.filter_eq_nil_iff.2 fun b hb hpassed => ?_, by rw [hnone']⟩
      cases hnone.symm.trans (honly b hb (by simpa using hpassed)).2
    · cases hlabel : a.label with
      | none =>
        refine .inr ⟨a, List.mem_filter.2 ⟨List.mem_of_getElem? ha, ?_⟩, value, hvalue, ?_⟩
        · simpa using (hposition position a ha hlabel).2 rfl
        · rw [hargument, hlabel]
      | some label =>
        refine .inl ⟨List.filter_eq_nil_iff.2 fun b hb hpassed => ?_, by rw [hargument, hlabel]⟩
        obtain ⟨hnone, hb'⟩ := honly b hb (by simpa using hpassed)
        cases ha.symm.trans hb'
        cases hlabel.symm.trans hnone

end Applying

/-! ## Calls -/

namespace CallSite

variable {site : CallSite} {known : Knowledge} {id : NodeId} {name : Pattern}
  {generics : List GenericParameter}

/-- Inference asks of a call what it asks of the arguments, in order. -/
theorem constraints_typeCall (site : CallSite) :
    (site.typing.typeCall site.id site.callee site.arguments).inference.constraints =
      site.typing.inference.constraints ++
        site.given.filterMap (GivenArgument.constraint? site.formals site.typing) := by
  have hnone : site.given.filterMap (GivenArgument.constraint? [] site.typing) = [] := by
    refine List.filterMap_eq_nil_iff.2 fun a _ => ?_
    rw [GivenArgument.constraint?, GivenArgument.formal?]
    cases a.label <;> rfl
  rw [Generator.typeCall, formals]
  cases site.typing.nodeTerm site.callee.id with
  | none =>
    rw [hnone, List.append_nil]
    rfl
  | some term =>
    cases term with
    | fn formals result => exact Generator.constraints_constrainArguments formals 0 _ _
    | evar | cons | gen =>
      rw [hnone, List.append_nil]
      rfl

/-- The parameters of a callee that has an instance of a function type. -/
theorem labels_formals {formals : List Formal} {result : Term} {names : NameSupply}
    (h : site.typing.nodeTerm site.callee.id =
      some ((Term.fn formals result).instantiate names).1) :
    site.formals.map Formal.label = formals.map Formal.label := by
  obtain ⟨formals', result', heq, hlabels⟩ := Term.labels_instantiate formals result names
  rw [CallSite.formals, h, heq]
  exact hlabels

/-- The labels of the parameters of a constructor are those of the typed members. -/
theorem Refers.labelsTyped {declarations : List Declaration}
    (h : site.Refers known (.record id name generics declarations) name) :
    LabelsTyped site.formals (Declaration.members declarations) := by
  obtain ⟨before, names, type, htype, hcallee⟩ := h.typed
  rw [Generator.enterDeclaration, Generator.patternTerm_setPattern, if_pos rfl] at htype
  cases htype
  exact (labels_formals hcallee).trans (Generator.labels_memberFormals declarations _)

/-- The value of a constructor holds the members of its record with their defaults. -/
theorem Refers.constructor {declarations : List Declaration}
    (h : site.Refers known (.record id name generics declarations) name)
    (distinct : ((Declaration.members declarations).map Prod.fst).Nodup) {function : Value}
    (hfunction : site.store.find site.callee.id = some function) :
    ∃ type defaults, function = .mk type (.function (.constructor defaults)) ∧
      defaults.map Slot.name = (Declaration.members declarations).map Prod.fst := by
  obtain ⟨nested, before, hnone, hcallee⟩ := h.valued
  rw [hfunction, Evaluator.enterDeclaration, Evaluator.enterRecord] at hcallee
  split at hcallee
  · cases hcallee.trans hnone
  · rw [Table.find_put_self] at hcallee
    exact ⟨_, _, Option.some.inj hcallee,
      Evaluator.map_name_members _ declarations ([], before) distinct⟩

/-- A call that has a value is one of a function with a value for each argument. -/
theorem callValue_eq_some {value : Value}
    (h : Evaluator.callValue known site.id site.callee site.arguments site.store = some value) :
    ∃ function given, site.store.find site.callee.id = some function ∧
      givenArguments site.store site.arguments = some given ∧
      function.call? (known.nodeType site.id) given = some value := by
  obtain ⟨function, hfunction, h⟩ := Option.bind_eq_some_iff.1 h
  obtain ⟨given, hgiven, h⟩ := Option.bind_eq_some_iff.1 h
  exact ⟨function, given, hfunction, hgiven, h⟩

/-- A call of a constructor fills the members as inference passes the arguments. -/
theorem fillsAsTyped {declarations : List Declaration}
    (h : site.Refers known (.record id name generics declarations) name)
    (distinct : ((Declaration.members declarations).map Prod.fst).Nodup)
    (hunshifted : site.Unshifted) (htyped : site.AtTyped (Declaration.members declarations)) :
    site.FillsAsTyped known (Declaration.members declarations) := by
  intro value hvalue
  obtain ⟨function, given, hfunction, hgiven, hcall⟩ := callValue_eq_some hvalue
  obtain ⟨type, defaults, rfl, hnames⟩ := h.constructor distinct hfunction
  cases hcall
  refine ⟨defaults, _, by rw [hfunction]; rfl, rfl, fun member hmember => ?_⟩
  exact provides_fillMembers h.labelsTyped distinct hmember hunshifted htyped
    (givenArguments_valued hgiven) hnames

/-- A call of a native function applies it as inference passes the arguments. -/
theorem appliesAsTyped {result : TypeForm} {parameters : List Parameter} {block : List Statement}
    {builtin : Builtin}
    (h : site.Refers known (.function id name result generics parameters block) name)
    (hbuiltin : known.builtinFor name.id = some builtin)
    (hlabels : parameters.filterMap Parameter.label = builtin.parameters)
    (hunshifted : site.Unshifted) : site.AppliesAsTyped known builtin := by
  intro value hvalue
  obtain ⟨function, given, hfunction, hgiven, hcall⟩ := callValue_eq_some hvalue
  obtain ⟨nested, stored, -, hcallee⟩ := h.valued
  rw [hfunction, Evaluator.enterDeclaration, Evaluator.functionValue, hbuiltin] at hcallee
  have hnative : (Store.putKnown name.id (some (.mk ((known.patternType name.id).getD .unit)
      (.function (.builtin builtin)))) stored).find name.id = _ := Table.find_put_self _ _ _
  obtain rfl := Option.some.inj (hcallee.trans hnative)
  refine ⟨given, hgiven, hcall, fun position parameter hparameter => ?_⟩
  obtain ⟨before, names, type, htype, hterm⟩ := h.typed
  rw [Generator.enterDeclaration, Generator.patternTerm_setPattern, if_pos rfl] at htype
  cases htype
  have hformals : site.formals.map Formal.label = builtin.parameters.map some := by
    rw [labels_formals hterm, Generator.labels_parameterFormals, hlabels]
  have hdistinct : builtin.parameters.Nodup := by cases builtin <;> decide
  exact provides_argumentFor hformals hdistinct hparameter hunshifted (givenArguments_valued hgiven)

/-- Arguments with a term are constrained where they are passed. -/
theorem constrainedTo_eq {parameter : String}
    (h : ∀ a ∈ site.given, (site.typing.nodeTerm a.expression.id).isSome) :
    site.constrainedTo parameter = site.passedTo parameter := by
  refine List.filter_eq_self.2 fun a ha => ?_
  obtain ⟨hgiven, hpassed⟩ := List.mem_filter.1 ha
  obtain ⟨term, hterm⟩ := Option.isSome_iff_exists.1 (h a hgiven)
  obtain ⟨formal, hformal, -⟩ := Option.bind_eq_some_iff.1 (of_decide_eq_true hpassed)
  rw [GivenArgument.constraint?, hformal, hterm]
  rfl

/-- Inference constrains the arguments that it passes to parameters, if they have terms. As long as
no argument without a label stands after a placeholder, evaluation passes the arguments alike: to
the members of a record that have a type, if those without one do not shift them, and to the
parameters of a native function that is declared with them. -/
theorem passes_alike (site : CallSite) (known : Knowledge) :
    (site.typing.typeCall site.id site.callee site.arguments).inference.constraints =
        site.typing.inference.constraints ++
          site.given.filterMap (GivenArgument.constraint? site.formals site.typing) ∧
      ((∀ a ∈ site.given, (site.typing.nodeTerm a.expression.id).isSome) →
        ∀ parameter, site.constrainedTo parameter = site.passedTo parameter) ∧
      (site.Unshifted →
        (∀ id name generics declarations,
          site.Refers known (.record id name generics declarations) name →
          ((Declaration.members declarations).map Prod.fst).Nodup →
          site.AtTyped (Declaration.members declarations) →
          site.FillsAsTyped known (Declaration.members declarations)) ∧
        ∀ id name result generics parameters block builtin,
          site.Refers known (.function id name result generics parameters block) name →
          known.builtinFor name.id = some builtin →
          parameters.filterMap Parameter.label = builtin.parameters →
          site.AppliesAsTyped known builtin) := by
  refine ⟨site.constraints_typeCall, fun hterms parameter => constrainedTo_eq hterms,
    fun hunshifted => ⟨?_, ?_⟩⟩
  · intro id name generics declarations h distinct htyped
    exact fillsAsTyped h distinct hunshifted htyped
  · intro id name result generics parameters block builtin h hbuiltin hlabels
    exact appliesAsTyped h hbuiltin hlabels hunshifted

/-- A call does not fill the members as inference passes the arguments where an argument is passed
to a member with a type that has no value afterwards. -/
theorem not_fillsAsTyped {members : List (String × Bool)} (defaults : List Slot)
    (given : List (Option String × Value)) (member : String)
    (hcallee : (site.store.find site.callee.id).bind Value.asCallable =
      some (.constructor defaults))
    (hgiven : givenArguments site.store site.arguments = some given)
    (hmember : (member, true) ∈ members) (hpassed : (site.passedTo member).isEmpty = false)
    (hvacant : (Slot.find? member (fillMembers 0 given defaults)).bind Slot.value? = none) :
    ¬ site.FillsAsTyped known members := by
  intro hfills
  obtain ⟨function, hfunction, hcallable⟩ := Option.bind_eq_some_iff.1 hcallee
  have hvalue : Evaluator.callValue known site.id site.callee site.arguments site.store =
      function.call? (known.nodeType site.id) given := by
    rw [Evaluator.callValue, hfunction, hgiven]
    rfl
  rw [Value.call?, hcallable] at hvalue
  obtain ⟨_, _, -, hfilled, hprovides⟩ := hfills _ hvalue
  cases hfilled
  rcases hprovides member hmember with ⟨hnone, -⟩ | ⟨-, -, value, -, hused⟩
  · rw [hnone] at hpassed
    cases hpassed
  · cases hvacant.symm.trans hused

end CallSite

/-- The path and the labels of the parameters of a function that stands alone in a namespace. -/
def Statement.nativeSignature? : Statement → Option (List String × List String)
  | .declaration _ (.space _ outer [.function _ name _ _ parameters _]) =>
    some ([outer.name, name.name], parameters.filterMap Parameter.label)
  | _ => none

/-- The prelude declares the native functions with their own parameters. -/
theorem prelude_nativeSignatures : prelude.block.filterMap Statement.nativeSignature? =
    Builtin.all.map fun builtin => (builtin.segments, builtin.parameters) := by
  decide +kernel

/-! ## Calls where the two ways of counting agree, and calls where they do not -/

/-- A program of a declaration and a call. -/
structure CallProgram where
  declaration : Declaration
  callee : Expression
  arguments : List Argument

namespace CallProgram

variable (p : CallProgram)

def program : Program where
  id := .ofNat 0
  block := [.declaration (.ofNat 1) p.declaration,
    .expression (.ofNat 2) (.call (.ofNat 3) p.callee p.arguments)]

/-- What evaluation knows where unification finds nothing out. -/
def knowledge : Knowledge where
  scope := p.program.resolve none
  inference := p.program.infer (p.program.resolve none)
  substitution := .empty

/-- The call, with the states that inference and evaluation end in. -/
def site : CallSite where
  id := .ofNat 3
  callee := p.callee
  arguments := p.arguments
  typing := p.program.walk Generator.visit { scope := p.program.resolve none }
  store := p.program.evaluate p.knowledge

end CallProgram

/-- A type without arguments, which takes two ids. -/
def plainType (id : Nat) (name : String) : TypeForm :=
  .named (.ofNat id) ⟨.ofNat (id + 1), name, false⟩ []

/-- `name: type`, or only `name`. -/
def memberOf (id : Nat) (name : String) (type : Option String) : Declaration :=
  .value (.ofNat id) ⟨.ofNat (id + 1), name⟩ (type.map (plainType (id + 2))) none

/-- A text as an argument, with or without a label. -/
def textArgument (id : Nat) (label : Option String) (text : String) : Argument :=
  .argument (.ofNat id) label (.literal (.ofNat (id + 1)) (.string (.ofNat (id + 2)) text))

/-- `record R { … } R(…)` -/
def recordCall (members : List Declaration) (arguments : List Argument) : CallProgram where
  declaration := .record (.ofNat 10) ⟨.ofNat 11, "R"⟩ [] members
  callee := .identifier (.ofNat 12) ⟨.ofNat 13, "R", false⟩
  arguments

/-- `function concat(a: String, b: String): String {}` -/
def concatFunction : Declaration :=
  .function (.ofNat 12) ⟨.ofNat 13, "concat"⟩ (plainType 14 "String") []
    [.parameter (.ofNat 20) none ⟨.ofNat 21, "a"⟩ (plainType 22 "String") none,
      .parameter (.ofNat 30) none ⟨.ofNat 31, "b"⟩ (plainType 32 "String") none] []

/-- `space String { function concat … } String.concat(…)` -/
def concatCall (arguments : List Argument) : CallProgram where
  declaration := .space (.ofNat 10) ⟨.ofNat 11, "String"⟩ [concatFunction]
  callee := .member (.ofNat 16) (.identifier (.ofNat 17) ⟨.ofNat 18, "String", false⟩)
    ⟨.ofNat 19, "concat", false⟩
  arguments

/-- `a: String`, `x` and `b: String`, as members -/
def mixedMembers : List Declaration :=
  [memberOf 20 "a" (some "String"), memberOf 30 "x" none, memberOf 40 "b" (some "String")]

/-- `R("s", _, b: "t")` -/
def mixedCall : CallProgram :=
  recordCall mixedMembers [textArgument 50 none "s", .placeholder (.ofNat 60),
    textArgument 70 (some "b") "t"]

/-- `String.concat(b: "t", a: "s")` -/
def swappedCall : CallProgram :=
  concatCall [textArgument 40 (some "b") "t", textArgument 50 (some "a") "s"]

section Evaluating

variable {p : CallProgram} {known : Knowledge} {members : List Declaration}
  {arguments : List Argument}

/-- A text that is passed is written under its own two ids only. -/
theorem find_evaluate_textArgument (id : Nat) (label : Option String) (text : String)
    {other : NodeId} (h : other ≠ .ofNat (id + 1)) (h' : other ≠ .ofNat (id + 2)) (store : Store) :
    ((textArgument id label text).evaluate known store).find other = store.find other := by
  rw [textArgument, Argument.evaluate, Expression.evaluate]
  exact (Store.find_putKnown_of_ne h _ _).trans (Store.find_putKnown_of_ne h' _ _)

/-- A text that is passed last is the value of its argument. -/
theorem find_evaluate_textArgument_self (id : Nat) (label : Option String) (text : String)
    (store : Store) :
    ((textArgument id label text).evaluate known store).find (.ofNat (id + 1)) =
      some (.string text) := by
  rw [textArgument, Argument.evaluate, Expression.evaluate]
  exact Table.find_put_self _ _ _

/-- A text alone is given with its label. -/
theorem givenArguments_textArgument {id : Nat} {label : Option String} {text : String}
    {store : Store} {value : Value} (h : store.find (.ofNat (id + 1)) = some value) :
    givenArguments store [textArgument id label text] = some [(label, value)] := by
  rw [textArgument, givenArguments, Expression.id, h]
  rfl

/-- The declaration of a record puts its constructor into the store. -/
theorem exists_enterRecord_eq_put (known : Knowledge) (members : List Declaration)
    (evaluate : Expression → Store → Store) :
    ∃ value before, Evaluator.enterRecord known evaluate ⟨.ofNat 11, "R"⟩ members [] =
      Table.put (.ofNat 11) value before := by
  rw [Evaluator.enterRecord, if_neg (by decide)]
  exact ⟨_, _, rfl⟩

/-- The evaluation of a record and a call of it: the declaration, the callee, the arguments and then
the call itself. -/
theorem exists_evaluate_recordCall (known : Knowledge) (members : List Declaration)
    (arguments : List Argument) :
    ∃ called constructed,
      constructed =
        Evaluator.enterRecord known (Expression.evaluate known) ⟨.ofNat 11, "R"⟩ members [] ∧
      (recordCall members arguments).program.evaluate known =
        Store.putKnown (.ofNat 3) called (Argument.evaluateAll known arguments
          (Store.putKnown (.ofNat 12) (Evaluator.referred known (.ofNat 12) constructed)
            constructed)) := by
  rw [Program.evaluate_eq]
  exact ⟨_, _, rfl, rfl⟩

/-- A callee that refers to the record has the constructor for its value, if the arguments are not
written under its id. -/
theorem find_evaluate_recordCall (hcallee : known.scope.patternFor (.ofNat 12) = some (.ofNat 11))
    (hkeeps : ∀ store, (Argument.evaluateAll known arguments store).find (.ofNat 12) =
      store.find (.ofNat 12)) :
    ((recordCall members arguments).program.evaluate known).find (.ofNat 12) =
      (Evaluator.enterRecord known (Expression.evaluate known) ⟨.ofNat 11, "R"⟩ members []).find
        (.ofNat 11) := by
  obtain ⟨called, constructed, hconstructed, hstore⟩ :=
    exists_evaluate_recordCall known members arguments
  obtain ⟨value, before, hput⟩ :=
    exists_enterRecord_eq_put known members (Expression.evaluate known)
  rw [hstore, Store.find_putKnown_of_ne (by decide), hkeeps, Store.find_putKnown_self,
    Evaluator.referred, hcallee, Option.bind_some, hconstructed, hput, Table.find_put_self,
    Option.some_or]

/-- So the callee reads the declaration of the record. -/
theorem valued_recordCall (hp : p = recordCall members arguments)
    (hcallee : p.knowledge.scope.patternFor (.ofNat 12) = some (.ofNat 11))
    (hkeeps : ∀ known store, (Argument.evaluateAll known arguments store).find (.ofNat 12) =
      store.find (.ofNat 12)) :
    ∃ (nested : Outline → Store → Store) (before : Store), before.find (.ofNat 11) = none ∧
      p.site.store.find p.site.callee.id =
        (Evaluator.enterDeclaration p.knowledge nested p.declaration {} before).2.find
          (.ofNat 11) := by
  refine ⟨fun outline => outline.tour (Evaluator.visit p.knowledge fun _ store => store), [], rfl,
    ?_⟩
  have hnested : (fun default : Expression =>
      default.outline.tour (Evaluator.visit p.knowledge fun _ store => store)) =
        Expression.evaluate p.knowledge := funext fun default => funext default.tour_visit
  rw [CallProgram.site]
  -- what inference and resolution come to is not looked into
  generalize p.knowledge = known at hcallee hnested ⊢
  subst hp
  refine (find_evaluate_recordCall hcallee (hkeeps known)).trans ?_
  rw [recordCall, Evaluator.enterDeclaration, hnested]

/-- A callee that refers to the function in the namespace has what the declaration gives to it, if
the arguments are not written under the callee's id. -/
theorem find_evaluate_concatCall (hcallee : known.scope.patternFor (.ofNat 16) = some (.ofNat 13))
    (hkeeps : ∀ store, (Argument.evaluateAll known arguments store).find (.ofNat 16) =
      store.find (.ofNat 16)) :
    ((concatCall arguments).program.evaluate known).find (.ofNat 16) =
      (Store.putKnown (.ofNat 13) (Evaluator.functionValue known ⟨.ofNat 13, "concat"⟩) []).find
        (.ofNat 13) := by
  generalize hdeclared :
    Store.putKnown (.ofNat 13) (Evaluator.functionValue known ⟨.ofNat 13, "concat"⟩) [] = declared
  have hnew : declared.find (.ofNat 16) = none := by
    rw [← hdeclared, Store.find_putKnown_of_ne (by decide)]
    rfl
  obtain ⟨based, called, hstore⟩ : ∃ based called,
      (concatCall arguments).program.evaluate known =
        Store.putKnown (.ofNat 3) called (Argument.evaluateAll known arguments
          (Store.putKnown (.ofNat 16) (Evaluator.referred known (.ofNat 16)
            (declared.putKnown (.ofNat 17) based)) (declared.putKnown (.ofNat 17) based))) := by
    rw [Program.evaluate_eq, ← hdeclared]
    exact ⟨_, _, rfl⟩
  rw [hstore, Store.find_putKnown_of_ne (by decide), hkeeps, Store.find_putKnown_self,
    Evaluator.referred, hcallee, Option.bind_some, Store.find_putKnown_of_ne (by decide),
    Store.find_putKnown_of_ne (by decide), hnew, Option.or_none]

/-- So the callee reads the declaration of the function. -/
theorem valued_concatCall (hp : p = concatCall arguments)
    (hcallee : p.knowledge.scope.patternFor (.ofNat 16) = some (.ofNat 13))
    (hkeeps : ∀ known store, (Argument.evaluateAll known arguments store).find (.ofNat 16) =
      store.find (.ofNat 16)) :
    ∃ (nested : Outline → Store → Store) (before : Store), before.find (.ofNat 13) = none ∧
      p.site.store.find p.site.callee.id =
        (Evaluator.enterDeclaration p.knowledge nested concatFunction {} before).2.find
          (.ofNat 13) := by
  refine ⟨fun _ store => store, [], rfl, ?_⟩
  rw [CallProgram.site]
  generalize p.knowledge = known at hcallee ⊢
  subst hp
  have hid : (concatCall arguments).callee.id = .ofNat 16 := rfl
  dsimp only
  rw [hid, find_evaluate_concatCall hcallee (hkeeps known), concatFunction,
    Evaluator.enterDeclaration]

end Evaluating

/-- The call of a record that has a member without a written type reads that record's
declaration. -/
theorem refers_mixedCall :
    mixedCall.site.Refers mixedCall.knowledge mixedCall.declaration ⟨.ofNat 11, "R"⟩ where
  typed := ⟨{ scope := {} }, .start, .fn [⟨some "a", .string⟩, ⟨some "b", .string⟩] (.named "R"),
    by decide +kernel, by decide +kernel⟩
  valued := valued_recordCall rfl (by decide +kernel) fun _ store =>
    (find_evaluate_textArgument 70 (some "b") "t" (by decide) (by decide) _).trans
      (find_evaluate_textArgument 50 none "s" (by decide) (by decide) store)

/-- The call with swapped labels reads the native function. -/
theorem refers_swappedCall :
    swappedCall.site.Refers swappedCall.knowledge concatFunction ⟨.ofNat 13, "concat"⟩ where
  typed := ⟨{ scope := {} }, .start, .fn [⟨some "a", .string⟩, ⟨some "b", .string⟩] .string,
    by decide +kernel, by decide +kernel⟩
  valued := valued_concatCall rfl (by decide +kernel) fun _ store =>
    (find_evaluate_textArgument 50 (some "a") "s" (by decide) (by decide) _).trans
      (find_evaluate_textArgument 40 (some "b") "t" (by decide) (by decide) store)

/-- Both calls pass their arguments alike: one to a record of which a member has no written type,
and one to a native function with the labels in another order. -/
theorem passes_alike_mixed :
    mixedCall.site.FillsAsTyped mixedCall.knowledge (Declaration.members mixedMembers) ∧
      swappedCall.site.AppliesAsTyped swappedCall.knowledge .stringConcat := by
  obtain ⟨-, -, hrecord⟩ := CallSite.passes_alike mixedCall.site mixedCall.knowledge
  obtain ⟨-, -, hnative⟩ := CallSite.passes_alike swappedCall.site swappedCall.knowledge
  constructor
  · exact (hrecord (by decide +kernel)).1 _ _ _ _ refers_mixedCall (by decide +kernel)
      (by decide +kernel)
  · exact (hnative (by decide +kernel)).2 _ _ _ _ _ _ _ refers_swappedCall (by decide +kernel)
      (by decide +kernel)

/-- `R(_, "s")` after `record R { a: Number; b: String }`. -/
def shiftedCall : CallProgram :=
  recordCall [memberOf 20 "a" (some "Number"), memberOf 30 "b" (some "String")]
    [.placeholder (.ofNat 40), textArgument 50 none "s"]

/-- `R("s")` after `record R { a; b: String }`. -/
def untypedCall : CallProgram :=
  recordCall [memberOf 20 "a" none, memberOf 30 "b" (some "String")] [textArgument 50 none "s"]

/-- The call with a placeholder in front reads the declaration of the record. -/
theorem refers_shiftedCall :
    shiftedCall.site.Refers shiftedCall.knowledge shiftedCall.declaration ⟨.ofNat 11, "R"⟩ where
  typed := ⟨{ scope := {} }, .start, .fn [⟨some "a", .number⟩, ⟨some "b", .string⟩] (.named "R"),
    by decide +kernel, by decide +kernel⟩
  valued := valued_recordCall rfl (by decide +kernel) fun _ store =>
    find_evaluate_textArgument 50 none "s" (by decide) (by decide) store

/-- The call without labels reads the declaration of the record. -/
theorem refers_untypedCall :
    untypedCall.site.Refers untypedCall.knowledge untypedCall.declaration ⟨.ofNat 11, "R"⟩ where
  typed := ⟨{ scope := {} }, .start, .fn [⟨some "b", .string⟩] (.named "R"),
    by decide +kernel, by decide +kernel⟩
  valued := valued_recordCall rfl (by decide +kernel) fun _ store =>
    find_evaluate_textArgument 50 none "s" (by decide) (by decide) store

/-- Where inference passes the text to `b`, as the second member or as the one with a type,
evaluation fills `a` with it all the same. -/
theorem not_fillsAsTyped_recordCall {p : CallProgram} {type : Option String}
    {members : List Declaration} {arguments : List Argument} (hp : p = recordCall members arguments)
    (hmembers : members = [memberOf 20 "a" type, memberOf 30 "b" (some "String")])
    (harguments : arguments = [textArgument 50 none "s"] ∨
      arguments = [.placeholder (.ofNat 40), textArgument 50 none "s"])
    (hcallee : p.knowledge.scope.patternFor (.ofNat 12) = some (.ofNat 11))
    (hpassed : (p.site.passedTo "b").isEmpty = false) :
    ¬ p.site.FillsAsTyped p.knowledge (Declaration.members members) := by
  have hmember : ("b", true) ∈ Declaration.members members := by
    rw [hmembers]
    exact List.mem_cons_of_mem _ List.mem_cons_self
  refine CallSite.not_fillsAsTyped [.vacant "a", .vacant "b"] [(none, .string "s")] "b" ?_ ?_
    hmember hpassed rfl
  · -- the callee has a constructor without defaults
    rw [CallProgram.site]
    generalize p.knowledge = known at hcallee ⊢
    subst hp
    have hkeeps : ∀ store, (Argument.evaluateAll known arguments store).find (.ofNat 12) =
        store.find (.ofNat 12) := by
      intro store
      rcases harguments with rfl | rfl <;>
        exact find_evaluate_textArgument 50 none "s" (by decide) (by decide) store
    have hid : (recordCall members arguments).callee.id = .ofNat 12 := rfl
    dsimp only
    rw [hid, find_evaluate_recordCall hcallee hkeeps, Evaluator.enterRecord, if_neg (by decide),
      hmembers]
    rfl
  · -- a placeholder in front is not given
    rw [CallProgram.site]
    generalize p.knowledge = known
    subst hp
    obtain ⟨called, constructed, -, hstore⟩ := exists_evaluate_recordCall known members arguments
    have htext : ((recordCall members arguments).program.evaluate known).find (.ofNat 51) =
        some (.string "s") := by
      rw [hstore, Store.find_putKnown_of_ne (by decide)]
      rcases harguments with rfl | rfl <;> exact find_evaluate_textArgument_self 50 none "s" _
    dsimp only
    rcases harguments with rfl | rfl <;> exact givenArguments_textArgument htext

/-- Inference passes the argument of either call to `b`, and evaluation fills `a` with it. So
neither the condition on placeholders nor the one on members without a type can be left out. -/
theorem not_forall_fillsAsTyped :
    (¬ ∀ (site : CallSite) known id name generics declarations,
      site.Refers known (.record id name generics declarations) name →
      ((Declaration.members declarations).map Prod.fst).Nodup →
      site.AtTyped (Declaration.members declarations) →
      site.FillsAsTyped known (Declaration.members declarations)) ∧
    ¬ ∀ (site : CallSite) known id name generics declarations,
      site.Refers known (.record id name generics declarations) name →
      ((Declaration.members declarations).map Prod.fst).Nodup → site.Unshifted →
      site.FillsAsTyped known (Declaration.members declarations) := by
  constructor
  · intro h
    have hfills := h _ _ _ _ _ _ refers_shiftedCall (by decide +kernel) (by decide +kernel)
    exact not_fillsAsTyped_recordCall rfl rfl (.inr rfl) (by decide +kernel) (by decide +kernel)
      hfills
  · intro h
    have hfills := h _ _ _ _ _ _ refers_untypedCall (by decide +kernel) (by decide +kernel)
    exact not_fillsAsTyped_recordCall rfl rfl (.inl rfl) (by decide +kernel) (by decide +kernel)
      hfills

end TreeLang
