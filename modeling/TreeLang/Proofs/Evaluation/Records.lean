import Mathlib.Data.List.Induction
import TreeLang.Proofs.Evaluation.Members
import TreeLang.Proofs.Term.Freshness

/-!
# The shape of records

A record has the variables that are declared for it as its members, each of them once and in the
order of their first declarations. Its constructor holds their defaults, and a call puts the
arguments that are directed to members over these.
-/

namespace TreeLang

namespace Slot

/-! ## Members by their names -/

/-- The members with some names, and with a value for each name or without one. -/
def table (names : List String) (values : String → Option Value) : List Slot :=
  names.map fun name => ofOption name (values name)

variable {names : List String} {values values' : String → Option Value}

/-- A table of slots has one for each name, in their order. -/
theorem table_cons (first : String) (rest : List String) (values : String → Option Value) :
    table (first :: rest) values = ofOption first (values first) :: table rest values := rfl

/-- A table depends on the values of its names only. -/
theorem table_congr (h : ∀ name ∈ names, values name = values' name) :
    table names values = table names values' :=
  List.map_congr_left fun name hname => by rw [h name hname]

/-- Where names are distinct, a member that is declared again keeps its place, and a new one comes
last. -/
theorem declare_table (distinct : names.Nodup) (name : String) (value : Option Value) :
    declare (ofOption name value) (table names values) =
      table (if name ∈ names then names else names ++ [name])
        (fun other => if name = other then value else values other) := by
  induction names with
  | nil => simp [table, declare]
  | cons first rest ih =>
    obtain ⟨hnew, hrest⟩ := List.nodup_cons.1 distinct
    rw [table_cons, declare, name_ofOption, name_ofOption]
    by_cases hname : first = name
    · subst hname
      rw [if_pos rfl, if_pos List.mem_cons_self, table_cons, if_pos rfl]
      refine congrArg _ (table_congr fun other hother => (if_neg ?_).symm)
      exact fun heq => hnew (heq ▸ hother)
    · rw [if_neg hname, ih hrest]
      by_cases hmem : name ∈ rest
      · rw [if_pos hmem, if_pos (List.mem_cons_of_mem _ hmem), table_cons,
          if_neg (Ne.symm hname)]
      · have hnot : name ∉ first :: rest := fun h =>
          hmem ((List.mem_cons.1 h).resolve_left (Ne.symm hname))
        rw [if_neg hmem, if_neg hnot, List.cons_append, table_cons, if_neg (Ne.symm hname)]

/-- A member is filled under its name. -/
theorem fillNamed_table (distinct : names.Nodup) (name : String) (value : Value) :
    fillNamed name value (table names values) =
      table names fun other => if name = other then some value else values other := by
  induction names with
  | nil => rfl
  | cons first rest ih =>
    obtain ⟨hnew, hrest⟩ := List.nodup_cons.1 distinct
    rw [table_cons, table_cons, fillNamed, name_ofOption]
    by_cases hname : first = name
    · subst hname
      rw [if_pos rfl, if_pos rfl]
      refine congrArg _ (table_congr fun other hother => (if_neg ?_).symm)
      exact fun heq => hnew (heq ▸ hother)
    · rw [if_neg hname, if_neg (Ne.symm hname), ih hrest]

/-- A member is filled at its position. -/
theorem fillAt_table (distinct : names.Nodup) (position : Nat) (value : Value) :
    fillAt position value (table names values) =
      table names fun other =>
        if names[position]? = some other then some value else values other := by
  induction names generalizing position with
  | nil => rw [table, List.map_nil, fillAt, table, List.map_nil]
  | cons first rest ih =>
    obtain ⟨hnew, hrest⟩ := List.nodup_cons.1 distinct
    rw [table_cons, table_cons]
    cases position with
    | zero =>
      rw [fillAt, name_ofOption, List.getElem?_cons_zero, if_pos rfl]
      refine congrArg _ (table_congr fun other hother => (if_neg ?_).symm)
      exact fun heq => hnew (Option.some.inj heq ▸ hother)
    | succ position =>
      have hfirst : rest[position]? ≠ some first := fun heq => hnew (List.mem_of_getElem? heq)
      rw [fillAt, ih hrest, List.getElem?_cons_succ, if_neg hfirst]

/-- The member that an argument goes to is that of its label, or else the one at its position. -/
theorem fill_table (distinct : names.Nodup) (position : Nat) (argument : Option String × Value) :
    fill position argument (table names values) =
      table names fun name =>
        if argument.1.or names[position]? = some name then some argument.2 else values name := by
  obtain ⟨label, value⟩ := argument
  cases label with
  | none =>
    simp only [fill, Option.none_or]
    exact fillAt_table distinct position value
  | some label =>
    simp only [fill, Option.some_or, Option.some.injEq]
    exact fillNamed_table distinct label value

end Slot

/-! ## Arguments -/

/-- The value of the last argument that is directed to a member, where the first argument stands at
a position: an argument with a label is directed to the member of that name, and one without to the
member at its position. -/
def lastDirected (names : List String) (position : Nat) (given : List (Option String × Value))
    (name : String) : Option Value :=
  ((given.zipIdx position).filter fun argument =>
    argument.1.1.or names[argument.2]? = some name).getLast?.map (·.1.2)

/-- The last argument that is directed to a member is one of the later ones, unless none of them
is. -/
theorem lastDirected_cons (names : List String) (position : Nat)
    (argument : Option String × Value) (rest : List (Option String × Value)) (name : String) :
    lastDirected names position (argument :: rest) name =
      (lastDirected names (position + 1) rest name).or
        (if argument.1.or names[position]? = some name then some argument.2 else none) := by
  rw [lastDirected, lastDirected, List.zipIdx_cons, List.filter_cons]
  split
  · next hdirected =>
    rw [if_pos (of_decide_eq_true hdirected), List.getLast?_cons]
    cases (List.filter _ (rest.zipIdx (position + 1))).getLast? <;> rfl
  · next hdirected =>
    rw [if_neg fun h => hdirected (decide_eq_true h), Option.or_none]

/-- A call of a constructor puts the last argument that is directed to a member over its default. -/
theorem fillMembers_table {names : List String} {values : String → Option Value}
    (distinct : names.Nodup) (position : Nat) (given : List (Option String × Value)) :
    fillMembers position given (Slot.table names values) =
      Slot.table names fun name => (lastDirected names position given name).or (values name) := by
  induction given generalizing position values with
  | nil => rfl
  | cons argument rest ih =>
    rw [fillMembers_cons, Slot.fill_table distinct, ih]
    refine Slot.table_congr fun name _ => ?_
    rw [lastDirected_cons, Option.or_assoc]
    congr 1
    split <;> rfl

/-! ## Defaults -/

/-- The variables that a record declares, with the values of their defaults: each default is
evaluated after those before it, from the store that the declaration is entered with. -/
def Declaration.defaults (evaluate : Expression → Store → Store) :
    List Declaration → Store → List (String × Option Value)
  | [], _ => []
  | .value _ name _ (some initializer) :: rest, store =>
    (name.name, (evaluate initializer store).find initializer.id) ::
      Declaration.defaults evaluate rest (evaluate initializer store)
  | .value _ name _ none :: rest, store =>
    (name.name, none) :: Declaration.defaults evaluate rest store
  | _ :: rest, store => Declaration.defaults evaluate rest store

/-- The default of a member: the one of its last declaration counts. -/
def lastDefault (defaults : List (String × Option Value)) (name : String) : Option Value :=
  (defaults.filter fun default => default.1 = name).getLast?.bind Prod.snd

/-- The last default of a name counts. -/
theorem lastDefault_concat (defaults : List (String × Option Value))
    (default : String × Option Value) (name : String) :
    lastDefault (defaults ++ [default]) name =
      if default.1 = name then default.2 else lastDefault defaults name := by
  rw [lastDefault, lastDefault, List.filter_append]
  by_cases hname : default.1 = name
  · have hlast : [default].filter (fun default => decide (default.1 = name)) = [default] := by
      simp [hname]
    rw [if_pos hname, hlast, List.getLast?_concat, Option.bind_some]
  · have hnone : [default].filter (fun default => decide (default.1 = name)) = [] := by
      simp [hname]
    rw [if_neg hname, hnone, List.append_nil]

/-- No name is left twice when repetitions are erased. -/
theorem nodup_eraseDups (names : List String) : names.eraseDups.Nodup := by
  induction names using List.reverseRecOn with
  | nil => exact .nil
  | append_singleton names name ih =>
    rw [eraseDups_concat]
    split
    · exact ih
    · next hnew =>
      rw [← List.concat_eq_append]
      exact ih.concat fun hmem => hnew (List.mem_eraseDups.1 hmem)

/-- Members that are declared one after the other: each name once, in the order of the first
declarations, with the default of the last one. -/
theorem foldl_declare (defaults : List (String × Option Value)) :
    defaults.foldl
        (fun members default => Slot.declare (.ofOption default.1 default.2) members) [] =
      Slot.table (defaults.map Prod.fst).eraseDups (lastDefault defaults) := by
  induction defaults using List.reverseRecOn with
  | nil => rfl
  | append_singleton defaults default ih =>
    rw [List.foldl_append, ih, List.map_append, List.map_singleton, eraseDups_concat]
    change Slot.declare _ _ = _
    rw [Slot.declare_table (nodup_eraseDups _)]
    simp only [List.mem_eraseDups]
    exact Slot.table_congr fun name _ => (lastDefault_concat defaults default name).symm

namespace Evaluator

variable (evaluate : Expression → Store → Store)

/-- The names of the defaults are those of the declared variables. -/
theorem map_fst_defaults (declarations : List Declaration) (store : Store) :
    (Declaration.defaults evaluate declarations store).map Prod.fst =
      (Declaration.members declarations).map Prod.fst := by
  induction declarations generalizing store with
  | nil => rfl
  | cons declaration rest ih =>
    cases declaration with
    | value id name form initializer =>
      cases initializer with
      | none => exact congrArg (List.cons name.name) (ih store)
      | some initializer =>
        exact congrArg (List.cons name.name) (ih (evaluate initializer store))
    | function | enumeration | record | space | library | placeholder => exact ih store

/-- The members of a constructor are declared with the defaults, one after the other. -/
theorem foldl_enterMember (declarations : List Declaration) (members : List Slot) (store : Store) :
    (declarations.foldl (enterMember evaluate) (members, store)).1 =
      (Declaration.defaults evaluate declarations store).foldl
        (fun members default => Slot.declare (.ofOption default.1 default.2) members) members := by
  induction declarations generalizing members store with
  | nil => rfl
  | cons declaration rest ih =>
    cases declaration with
    | value id name form initializer => cases initializer <;> exact ih _ _
    | function | enumeration | record | space | library | placeholder => exact ih members store

/-- The names of the members of a record: those of the declared variables, each once and in the
order of their first declarations. -/
def memberNames (declarations : List Declaration) : List String :=
  ((Declaration.members declarations).map Prod.fst).eraseDups

/-- The members that a constructor holds when its declaration is evaluated. -/
def declaredMembers (declarations : List Declaration) (store : Store) : List Slot :=
  (declarations.foldl (enterMember evaluate) ([], store)).1

/-- A constructor holds each member once, with the default of its last declaration. -/
theorem declaredMembers_eq (declarations : List Declaration) (store : Store) :
    declaredMembers evaluate declarations store =
      Slot.table (memberNames declarations)
        (lastDefault (Declaration.defaults evaluate declarations store)) := by
  rw [declaredMembers, foldl_enterMember, foldl_declare, map_fst_defaults, memberNames]

/-- A record that a constructor makes has each member once, with the last argument that is directed
to it, or else with its default. -/
theorem fillMembers_declaredMembers (declarations : List Declaration) (store : Store)
    (given : List (Option String × Value)) :
    fillMembers 0 given (declaredMembers evaluate declarations store) =
      Slot.table (memberNames declarations) fun name =>
        (lastDirected (memberNames declarations) 0 given name).or
          (lastDefault (Declaration.defaults evaluate declarations store) name) := by
  rw [declaredMembers_eq]
  exact fillMembers_table (nodup_eraseDups _) 0 given

end Evaluator

end TreeLang
