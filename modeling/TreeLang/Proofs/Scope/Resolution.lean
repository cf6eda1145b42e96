import Mathlib.Data.List.Flatten
import Mathlib.Data.List.Nodup
import TreeLang.Proofs.Scope.Simulation

/-!
# Name resolution is lexical scoping

Where the ids of a program are distinct no two uses have a key in common, so the table that the walk
fills maps the keys of every use to what lexical scoping says that it refers to.
-/

namespace TreeLang

/-! ## The uses are what is mentioned -/

namespace Outline

/-- What is mentioned in several outlines is what is mentioned in each. -/
theorem mentionsAll_eq_flatMap (outlines : List Outline) :
    mentionsAll outlines = outlines.flatMap mentions := by
  induction outlines with
  | nil => rfl
  | cons outline rest ih => rw [mentionsAll, ih, List.flatMap_cons]

/-- What is mentioned in two lists of outlines is what is mentioned in the one and in the other. -/
theorem mentionsAll_append (first second : List Outline) :
    mentionsAll (first ++ second) = mentionsAll first ++ mentionsAll second := by
  simp only [mentionsAll_eq_flatMap, List.flatMap_append]

/-- Nothing is mentioned in several outlines if it is in none of them. -/
theorem mentionsAll_eq_nil {outlines : List Outline} (h : ∀ c ∈ outlines, c.mentions = []) :
    mentionsAll outlines = [] := by
  rw [mentionsAll_eq_flatMap, List.flatMap_eq_nil_iff]
  exact h

end Outline

/-- Nothing is mentioned in a type: types are resolved by inference. -/
theorem TypeForm.mentions_outline (form : TypeForm) : form.outline.mentions = [] := by
  cases form <;> rfl

section Expressions

variable (value? : String → Option NodeId) (declaration? : List String → Option NodeId)

mutual

/-- The uses of an expression are at the places that it mentions, in their order. -/
theorem Expression.map_site_uses : (expression : Expression) →
    (expression.uses value? declaration?).map Use.site = expression.outline.mentions
  | .binary _ left right _ => by
    change _ = left.outline.mentions ++ (right.outline.mentions ++ [])
    rw [Expression.uses, List.map_append, left.map_site_uses, right.map_site_uses,
      List.append_nil]
  | .identifier id used => by
    rw [Expression.uses, Expression.outline, Outline.mentions]
    split <;> rfl
  | .call _ callee arguments => by
    change _ = callee.outline.mentions ++ Outline.mentionsAll (Argument.outlines arguments)
    rw [Expression.uses, List.map_append, callee.map_site_uses, Argument.map_site_usesAll]
  | .literal _ literal => by
    change _ = literal.outline.mentions ++ []
    rw [Expression.uses, literal.map_site_uses, List.append_nil]
  | .member id base name => by
    rw [Expression.uses, Expression.outline, Outline.mentions]
    cases (Expression.member id base name).memberPath with
    | some path => rfl
    | none =>
      change _ = base.outline.mentions ++ []
      rw [List.append_nil]
      exact base.map_site_uses
  | .placeholder _ => rfl

theorem Argument.map_site_uses : (argument : Argument) →
    (argument.uses value? declaration?).map Use.site = argument.outline.mentions
  | .argument _ _ expression => by
    change _ = expression.outline.mentions ++ []
    rw [Argument.uses, expression.map_site_uses, List.append_nil]
  | .placeholder _ => rfl

theorem Literal.map_site_uses : (literal : Literal) →
    (literal.uses value? declaration?).map Use.site = literal.outline.mentions
  | .array _ items => Expression.map_site_usesAll items
  | .none _ | .boolean _ _ | .number _ _ | .string _ _ | .color _ _ => rfl

theorem Expression.map_site_usesAll : (expressions : List Expression) →
    (Expression.usesAll value? declaration? expressions).map Use.site =
      Outline.mentionsAll (Expression.outlines expressions)
  | [] => rfl
  | expression :: rest => by
    rw [Expression.usesAll, List.map_append, expression.map_site_uses,
      Expression.map_site_usesAll rest]
    rfl

theorem Argument.map_site_usesAll : (arguments : List Argument) →
    (Argument.usesAll value? declaration? arguments).map Use.site =
      Outline.mentionsAll (Argument.outlines arguments)
  | [] => rfl
  | argument :: rest => by
    rw [Argument.usesAll, List.map_append, argument.map_site_uses,
      Argument.map_site_usesAll rest]
    rfl

end

/-- The uses of a parameter are those in its default. -/
theorem Parameter.map_site_uses (parameter : Parameter) :
    (parameter.uses value? declaration?).map Use.site = parameter.outline.mentions := by
  cases parameter with
  | placeholder id => rfl
  | parameter id externalName localName form defaultValue =>
    cases defaultValue with
    | none =>
      change [] = [] ++ (form.outline.mentions ++ [])
      rw [form.mentions_outline]
      rfl
    | some value =>
      change _ = [] ++ (form.outline.mentions ++ (value.outline.mentions ++ []))
      rw [form.mentions_outline, List.append_nil]
      exact value.map_site_uses value? declaration?

/-- The uses of parameters are those in their defaults. -/
theorem Parameter.map_site_flatMap_uses (parameters : List Parameter) :
    (parameters.flatMap (Parameter.uses value? declaration?)).map Use.site =
      Outline.mentionsAll (parameters.map Parameter.outline) := by
  induction parameters with
  | nil => rfl
  | cons parameter rest ih =>
    rw [List.flatMap_cons, List.map_append, parameter.map_site_uses, ih]
    rfl

end Expressions

/-- Nothing is mentioned in a generic parameter. -/
theorem GenericParameter.mentions_outline (generic : GenericParameter) :
    generic.outline.mentions = [] := by
  cases generic <;> rfl

/-- Nothing is mentioned in a case of an enumeration. -/
theorem EnumerationCase.mentions_outline (case : EnumerationCase) :
    case.outline.mentions = [] := by
  cases case with
  | placeholder id => rfl
  | case id name forms =>
    change [] ++ Outline.mentionsAll (TypeForm.outlines forms) = []
    refine Outline.mentionsAll_eq_nil fun c hc => ?_
    rw [TypeForm.outlines_eq_map] at hc
    obtain ⟨form, -, rfl⟩ := List.mem_map.1 hc
    exact form.mentions_outline

/-- Nothing is mentioned in generic parameters. -/
theorem GenericParameter.mentionsAll_outlines (generics : List GenericParameter) :
    Outline.mentionsAll (generics.map GenericParameter.outline) = [] := by
  refine Outline.mentionsAll_eq_nil fun c hc => ?_
  obtain ⟨generic, -, rfl⟩ := List.mem_map.1 hc
  exact generic.mentions_outline

/-- Nothing is mentioned in the cases of an enumeration. -/
theorem EnumerationCase.mentionsAll_outlines (cases : List EnumerationCase) :
    Outline.mentionsAll (cases.map EnumerationCase.outline) = [] := by
  refine Outline.mentionsAll_eq_nil fun c hc => ?_
  obtain ⟨case, -, rfl⟩ := List.mem_map.1 hc
  exact case.mentions_outline

/-- Where an expression has its uses does not depend on what is known. -/
theorem Known.map_site_uses (known : Known) (within : Surroundings) (expression : Expression) :
    (known.uses within expression).map Use.site = expression.outline.mentions :=
  expression.map_site_uses _ _

mutual

/-- The uses of a statement are at the places that it mentions, whatever surrounds it. -/
theorem Statement.map_site_resolveIn : (statement : Statement) → (within : Surroundings) →
    (known : Known) →
      (statement.resolveIn within known).2.map Use.site = statement.outline.mentions
  | .declaration _ content, within, known => by
    change _ = content.outline.mentions ++ []
    rw [List.append_nil]
    exact content.map_site_resolveIn within known
  | .branch _ condition block, within, known => by
    change List.map Use.site (_ ++ _) = condition.outline.mentions ++ Outline.mentionsAll _
    rw [List.map_append, Known.map_site_uses, Statement.map_site_resolveAllIn block]
  | .loop _ pattern iterated block, within, known => by
    change List.map Use.site (_ ++ _) =
      [] ++ (iterated.outline.mentions ++ Outline.mentionsAll _)
    rw [List.map_append, Known.map_site_uses, Statement.map_site_resolveAllIn block]
    rfl
  | .expression _ expression, within, known | .result _ expression, within, known => by
    change _ = expression.outline.mentions ++ []
    rw [List.append_nil]
    exact known.map_site_uses within expression
  | .placeholder _, _, _ => rfl

theorem Declaration.map_site_resolveIn : (declaration : Declaration) → (within : Surroundings) →
    (known : Known) →
      (declaration.resolveIn within known).2.map Use.site = declaration.outline.mentions
  | .value _ name form initializer, within, known => by
    change _ = [] ++ Outline.mentionsAll ((form.map TypeForm.outline).toList ++
      (initializer.map Expression.outline).toList)
    -- types and generic parameters mention nothing
    have hform : Outline.mentionsAll (form.map TypeForm.outline).toList = [] := by
      cases form with
      | none => rfl
      | some form => exact (List.append_nil _).trans form.mentions_outline
    rw [List.nil_append, Outline.mentionsAll_append, hform, List.nil_append]
    cases initializer with
    | none => rfl
    | some value =>
      change _ = value.outline.mentions ++ []
      rw [List.append_nil]
      exact known.map_site_uses within value
  | .function _ name result generics parameters block, within, known => by
    change List.map Use.site (_ ++ _) = [] ++ (result.outline.mentions ++ Outline.mentionsAll
      (generics.map GenericParameter.outline ++
        (parameters.map Parameter.outline ++ Statement.outlines block)))
    rw [List.map_append, Parameter.map_site_flatMap_uses, Statement.map_site_resolveAllIn block,
      result.mentions_outline, Outline.mentionsAll_append, GenericParameter.mentionsAll_outlines,
      Outline.mentionsAll_append]
    rfl
  | .enumeration _ name generics cases, within, known => by
    change [] = [] ++ Outline.mentionsAll (generics.map GenericParameter.outline ++
      cases.map EnumerationCase.outline)
    rw [Outline.mentionsAll_append, GenericParameter.mentionsAll_outlines,
      EnumerationCase.mentionsAll_outlines]
    rfl
  | .record _ _ _ _, _, _ => rfl
  | .space _ name declarations, within, known =>
    Declaration.map_site_resolveAllIn declarations _ _
  | .library _ _, _, _ | .placeholder _, _, _ => rfl

/-- The uses of a block are at the places that it mentions. -/
theorem Statement.map_site_resolveAllIn : (block : List Statement) → (within : Surroundings) →
    (known : Known) → (Statement.resolveAllIn block within known).2.map Use.site =
      Outline.mentionsAll (Statement.outlines block)
  | [], _, _ => rfl
  | statement :: rest, within, known => by
    change List.map Use.site (_ ++ _) = statement.outline.mentions ++ Outline.mentionsAll _
    rw [List.map_append, statement.map_site_resolveIn, Statement.map_site_resolveAllIn rest]

theorem Declaration.map_site_resolveAllIn : (declarations : List Declaration) →
    (within : Surroundings) → (known : Known) →
      (Declaration.resolveAllIn declarations within known).2.map Use.site =
        Outline.mentionsAll (Declaration.outlines declarations)
  | [], _, _ => rfl
  | declaration :: rest, within, known => by
    change List.map Use.site (_ ++ _) = declaration.outline.mentions ++ Outline.mentionsAll _
    rw [List.map_append, declaration.map_site_resolveIn, Declaration.map_site_resolveAllIn rest]

end

/-- The uses in a program are what is mentioned in it. -/
theorem Program.map_site_lexical (program : Program) :
    program.lexical.2.map Use.site = program.outline.mentions :=
  Statement.map_site_resolveAllIn program.block {} {}

/-! ## Keys -/

namespace Outline

/-- The keys of what is mentioned are ids of the outline, in order. -/
theorem flatMap_useKeys_mentions_sublist {outline : Outline} (h : outline.Faithful) :
    (outline.mentions.flatMap Expression.useKeys).Sublist outline.ids := by
  induction h with
  | @node item children root below ih =>
    have hchildren : ((mentionsAll children).flatMap Expression.useKeys).Sublist
        (node item children).ids := by
      rw [mentionsAll_eq_flatMap, List.flatMap_assoc, ids_node]
      exact .cons _ (List.Sublist.flatMap_right _ ih)
    rw [mentions.eq_def]
    split
    case h_3 id used rest heq =>
      -- the identifier has an id of its own and is the only child
      cases heq
      cases root
      split
      · exact List.nil_sublist _
      · exact .refl _
    case h_4 id base name rest heq =>
      cases heq
      split
      · exact List.singleton_sublist.2 List.mem_cons_self
      · exact hchildren
    case h_5 heq =>
      cases heq
      exact hchildren
    all_goals exact List.nil_sublist _

end Outline

namespace Use

variable {uses : List Use} {table : Table NodeId NodeId} {key : NodeId}

/-- One value put at several keys. -/
theorem find_foldl_put (keys : List NodeId) (value : NodeId) (table : Table NodeId NodeId)
    (key : NodeId) :
    (keys.foldl (fun table key => table.put key value) table).find key =
      if key ∈ keys then some value else table.find key := by
  induction keys generalizing table with
  | nil => rfl
  | cons first rest ih =>
    rw [List.foldl_cons, ih]
    by_cases hfirst : key = first
    · simp [hfirst]
    · rw [Table.find_put_of_ne hfirst]
      simp [hfirst]

/-- The keys of a use are mapped to its target. -/
theorem find_record (use : Use) (table : Table NodeId NodeId) (key : NodeId) :
    (use.record table).find key =
      if key ∈ use.keys then use.target.or (table.find key) else table.find key := by
  rw [record]
  cases use.target with
  | none => rw [Option.none_or, ite_self]
  | some pattern => exact find_foldl_put use.keys pattern table key

/-- Recording uses leaves other keys alone. -/
theorem find_foldl_record_of_not_mem (h : key ∉ uses.flatMap keys) :
    (uses.foldl record table).find key = table.find key := by
  induction uses generalizing table with
  | nil => rfl
  | cons use rest ih =>
    rw [List.flatMap_cons, List.mem_append, not_or] at h
    rw [List.foldl_cons, ih h.2, find_record, if_neg h.1]

/-- Where no two uses have a key in common, every key is mapped to the target of its use. -/
theorem find_foldl_record (distinct : (uses.flatMap keys).Nodup) {use : Use} (huse : use ∈ uses)
    (hkey : key ∈ use.keys) (hnew : table.find key = none) :
    (uses.foldl record table).find key = use.target := by
  induction uses generalizing table with
  | nil => cases huse
  | cons first rest ih =>
    rw [List.flatMap_cons, List.nodup_append] at distinct
    obtain ⟨-, hdistinct, hdisjoint⟩ := distinct
    rw [List.foldl_cons]
    rcases List.mem_cons.1 huse with rfl | hrest
    · have hlater : key ∉ rest.flatMap keys := fun h => hdisjoint _ hkey _ h rfl
      rw [find_foldl_record_of_not_mem hlater, find_record, if_pos hkey, hnew, Option.or_none]
    · have hfirst : key ∉ first.keys := fun h =>
        hdisjoint _ h _ (List.mem_flatMap.2 ⟨use, hrest, hkey⟩) rfl
      refine ih hdistinct hrest ?_
      rw [find_record, if_neg hfirst, hnew]

/-- A use is found under the id of its expression. -/
theorem id_mem_keys (use : Use) : use.site.id ∈ use.keys := by
  rw [keys]
  cases use.site <;> exact List.mem_cons_self

/-- A use that refers to nothing has its id among its keys. -/
theorem unresolved_sublist (uses : List Use) : (unresolved uses).Sublist (uses.flatMap keys) := by
  induction uses with
  | nil => exact .refl _
  | cons use rest ih =>
    have hid : [use.site.id].Sublist use.keys := List.singleton_sublist.2 use.id_mem_keys
    rw [← List.singleton_append, unresolved_append, List.singleton_append, List.flatMap_cons]
    refine .append ?_ ih
    rw [unresolved, List.filter_singleton]
    cases use.isUnresolved with
    | true => exact hid
    | false => exact List.nil_sublist _

end Use

/-! ## Programs -/

/-- What lexical scoping says about the outcome of a resolution: what is known in the end, and what
the uses refer to. -/
structure Scope.Lexical (scope : Scope) (known : Known) (uses : List Use) : Prop where
  /-- Every use is mapped to its target under each of its keys. -/
  patternFor_eq : ∀ use ∈ uses, ∀ key ∈ use.keys, scope.patternFor key = use.target
  /-- Nothing else is mapped. -/
  patternFor_eq_none : ∀ key ∉ uses.flatMap Use.keys, scope.patternFor key = none
  /-- The identifiers that refer to nothing are listed in order. -/
  unresolved_eq : scope.unresolved = Use.unresolved uses
  /-- None of them is listed twice. -/
  unresolved_nodup : scope.unresolved.Nodup
  /-- The names of the outermost frame are known in the end. -/
  values_eq : ∀ name, scope.values.get? name = known.value? [] name
  /-- The paths declared are known in the end. -/
  paths_eq : ∀ path, scope.space.pattern? path = known.declaration? path

/-- Where the ids of a program are distinct, its names are resolved by lexical scoping, in all that
is mentioned in it. -/
theorem Program.resolve_lexical {program : Program}
    (distinct : (program.nodes.map Node.id).Nodup) :
    (program.resolve none).Lexical program.lexical.1 program.lexical.2 ∧
      program.lexical.2.map Use.site = program.outline.mentions := by
  have hsites := program.map_site_lexical
  have hkeys : (program.lexical.2.flatMap Use.keys).Sublist program.outline.ids := by
    have hkeys := Outline.flatMap_useKeys_mentions_sublist program.outline_faithful
    rwa [← hsites, List.flatMap_map] at hkeys
  have hresolve : program.resolve none =
      (Outline.tourAll Resolver.visitAll (Statement.outlines program.block) {}).scope :=
    congrArg Resolver.scope (program.walk_eq_tour Resolver.visitAll_neverStops {})
  obtain ⟨hagrees, hwalks⟩ := Statement.tourAll_simulates program.block Resolver.Agrees.start
  rw [hresolve]
  have hnodup : (program.lexical.2.flatMap Use.keys).Nodup := distinct.sublist hkeys
  have hidentifiers := hwalks.identifiers_eq
  have hunresolved : _ = Use.unresolved program.lexical.2 := hwalks.unresolved_eq
  refine ⟨⟨fun use huse key hkey => ?_, fun key hkey => ?_, hunresolved, ?_,
    congrFun hagrees.value?_eq, congrFun hagrees.declaration?_eq⟩, hsites⟩
  · rw [Scope.patternFor, hidentifiers]
    exact Use.find_foldl_record hnodup huse hkey rfl
  · rw [Scope.patternFor, hidentifiers]
    exact Use.find_foldl_record_of_not_mem hkey
  · rw [hunresolved]
    exact hnodup.sublist (Use.unresolved_sublist _)

/-- `let x = none`, then `func f(x: _) -> _ { for y in y { x } }`, then `namespace n { let z = z }`,
then `n.z`, then `x`, and at last `y`. -/
def shadowingProgram : Program where
  id := .ofNat 0
  block := [
    .declaration (.ofNat 1) (.value (.ofNat 2) ⟨.ofNat 3, "x"⟩ none
      (some (.literal (.ofNat 4) (.none (.ofNat 5))))),
    .declaration (.ofNat 6) (.function (.ofNat 7) ⟨.ofNat 8, "f"⟩ (.placeholder (.ofNat 9)) []
      [.parameter (.ofNat 10) none ⟨.ofNat 11, "x"⟩ (.placeholder (.ofNat 12)) none]
      [.loop (.ofNat 13) ⟨.ofNat 14, "y"⟩ (.identifier (.ofNat 15) ⟨.ofNat 16, "y", false⟩)
        [.expression (.ofNat 17) (.identifier (.ofNat 18) ⟨.ofNat 19, "x", false⟩)]]),
    .declaration (.ofNat 20) (.space (.ofNat 21) ⟨.ofNat 22, "n"⟩
      [.value (.ofNat 23) ⟨.ofNat 24, "z"⟩ none
        (some (.identifier (.ofNat 25) ⟨.ofNat 26, "z", false⟩))]),
    .expression (.ofNat 27) (.member (.ofNat 28)
      (.identifier (.ofNat 29) ⟨.ofNat 30, "n", false⟩) ⟨.ofNat 31, "z", false⟩),
    .expression (.ofNat 32) (.identifier (.ofNat 33) ⟨.ofNat 34, "x", false⟩),
    .expression (.ofNat 35) (.identifier (.ofNat 36) ⟨.ofNat 37, "y", false⟩)]

/-- The pattern of a loop holds for what it iterates over, a parameter hides a value outside of the
function, a value is not bound in its own initializer, and a frame that is closed binds nothing. -/
theorem resolve_lexical_shadowing :
    (shadowingProgram.resolve none).Lexical shadowingProgram.lexical.1 shadowingProgram.lexical.2 ∧
      (shadowingProgram.lexical.2.map fun use => (use.site.id, use.target)) =
        [(.ofNat 15, some (.ofNat 14)), (.ofNat 18, some (.ofNat 11)), (.ofNat 25, none),
          (.ofNat 28, some (.ofNat 24)), (.ofNat 33, some (.ofNat 3)), (.ofNat 36, none)] := by
  have hdistinct : (shadowingProgram.nodes.map Node.id).Nodup := by decide
  exact ⟨(Program.resolve_lexical hdistinct).1, by decide⟩

end TreeLang
