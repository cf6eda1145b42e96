import TreeLang.Proofs.Scope.Resolution

/-!
# What names can refer to

A name refers to a pattern that was declared before it or around it. So whatever holds of all
patterns of a program holds of all that its names refer to.
-/

namespace TreeLang

variable {P : NodeId → Prop}

/-- All patterns in an outline have a property. -/
def Outline.AllPatterns (P : NodeId → Prop) (outline : Outline) : Prop :=
  ∀ pattern, Node.pattern pattern ∈ outline.preorder → P pattern.id

/-- All that some uses refer to has a property. -/
def Use.All (P : NodeId → Prop) (uses : List Use) : Prop :=
  ∀ use ∈ uses, ∀ pattern, use.target = some pattern → P pattern

/-- All that is known has a property. -/
structure Known.All (P : NodeId → Prop) (known : Known) : Prop where
  frame : ∀ binding ∈ known.frame, P binding.2
  paths : ∀ declared ∈ known.paths, P declared.2

/-- All that is bound in the frames around has a property. -/
def Surroundings.All (P : NodeId → Prop) (within : Surroundings) : Prop :=
  ∀ frame ∈ within.outer, ∀ binding ∈ frame, P binding.2

/-- At first nothing is known, so all of it has any property. -/
theorem Known.All.start : ({} : Known).All P := ⟨List.forall_mem_nil _, List.forall_mem_nil _⟩

/-- At first nothing is around, so all of it has any property. -/
theorem Surroundings.All.start : ({} : Surroundings).All P := List.forall_mem_nil _

/-- What is known has a weaker property as well. -/
theorem Known.All.mono {Q : NodeId → Prop} {known : Known} (h : known.All P)
    (hPQ : ∀ id, P id → Q id) : known.All Q :=
  ⟨fun binding hmem => hPQ _ (h.frame binding hmem),
    fun declared hmem => hPQ _ (h.paths declared hmem)⟩

/-- What is around has a weaker property as well. -/
theorem Surroundings.All.mono {Q : NodeId → Prop} {within : Surroundings} (h : within.All P)
    (hPQ : ∀ id, P id → Q id) : within.All Q :=
  fun frame hframe binding hmem => hPQ _ (h frame hframe binding hmem)

namespace Outline

variable {item : Node} {children : List Outline} {pattern : Pattern}

/-- The patterns of a child are patterns of the outline. -/
theorem AllPatterns.of_mem (h : (node item children).AllPatterns P) {c : Outline}
    (hc : c ∈ children) : c.AllPatterns P := fun pattern hpattern =>
  h pattern (mem_preorder_node.2 (.inr ⟨c, hc, hpattern⟩))

/-- The pattern of an outline of one has the property. -/
theorem AllPatterns.of_outline (h : pattern.outline.AllPatterns P) : P pattern.id :=
  h pattern List.mem_cons_self

end Outline

/-! ## Uses -/

namespace Use.All

/-- Without uses there is nothing to refer to. -/
theorem nil : Use.All P [] := nofun

/-- A single use refers to what its target says. -/
theorem singleton {site : Expression} {target : Option NodeId}
    (h : ∀ pattern, target = some pattern → P pattern) : Use.All P [⟨site, target⟩] :=
  List.forall_mem_singleton.2 h

/-- Uses of two lists refer to what has the property when those of each do. -/
theorem append {first second : List Use} (h : Use.All P first) (h' : Use.All P second) :
    Use.All P (first ++ second) := List.forall_mem_append.2 ⟨h, h'⟩

end Use.All

section Expressions

variable {value? : String → Option NodeId} {declaration? : List String → Option NodeId}

/-- All that names and paths refer to has a property. -/
structure Lookups (P : NodeId → Prop) (value? : String → Option NodeId)
    (declaration? : List String → Option NodeId) : Prop where
  value : ∀ name pattern, value? name = some pattern → P pattern
  declaration : ∀ path pattern, declaration? path = some pattern → P pattern

mutual

/-- The uses of an expression refer to what names and paths refer to. -/
theorem Expression.all_uses (h : Lookups P value? declaration?) : (expression : Expression) →
    Use.All P (expression.uses value? declaration?)
  | .binary _ left right _ => (left.all_uses h).append (right.all_uses h)
  | .identifier _ used => by
    rw [Expression.uses]
    split
    · exact .nil
    · exact .singleton (h.value used.name)
  | .call _ callee arguments => (callee.all_uses h).append (Argument.all_usesAll h arguments)
  | .literal _ literal => literal.all_uses h
  | .member id base name => by
    rw [Expression.uses]
    split
    · next path hpath => exact .singleton (h.declaration path)
    · exact base.all_uses h
  | .placeholder _ => .nil

theorem Argument.all_uses (h : Lookups P value? declaration?) : (argument : Argument) →
    Use.All P (argument.uses value? declaration?)
  | .argument _ _ expression => expression.all_uses h
  | .placeholder _ => .nil

theorem Literal.all_uses (h : Lookups P value? declaration?) : (literal : Literal) →
    Use.All P (literal.uses value? declaration?)
  | .array _ items => Expression.all_usesAll h items
  | .none _ | .boolean _ _ | .number _ _ | .string _ _ | .color _ _ => .nil

theorem Expression.all_usesAll (h : Lookups P value? declaration?) :
    (expressions : List Expression) → Use.All P (Expression.usesAll value? declaration? expressions)
  | [] => .nil
  | expression :: rest => (expression.all_uses h).append (Expression.all_usesAll h rest)

theorem Argument.all_usesAll (h : Lookups P value? declaration?) : (arguments : List Argument) →
    Use.All P (Argument.usesAll value? declaration? arguments)
  | [] => .nil
  | argument :: rest => (argument.all_uses h).append (Argument.all_usesAll h rest)

end

/-- The uses of a default refer to what names and paths refer to. -/
theorem Parameter.all_uses (h : Lookups P value? declaration?) (parameter : Parameter) :
    Use.All P (parameter.uses value? declaration?) := by
  cases parameter with
  | placeholder id => exact .nil
  | parameter id externalName localName form defaultValue =>
    cases defaultValue with
    | none => exact .nil
    | some value => exact value.all_uses h

end Expressions

/-! ## What is known -/

namespace Known

variable {known inner : Known} {within : Surroundings} {pattern : Pattern}

/-- A name that is known refers to something with the property. -/
theorem All.value?_eq_some (h : known.All P) (hwithin : within.All P) {name : String}
    {id : NodeId} (hid : known.value? within.outer name = some id) : P id := by
  obtain ⟨frame, hframe, hlookup⟩ := List.exists_of_findSome?_eq_some hid
  obtain ⟨before, after, heq, -⟩ := List.lookup_eq_some_iff.1 hlookup
  have hmem : (name, id) ∈ frame := heq ▸ List.mem_append_right _ List.mem_cons_self
  rcases List.mem_cons.1 hframe with rfl | houter
  · exact h.frame _ hmem
  · exact hwithin frame houter _ hmem

/-- A path that is known refers to something with the property. -/
theorem All.declaration?_eq_some (h : known.All P) {path : List String} {id : NodeId}
    (hid : known.declaration? path = some id) : P id := by
  obtain ⟨before, after, heq, -⟩ := List.lookup_eq_some_iff.1 hid
  exact h.paths (path, id) (heq ▸ List.mem_append_right _ List.mem_cons_self)

/-- Names and paths that are known refer to something with the property. -/
theorem All.lookups (h : known.All P) (hwithin : within.All P) :
    Lookups P (known.value? within.outer) known.declaration? :=
  ⟨fun _ _ => h.value?_eq_some hwithin, fun _ _ => h.declaration?_eq_some⟩

/-- The uses of an expression refer to what is known. -/
theorem All.uses (h : known.All P) (hwithin : within.All P) (expression : Expression) :
    Use.All P (known.uses within expression) := expression.all_uses (h.lookups hwithin)

/-- Binding a pattern with the property adds nothing else. -/
theorem All.bind (h : known.All P) (hpattern : P pattern.id) : (known.bind pattern).All P :=
  ⟨List.forall_mem_cons.2 ⟨hpattern, h.frame⟩, h.paths⟩

/-- Declaring a path adds the pattern and nothing else. -/
theorem All.declarePath (h : known.All P) (within : Surroundings) (hpattern : P pattern.id) :
    (known.declarePath within pattern).All P := by
  rw [Known.declarePath]
  split
  · exact h
  · exact ⟨h.frame, List.forall_mem_append.2 ⟨h.paths, List.forall_mem_singleton.2 hpattern⟩⟩

/-- Declaring a pattern adds it as a name and as a path. -/
theorem All.declare (h : known.All P) (within : Surroundings) (hpattern : P pattern.id) :
    (known.declare within pattern).All P := (h.bind hpattern).declarePath within hpattern

/-- Opening a frame adds nothing. -/
theorem All.opened (h : known.All P) : known.opened.All P := ⟨nofun, h.paths⟩

/-- Closing a frame goes back to the names around, with the paths from inside. -/
theorem All.closing (h : known.All P) (hinner : inner.All P) : (known.closing inner).All P :=
  ⟨h.frame, hinner.paths⟩

/-- Going inside puts the names that are known among those around. -/
theorem All.inside (h : known.All P) (hwithin : within.All P) : (within.inside known).All P :=
  List.forall_mem_cons.2 ⟨h.frame, hwithin⟩

/-- Binding parameters adds their patterns. -/
theorem All.bindParameters (h : known.All P) {parameters : List Parameter}
    (hparameters : ∀ id externalName localName form value,
      Parameter.parameter id externalName localName form value ∈ parameters → P localName.id) :
    (parameters.foldl Known.bindParameter known).All P := by
  induction parameters generalizing known with
  | nil => exact h
  | cons parameter rest ih =>
    refine ih ?_ fun _ _ _ _ _ hmem => hparameters _ _ _ _ _ (List.mem_cons_of_mem _ hmem)
    cases parameter with
    | placeholder id => exact h
    | parameter id externalName localName form defaultValue =>
      exact h.bind (hparameters _ _ _ _ _ List.mem_cons_self)

/-- Declaring cases adds their patterns. -/
theorem All.declareCases (h : known.All P) (within : Surroundings) {cases : List EnumerationCase}
    (hcases : ∀ id name forms, EnumerationCase.case id name forms ∈ cases → P name.id) :
    (cases.foldl (Known.declareCase within) known).All P := by
  induction cases generalizing known with
  | nil => exact h
  | cons case rest ih =>
    refine ih ?_ fun _ _ _ hmem => hcases _ _ _ (List.mem_cons_of_mem _ hmem)
    cases case with
    | placeholder id => exact h
    | case id name forms => exact h.declarePath within (hcases _ _ _ List.mem_cons_self)

end Known

/-! ## Statements and declarations -/

/-- What is known after a part of a program has a property, and so has what its uses refer to. -/
structure Resolved (P : NodeId → Prop) (result : Known × List Use) : Prop where
  known : result.1.All P
  uses : Use.All P result.2

mutual

/-- A statement whose patterns have the property refers to and declares only what has it. -/
theorem Statement.resolved : (statement : Statement) → statement.outline.AllPatterns P →
    {within : Surroundings} → within.All P → {known : Known} → known.All P →
      Resolved P (statement.resolveIn within known)
  | .declaration _ content, hpatterns, _, hwithin, _, hknown =>
    content.resolved (hpatterns.of_mem List.mem_cons_self) hwithin hknown
  | .branch _ condition block, hpatterns, _, hwithin, _, hknown => by
    obtain ⟨hafter, huses⟩ := Statement.resolvedAll block
      (fun c hc => hpatterns.of_mem (List.mem_cons_of_mem _ hc)) hwithin hknown
    exact ⟨hafter, (hknown.uses hwithin condition).append huses⟩
  | .loop _ pattern iterated block, hpatterns, _, hwithin, _, hknown => by
    have hpattern : P pattern.id := (hpatterns.of_mem List.mem_cons_self).of_outline
    have hinner := hknown.opened.bind hpattern
    have hinside := hknown.inside hwithin
    obtain ⟨hafter, huses⟩ := Statement.resolvedAll block
      (fun c hc => hpatterns.of_mem (List.mem_cons_of_mem _ (List.mem_cons_of_mem _ hc)))
      hinside hinner
    exact ⟨hknown.closing hafter, (hinner.uses hinside iterated).append huses⟩
  | .expression _ expression, _, _, hwithin, _, hknown
  | .result _ expression, _, _, hwithin, _, hknown => ⟨hknown, hknown.uses hwithin expression⟩
  | .placeholder _, _, _, _, _, hknown => ⟨hknown, .nil⟩

theorem Declaration.resolved : (declaration : Declaration) →
    declaration.outline.AllPatterns P → {within : Surroundings} → within.All P →
      {known : Known} → known.All P → Resolved P (declaration.resolveIn within known)
  | .value _ name _ initializer, hpatterns, within, hwithin, known, hknown => by
    -- the initializer is resolved without the value that it initializes
    refine ⟨hknown.declare within (hpatterns.of_mem List.mem_cons_self).of_outline, ?_⟩
    cases initializer with
    | none => exact .nil
    | some initializer => exact hknown.uses hwithin initializer
  | .function _ name _ _ parameters block, hpatterns, within, hwithin, known, hknown => by
    -- a function is known in its own block, and its parameters are known there alone
    have hdeclared := hknown.declare within (hpatterns.of_mem List.mem_cons_self).of_outline
    have hparameters : ∀ parameter ∈ parameters, parameter.outline.AllPatterns P :=
      fun parameter hmem => hpatterns.of_mem (List.mem_cons_of_mem _ (List.mem_cons_of_mem _
        (List.mem_append_right _ (List.mem_append_left _ (List.mem_map_of_mem hmem)))))
    have hinner := hdeclared.opened.bindParameters fun _ _ _ _ _ hmem =>
      ((hparameters _ hmem).of_mem List.mem_cons_self).of_outline
    have haround : ({ within.inside (known.declare within name) with
        inFunction := true } : Surroundings).All P := hdeclared.inside hwithin
    obtain ⟨hafter, huses⟩ := Statement.resolvedAll block
      (fun c hc => hpatterns.of_mem (List.mem_cons_of_mem _ (List.mem_cons_of_mem _
        (List.mem_append_right _ (List.mem_append_right _ hc))))) haround hinner
    refine ⟨hdeclared.closing hafter, Use.All.append ?_ huses⟩
    intro use huse
    obtain ⟨parameter, -, huse⟩ := List.mem_flatMap.1 huse
    exact parameter.all_uses (hinner.lookups haround) use huse
  | .enumeration _ _ _ cases, hpatterns, within, _, _, hknown => by
    -- the cases are declared in the space of the enumeration
    refine ⟨hknown.declareCases _ fun id name forms hcase => ?_, .nil⟩
    have hcase := hpatterns.of_mem
      (List.mem_cons_of_mem _ (List.mem_append_right _ (List.mem_map_of_mem hcase)))
    exact (hcase.of_mem List.mem_cons_self).of_outline
  | .record _ name _ _, hpatterns, within, _, _, hknown => by
    refine ⟨?_, .nil⟩
    -- only the constructor of a record is declared, and none for a primitive type
    rw [Declaration.resolveIn]
    split
    · exact hknown
    · exact hknown.declare within (hpatterns.of_mem List.mem_cons_self).of_outline
  | .space _ name declarations, hpatterns, within, hwithin, known, hknown => by
    -- the declarations inside are resolved in frames of their own, which are closed behind them
    have haround : ((within.inside known).below name).All P := hknown.inside hwithin
    obtain ⟨hafter, huses⟩ := Declaration.resolvedAll declarations
      (fun c hc => hpatterns.of_mem (List.mem_cons_of_mem _ hc)) haround hknown.opened
    exact ⟨hknown.closing hafter, huses⟩
  | .library _ _, _, _, _, _, hknown | .placeholder _, _, _, _, _, hknown => ⟨hknown, .nil⟩

/-- A block whose patterns have the property refers to and declares only what has it. -/
theorem Statement.resolvedAll : (block : List Statement) →
    (∀ c ∈ Statement.outlines block, c.AllPatterns P) → {within : Surroundings} → within.All P →
      {known : Known} → known.All P → Resolved P (Statement.resolveAllIn block within known)
  | [], _, _, _, _, hknown => ⟨hknown, .nil⟩
  | statement :: rest, hpatterns, _, hwithin, _, hknown => by
    obtain ⟨hfirst, hrest⟩ := List.forall_mem_cons.1 hpatterns
    obtain ⟨hnext, huses⟩ := statement.resolved hfirst hwithin hknown
    obtain ⟨hafter, hothers⟩ := Statement.resolvedAll rest hrest hwithin hnext
    exact ⟨hafter, huses.append hothers⟩

theorem Declaration.resolvedAll : (declarations : List Declaration) →
    (∀ c ∈ Declaration.outlines declarations, c.AllPatterns P) → {within : Surroundings} →
      within.All P → {known : Known} → known.All P →
        Resolved P (Declaration.resolveAllIn declarations within known)
  | [], _, _, _, _, hknown => ⟨hknown, .nil⟩
  | declaration :: rest, hpatterns, _, hwithin, _, hknown => by
    obtain ⟨hfirst, hrest⟩ := List.forall_mem_cons.1 hpatterns
    obtain ⟨hnext, huses⟩ := declaration.resolved hfirst hwithin hknown
    obtain ⟨hafter, hothers⟩ := Declaration.resolvedAll rest hrest hwithin hnext
    exact ⟨hafter, huses.append hothers⟩

end

/-! ## Where uses are -/

namespace Outline

variable {outline : Outline}

/-- The parts of what is mentioned are nodes of the outline. -/
theorem preorder_subset_of_mem_mentions (h : outline.Faithful) {e : Expression}
    (he : e ∈ outline.mentions) : e.outline.preorder ⊆ outline.preorder := by
  -- by induction on the outline, along the cases of `mentions`
  induction h with
  | @node item children root below ih =>
    have hchildren : e ∈ mentionsAll children →
        e.outline.preorder ⊆ (node item children).preorder := by
      rw [mentionsAll_eq_flatMap]
      intro hmem n hn
      obtain ⟨c, hc, hmem⟩ := List.mem_flatMap.1 hmem
      exact mem_preorder_node.2 (.inr ⟨c, hc, ih c hc hmem hn⟩)
    -- a node is mentioned as a whole or not at all
    rw [mentions.eq_def] at he
    split at he
    case h_1 | h_2 => cases he
    case h_3 id used rest heq =>
      split at he
      · cases he
      · cases heq
        obtain rfl := List.mem_singleton.1 he
        rw [← root]
        exact List.Subset.refl _
    case h_4 id base name rest heq =>
      cases heq
      split at he
      · obtain rfl := List.mem_singleton.1 he
        rw [← root]
        exact List.Subset.refl _
      · exact hchildren he
    case h_5 heq =>
      cases heq
      exact hchildren he

end Outline

/-! ## Programs -/

/-- What is recorded was recorded before, or is what one of the uses refers to. -/
theorem Use.exists_of_find_foldl_record {uses : List Use} {key pattern : NodeId}
    {table : Table NodeId NodeId}
    (h : (uses.foldl Use.record table).find key = some pattern) :
    table.find key = some pattern ∨ ∃ use ∈ uses, use.target = some pattern := by
  induction uses generalizing table with
  | nil => exact .inl h
  | cons use rest ih =>
    rcases ih h with hfirst | ⟨other, hother, htarget⟩
    · rw [find_record] at hfirst
      by_cases hkey : key ∈ use.keys
      · rw [if_pos hkey, Option.or_eq_some_iff] at hfirst
        rcases hfirst with htarget | ⟨-, hbefore⟩
        · exact .inr ⟨use, List.mem_cons_self, htarget⟩
        · exact .inl hbefore
      · rw [if_neg hkey] at hfirst
        exact .inl hfirst
    · exact .inr ⟨other, List.mem_cons_of_mem _ hother, htarget⟩

/-- What is resolved in a program is what lexical scoping records. -/
theorem Program.walks_lexical (program : Program) :
    (program.resolve none).identifiers = program.lexical.2.foldl Use.record [] ∧
      (program.resolve none).unresolved = Use.unresolved program.lexical.2 := by
  have hresolve : program.resolve none =
      (Outline.tourAll Resolver.visitAll (Statement.outlines program.block) {}).scope :=
    congrArg Resolver.scope (program.walk_eq_tour Resolver.visitAll_neverStops {})
  obtain ⟨-, hwalks⟩ := Statement.tourAll_simulates program.block Resolver.Agrees.start
  rw [hresolve]
  exact ⟨hwalks.identifiers_eq, hwalks.unresolved_eq⟩

/-- The record of a program is that of its uses, in their order. -/
theorem Program.identifiers_resolve (program : Program) :
    (program.resolve none).identifiers = program.lexical.2.foldl Use.record [] :=
  program.walks_lexical.1

/-- The unresolved uses of a program are those of the recursion over it. -/
theorem Program.unresolved_resolve (program : Program) :
    (program.resolve none).unresolved = Use.unresolved program.lexical.2 :=
  program.walks_lexical.2

/-- Distinct ids are distinct keys of uses. -/
theorem Program.nodup_keys_lexical {program : Program}
    (distinct : (program.nodes.map Node.id).Nodup) :
    (program.lexical.2.flatMap Use.keys).Nodup := by
  have hkeys := Outline.flatMap_useKeys_mentions_sublist program.outline_faithful
  rw [← program.map_site_lexical, List.flatMap_map] at hkeys
  exact distinct.sublist hkeys

/-- An expression is found under a key of its own only. -/
theorem Program.site_eq_of_mem_keys {program : Program}
    (distinct : (program.nodes.map Node.id).Nodup) {e : Expression}
    (he : .expression e ∈ program.nodes) {use : Use} (huse : use ∈ program.lexical.2)
    (hkey : e.id ∈ use.keys) : use.site = e := by
  have hsite : use.site ∈ program.outline.mentions := by
    rw [← program.map_site_lexical]
    exact List.mem_map_of_mem huse
  have hbelow := Outline.preorder_subset_of_mem_mentions program.outline_faithful hsite
  -- an expression with the id of the site is the site itself
  have hsame : e.id = use.site.id → use.site = e := by
    intro hid
    have heq : Node.expression e = .expression use.site :=
      Outline.eq_of_id_eq distinct he (hbelow use.site.mem_preorder) hid
    exact (Node.expression.inj heq).symm
  rw [Use.keys] at hkey
  cases hsiteform : use.site with
  | identifier id used =>
    rw [hsiteform] at hkey hbelow hsame
    rcases List.mem_cons.1 hkey with hid | hid
    · exact hsame hid
    · -- the identifier below is no expression
      have hused : Node.identifier used ∈ program.nodes :=
        hbelow (List.mem_cons_of_mem _ List.mem_cons_self)
      have heq : Node.expression e = .identifier used :=
        Outline.eq_of_id_eq distinct he hused (List.mem_singleton.1 hid)
      cases heq
  | binary | call | literal | member | placeholder =>
    rw [hsiteform] at hkey hsame
    exact hsame (List.mem_singleton.1 hkey)

/-- The names of a program refer to patterns of the program. -/
theorem Program.exists_pattern_of_patternFor {program : Program} {id target : NodeId}
    (h : (program.resolve none).patternFor id = some target) :
    ∃ pattern, .pattern pattern ∈ program.nodes ∧ pattern.id = target := by
  rw [Scope.patternFor, program.identifiers_resolve] at h
  obtain hnone | ⟨use, huse, htarget⟩ := Use.exists_of_find_foldl_record h
  · cases hnone
  · have hpatterns : program.outline.AllPatterns
        fun id => ∃ pattern, .pattern pattern ∈ program.nodes ∧ pattern.id = id :=
      fun pattern hpattern => ⟨pattern, hpattern, rfl⟩
    have hresolved := Statement.resolvedAll program.block (fun c hc => hpatterns.of_mem hc)
      Surroundings.All.start Known.All.start
    exact hresolved.uses use huse target htarget

end TreeLang
