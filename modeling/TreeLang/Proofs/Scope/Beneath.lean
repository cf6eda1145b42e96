import TreeLang.Proofs.Scope.Targets

/-!
# Bindings beneath a program

Lexical scoping looks a name up from the inside out, so it comes last to the oldest bindings of the
outermost frame. Bindings beneath all others never change what an identifier refers to, if it refers
to something without them. Of the declarations at a path it is the earliest that counts; nothing is
said about paths here.
-/

namespace TreeLang

/-- The second frames are the first ones with older bindings in the outermost frame. -/
inductive Beneath (base : Bindings) : List Bindings → List Bindings → Prop where
  | outermost (frame : Bindings) : Beneath base [frame] [frame ++ base]
  | inner (frame : Bindings) {frames frames' : List Bindings}
      (below : Beneath base frames frames') :
    Beneath base (frame :: frames) (frame :: frames')

/-- The second use is of the same expression. If this is an identifier that refers to something in
the first use, it refers to the same in the second one. -/
structure Use.Keeps (use use' : Use) : Prop where
  site_eq : use'.site = use.site
  target_eq : ∀ id used, use.site = .identifier id used →
    ∀ pattern, use.target = some pattern → use'.target = some pattern

/-- What is known is the same in both places, but for bindings beneath it. -/
def Known.Over (base : Bindings) (within within' : Surroundings) (known known' : Known) : Prop :=
  Beneath base (known.frame :: within.outer) (known'.frame :: within'.outer)

/-- Both results are the same, but for bindings beneath them and for what they make known. -/
structure Overlies (base : Bindings) (within within' : Surroundings)
    (result result' : Known × List Use) : Prop where
  known : Known.Over base within within' result.1 result'.1
  uses : List.Forall₂ Use.Keeps result.2 result'.2

variable {base : Bindings}

/-- What is found among the frames is found with a frame beneath them as well. -/
theorem Beneath.findSome?_eq {frames frames' : List Bindings} (h : Beneath base frames frames')
    {name : String} {pattern : NodeId}
    (hfound : frames.findSome? (List.lookup name) = some pattern) :
    frames'.findSome? (List.lookup name) = some pattern := by
  induction h with
  | outermost frame =>
    have hframe : frame.lookup name = some pattern := by simpa using hfound
    simp [List.lookup_append, hframe]
  | inner frame below ih =>
    rw [List.findSome?_cons] at hfound ⊢
    cases hframe : frame.lookup name with
    | some found => rwa [hframe] at hfound
    | none =>
      rw [hframe] at hfound
      exact ih hfound

/-- A new binding comes above all that is bound in its frame. -/
theorem Beneath.bind {frame frame' : Bindings} {outer outer' : List Bindings}
    (h : Beneath base (frame :: outer) (frame' :: outer')) (binding : String × NodeId) :
    Beneath base ((binding :: frame) :: outer) ((binding :: frame') :: outer') := by
  cases h with
  | outermost => exact .outermost (binding :: frame)
  | inner _ below => exact .inner (binding :: frame) below

/-! ## Uses -/

section Expressions

variable {value? value?' : String → Option NodeId}
  {declaration? declaration?' : List String → Option NodeId}

mutual

/-- The uses in an expression keep what they refer to when the names do. -/
theorem Expression.keeps_uses
    (h : ∀ name pattern, value? name = some pattern → value?' name = some pattern) :
    (expression : Expression) → List.Forall₂ Use.Keeps (expression.uses value? declaration?)
      (expression.uses value?' declaration?')
  | .binary _ left right _ => List.rel_append (left.keeps_uses h) (right.keeps_uses h)
  | .identifier id used => by
    rw [Expression.uses, Expression.uses]
    split
    · exact .nil
    · exact .cons ⟨rfl, fun _ _ _ => h used.name⟩ .nil
  | .call _ callee arguments =>
    List.rel_append (callee.keeps_uses h) (Argument.keeps_usesAll h arguments)
  | .literal _ literal => literal.keeps_uses h
  | .member id base name => by
    rw [Expression.uses, Expression.uses]
    split
    · -- a path is no identifier
      exact .cons ⟨rfl, fun _ _ hsite => by cases hsite⟩ .nil
    · exact base.keeps_uses h
  | .placeholder _ => .nil

theorem Argument.keeps_uses
    (h : ∀ name pattern, value? name = some pattern → value?' name = some pattern) :
    (argument : Argument) → List.Forall₂ Use.Keeps (argument.uses value? declaration?)
      (argument.uses value?' declaration?')
  | .argument _ _ expression => expression.keeps_uses h
  | .placeholder _ => .nil

theorem Literal.keeps_uses
    (h : ∀ name pattern, value? name = some pattern → value?' name = some pattern) :
    (literal : Literal) → List.Forall₂ Use.Keeps (literal.uses value? declaration?)
      (literal.uses value?' declaration?')
  | .array _ items => Expression.keeps_usesAll h items
  | .none _ | .boolean _ _ | .number _ _ | .string _ _ | .color _ _ => .nil

theorem Expression.keeps_usesAll
    (h : ∀ name pattern, value? name = some pattern → value?' name = some pattern) :
    (expressions : List Expression) →
      List.Forall₂ Use.Keeps (Expression.usesAll value? declaration? expressions)
        (Expression.usesAll value?' declaration?' expressions)
  | [] => .nil
  | expression :: rest =>
    List.rel_append (expression.keeps_uses h) (Expression.keeps_usesAll h rest)

theorem Argument.keeps_usesAll
    (h : ∀ name pattern, value? name = some pattern → value?' name = some pattern) :
    (arguments : List Argument) →
      List.Forall₂ Use.Keeps (Argument.usesAll value? declaration? arguments)
        (Argument.usesAll value?' declaration?' arguments)
  | [] => .nil
  | argument :: rest => List.rel_append (argument.keeps_uses h) (Argument.keeps_usesAll h rest)

end

variable (h : ∀ name pattern, value? name = some pattern → value?' name = some pattern)
include h

/-- The uses in a default keep what they refer to when the names do. -/
theorem Parameter.keeps_uses (parameter : Parameter) :
    List.Forall₂ Use.Keeps (parameter.uses value? declaration?)
      (parameter.uses value?' declaration?') := by
  cases parameter with
  | placeholder id => exact .nil
  | parameter id externalName localName form defaultValue =>
    cases defaultValue with
    | none => exact .nil
    | some value => exact value.keeps_uses h

/-- The uses in all defaults keep what they refer to when the names do. -/
theorem Parameter.keeps_flatMap_uses (parameters : List Parameter) :
    List.Forall₂ Use.Keeps (parameters.flatMap (Parameter.uses value? declaration?))
      (parameters.flatMap (Parameter.uses value?' declaration?')) := by
  induction parameters with
  | nil => exact .nil
  | cons parameter rest ih => exact List.rel_append (parameter.keeps_uses h) ih

end Expressions

/-! ## What is known -/

namespace Known

variable {within within' : Surroundings} {known known' : Known}

/-- Declaring a path leaves the frame alone. -/
@[simp] theorem frame_declarePath (known : Known) (within : Surroundings) (pattern : Pattern) :
    (known.declarePath within pattern).frame = known.frame := by
  rw [declarePath]
  split <;> rfl

/-- Declaring cases leaves the frame alone: they are known by their paths. -/
@[simp] theorem frame_declareCases (cases : List EnumerationCase) (within : Surroundings)
    (known : Known) : (cases.foldl (declareCase within) known).frame = known.frame := by
  induction cases generalizing known with
  | nil => rfl
  | cons case rest ih =>
    rw [List.foldl_cons, ih]
    cases case with
    | placeholder id => rfl
    | case id name forms => exact frame_declarePath known within name

namespace Over

/-- A name that is known is known with a frame beneath, and to the same pattern. -/
theorem value?_eq (h : Over base within within' known known') (name : String) (pattern : NodeId)
    (hfound : known.value? within.outer name = some pattern) :
    known'.value? within'.outer name = some pattern := Beneath.findSome?_eq h hfound

/-- The uses in an expression keep what they refer to with a frame beneath. -/
theorem uses (h : Over base within within' known known') (expression : Expression) :
    List.Forall₂ Use.Keeps (known.uses within expression) (known'.uses within' expression) :=
  expression.keeps_uses h.value?_eq

/-- Nothing else counts than the frames. -/
theorem congr {next next' : Known} (h : Over base within within' known known')
    (hframe : next.frame = known.frame) (hframe' : next'.frame = known'.frame) :
    Over base within within' next next' := by
  rw [Over, hframe, hframe']
  exact h

/-- Binding a pattern on top keeps the frame beneath where it is. -/
theorem bind (h : Over base within within' known known') (pattern : Pattern) :
    Over base within within' (known.bind pattern) (known'.bind pattern) :=
  Beneath.bind h (pattern.name, pattern.id)

/-- Declaring a pattern on top keeps the frame beneath where it is. -/
theorem declare (h : Over base within within' known known') (pattern : Pattern) :
    Over base within within' (known.declare within pattern) (known'.declare within' pattern) :=
  (h.bind pattern).congr (frame_declarePath _ _ _) (frame_declarePath _ _ _)

/-- A new frame is the same in both places. -/
theorem opened (h : Over base within within' known known') :
    Over base (within.inside known) (within'.inside known') known.opened known'.opened :=
  .inner [] h

/-- Binding parameters on top keeps the frame beneath where it is. -/
theorem bindParameters (h : Over base within within' known known') (parameters : List Parameter) :
    Over base within within' (parameters.foldl bindParameter known)
      (parameters.foldl bindParameter known') := by
  induction parameters generalizing known known' with
  | nil => exact h
  | cons parameter rest ih =>
    refine ih ?_
    cases parameter with
    | placeholder id => exact h
    | parameter id externalName localName form defaultValue => exact h.bind localName

end Over

end Known

/-! ## Statements and declarations -/

mutual

/-- A statement keeps its uses, and what it declares, with a frame beneath. -/
theorem Statement.overlies : (statement : Statement) → {within within' : Surroundings} →
    {known known' : Known} → Known.Over base within within' known known' →
      Overlies base within within' (statement.resolveIn within known)
        (statement.resolveIn within' known')
  | .declaration _ content, _, _, _, _, h => content.overlies h
  | .branch _ condition block, _, _, _, _, h => by
    obtain ⟨hafter, huses⟩ := Statement.overliesAll block h
    exact ⟨hafter, List.rel_append (h.uses condition) huses⟩
  | .loop _ pattern iterated block, _, _, _, _, h => by
    have hinner := h.opened.bind pattern
    obtain ⟨-, huses⟩ := Statement.overliesAll block hinner
    exact ⟨h, List.rel_append (hinner.uses iterated) huses⟩
  | .expression _ expression, _, _, _, _, h | .result _ expression, _, _, _, _, h =>
    ⟨h, h.uses expression⟩
  | .placeholder _, _, _, _, _, h => ⟨h, .nil⟩

theorem Declaration.overlies : (declaration : Declaration) → {within within' : Surroundings} →
    {known known' : Known} → Known.Over base within within' known known' →
      Overlies base within within' (declaration.resolveIn within known)
        (declaration.resolveIn within' known')
  | .value _ name _ initializer, _, _, _, _, h => by
    refine ⟨h.declare name, ?_⟩
    cases initializer with
    | none => exact .nil
    | some initializer => exact h.uses initializer
  | .function _ name _ _ parameters block, within, within', known, known', h => by
    have hdeclared := h.declare name
    -- both sides declare the name in their innermost frame, and open another one above it
    have hinner : Known.Over base
        { within.inside (known.declare within name) with inFunction := true }
        { within'.inside (known'.declare within' name) with inFunction := true } _ _ :=
      hdeclared.opened.bindParameters parameters
    obtain ⟨-, huses⟩ := Statement.overliesAll block hinner
    exact ⟨hdeclared, List.rel_append (Parameter.keeps_flatMap_uses hinner.value?_eq parameters)
      huses⟩
  | .enumeration _ name _ cases, within, within', known, known', h =>
    ⟨h.congr (Known.frame_declareCases cases _ _) (Known.frame_declareCases cases _ _), .nil⟩
  | .record _ name _ _, _, _, _, _, h => by
    rw [Declaration.resolveIn, Declaration.resolveIn]
    split
    · exact ⟨h, .nil⟩
    · exact ⟨h.declare name, .nil⟩
  | .space _ name declarations, within, within', known, known', h => by
    -- inside, the two differ in what lies beneath, as they did outside
    have hinner : Known.Over base ((within.inside known).below name)
        ((within'.inside known').below name) known.opened known'.opened := h.opened
    obtain ⟨-, huses⟩ := Declaration.overliesAll declarations hinner
    exact ⟨h, huses⟩
  | .library _ _, _, _, _, _, h | .placeholder _, _, _, _, _, h => ⟨h, .nil⟩

/-- A block keeps its uses with a frame beneath, statement after statement. -/
theorem Statement.overliesAll : (block : List Statement) → {within within' : Surroundings} →
    {known known' : Known} → Known.Over base within within' known known' →
      Overlies base within within' (Statement.resolveAllIn block within known)
        (Statement.resolveAllIn block within' known')
  | [], _, _, _, _, h => ⟨h, .nil⟩
  | statement :: rest, _, _, _, _, h => by
    obtain ⟨hnext, huses⟩ := statement.overlies h
    obtain ⟨hafter, hothers⟩ := Statement.overliesAll rest hnext
    exact ⟨hafter, List.rel_append huses hothers⟩

theorem Declaration.overliesAll : (declarations : List Declaration) →
    {within within' : Surroundings} → {known known' : Known} →
    Known.Over base within within' known known' →
      Overlies base within within' (Declaration.resolveAllIn declarations within known)
        (Declaration.resolveAllIn declarations within' known')
  | [], _, _, _, _, h => ⟨h, .nil⟩
  | declaration :: rest, _, _, _, _, h => by
    obtain ⟨hnext, huses⟩ := declaration.overlies h
    obtain ⟨hafter, hothers⟩ := Declaration.overliesAll rest hnext
    exact ⟨hafter, List.rel_append huses hothers⟩

end

/-! ## Programs -/

/-- The program with more statements in front of its own. -/
def Program.prepend (first : List Statement) (program : Program) : Program :=
  { program with block := first ++ program.block }

namespace Use

variable {uses uses' : List Use}

/-- Each of some uses is kept by one of the others. -/
theorem exists_keeps (h : List.Forall₂ Keeps uses uses') {use : Use} (huse : use ∈ uses) :
    ∃ use' ∈ uses', use.Keeps use' := by
  induction h with
  | nil => cases huse
  | @cons first first' _ _ hfirst _ ih =>
    rcases List.mem_cons.1 huse with rfl | huse
    · exact ⟨first', List.mem_cons_self, hfirst⟩
    · obtain ⟨use', huse', hkeeps⟩ := ih huse
      exact ⟨use', List.mem_cons_of_mem _ huse', hkeeps⟩

/-- An identifier that refers to nothing now did not refer to anything before. -/
theorem Keeps.isUnresolved {use use' : Use} (h : use.Keeps use') (hnone : use'.isUnresolved) :
    use.isUnresolved := by
  obtain ⟨site, target⟩ := use
  obtain ⟨site', target'⟩ := use'
  obtain rfl : site' = site := h.site_eq
  cases site' with
  | identifier id used =>
    cases target' with
    | some pattern => cases hnone
    | none =>
      cases target with
      | none => rfl
      | some pattern => cases h.target_eq id used rfl pattern rfl
  | binary | call | literal | member | placeholder => cases hnone

/-- Uses that are kept can only become resolved: no use is newly unresolved. -/
theorem unresolved_sublist_of_keeps (h : List.Forall₂ Keeps uses uses') :
    (unresolved uses').Sublist (unresolved uses) := by
  induction h with
  | nil => exact .refl _
  | @cons use use' _ _ hfirst _ ih =>
    rw [unresolved, unresolved, List.filter_cons, List.filter_cons]
    by_cases hnone : use'.isUnresolved
    · rw [if_pos hnone, if_pos (hfirst.isUnresolved hnone), List.map_cons, List.map_cons,
        hfirst.site_eq]
      exact ih.cons_cons _
    · rw [if_neg hnone]
      split
      · exact ih.cons _
      · exact ih

end Use

/-- Blocks are resolved one after the other, the second with what the first has declared. -/
theorem Statement.resolveAllIn_append (first second : List Statement) (within : Surroundings)
    (known : Known) :
    Statement.resolveAllIn (first ++ second) within known =
      let (next, uses) := Statement.resolveAllIn first within known
      let (after, others) := Statement.resolveAllIn second within next
      (after, uses ++ others) := by
  induction first generalizing known with
  | nil => rfl
  | cons statement rest ih =>
    simp only [List.cons_append, Statement.resolveAllIn, ih, List.append_assoc]

namespace Program

variable {program : Program} {first : List Statement}

/-- The statements in front make their bindings known beneath those of the program. -/
theorem lexical_prepend (program : Program) (first : List Statement) :
    ∃ uses, (program.prepend first).lexical.2 =
        (Statement.resolveAllIn first {} {}).2 ++ uses ∧
      List.Forall₂ Use.Keeps program.lexical.2 uses := by
  have hstart : Known.Over (Statement.resolveAllIn first {} {}).1.frame {} {} {}
      (Statement.resolveAllIn first {} {}).1 := .outermost []
  refine ⟨_, ?_, (Statement.overliesAll program.block hstart).uses⟩
  rw [lexical, prepend, Statement.resolveAllIn_append]

/-- The identifiers of a program with statements in front are those of both. -/
theorem ids_prepend (program : Program) (first : List Statement) :
    (program.prepend first).outline.ids.Perm
      ((Statement.outlines first).flatMap Outline.ids ++ program.outline.ids) := by
  rw [outline, outline, Outline.ids_node, Outline.ids_node, prepend, Statement.outlines_append,
    List.flatMap_append]
  exact List.perm_middle.symm

/-- The keys of the uses in some statements are ids of theirs. -/
theorem keys_resolveAllIn_subset (block : List Statement) (within : Surroundings) (known : Known) :
    (Statement.resolveAllIn block within known).2.flatMap Use.keys ⊆
      (Statement.outlines block).flatMap Outline.ids := by
  have hkeys : (Statement.resolveAllIn block within known).2.flatMap Use.keys =
      (Statement.outlines block).flatMap fun c => c.mentions.flatMap Expression.useKeys := by
    rw [← List.flatMap_assoc, ← Outline.mentionsAll_eq_flatMap,
      ← Statement.map_site_resolveAllIn block within known, List.flatMap_map]
    rfl
  rw [hkeys]
  refine (List.Sublist.flatMap_right _ fun c hc => ?_).subset
  exact Outline.flatMap_useKeys_mentions_sublist (Statement.outlines_faithful block c hc)

/-- Statements in front of a program change nothing for an identifier that is resolved without
them. -/
theorem patternFor_prepend (distinct : ((program.prepend first).nodes.map Node.id).Nodup)
    {id : NodeId} {used : Identifier} (he : .expression (.identifier id used) ∈ program.nodes)
    {pattern : NodeId} (hpattern : (program.resolve none).patternFor id = some pattern)
    {key : NodeId} (hkey : key ∈ (Expression.identifier id used).useKeys) :
    ((program.prepend first).resolve none).patternFor key = some pattern := by
  have hown : (program.nodes.map Node.id).Nodup :=
    (List.nodup_append'.1 ((ids_prepend program first).nodup_iff.1 distinct)).2.1
  -- the use of the identifier in the program
  rw [Scope.patternFor, program.identifiers_resolve] at hpattern
  have hmem : id ∈ program.lexical.2.flatMap Use.keys := by
    by_contra hnone
    rw [Use.find_foldl_record_of_not_mem hnone] at hpattern
    cases hpattern
  obtain ⟨use, huse, hid⟩ := List.mem_flatMap.1 hmem
  have hsite := site_eq_of_mem_keys hown he huse hid
  rw [Use.find_foldl_record (nodup_keys_lexical hown) huse hid rfl] at hpattern
  -- and the use of it behind the other statements
  obtain ⟨uses, hlexical, hkeeps⟩ := lexical_prepend program first
  obtain ⟨use', huse', hsame⟩ := Use.exists_keeps hkeeps huse
  have hmem' : use' ∈ (program.prepend first).lexical.2 :=
    hlexical ▸ List.mem_append_right _ huse'
  have hkey' : key ∈ use'.keys := by
    rw [Use.keys, hsame.site_eq, hsite]
    exact hkey
  rw [Scope.patternFor, identifiers_resolve,
    Use.find_foldl_record (nodup_keys_lexical distinct) hmem' hkey' rfl]
  exact hsame.target_eq id used hsite pattern hpattern

/-- Behind other statements, no more identifiers of a program refer to nothing. -/
theorem unresolved_prepend (distinct : ((program.prepend first).nodes.map Node.id).Nodup)
    {id : NodeId} (hid : id ∈ program.nodes.map Node.id)
    (hnone : id ∈ ((program.prepend first).resolve none).unresolved) :
    id ∈ (program.resolve none).unresolved := by
  obtain ⟨uses, hlexical, hkeeps⟩ := lexical_prepend program first
  rw [unresolved_resolve, hlexical, Use.unresolved_append, List.mem_append] at hnone
  rw [unresolved_resolve]
  rcases hnone with hfirst | hown
  · -- an identifier of the other statements has another id
    have hother := keys_resolveAllIn_subset first {} {} ((Use.unresolved_sublist _).subset hfirst)
    have hdisjoint := (List.nodup_append'.1 ((ids_prepend program first).nodup_iff.1 distinct)).2.2
    exact absurd hid (hdisjoint hother)
  · exact (Use.unresolved_sublist_of_keeps hkeeps).subset hown

end Program

end TreeLang
