import TreeLang.Proofs.Scope.Targets
import TreeLang.Proofs.Tree.Visits
import TreeLang.Proofs.Typing.Recording

/-!
# The uses that inference comes to

Inference walks less of a program than name resolution does. So every identifier and every path of
identifiers that it visits is a use for name resolution, and the parts of an expression are visited
while no pattern gets a term.
-/

namespace TreeLang

open Generator (visit)

/-- Whether name resolution takes the expression as a use: an identifier that is no placeholder, or
a path of identifiers. -/
def Expression.isMention : Expression → Bool
  | .identifier _ used => !used.isPlaceholder
  | .member id base name => (Expression.member id base name).memberPath.isSome
  | .binary _ _ _ _ | .call _ _ _ | .literal _ _ | .placeholder _ => false

namespace Outline

variable {item : Node} {children : List Outline} {outline : Outline} {g : Generator}
  {call : Call Generator}

/-- The first visits of a walk: of the node itself, or in one of its children when these are not
left out. -/
theorem eq_or_exists_of_mem_callsPre (h : call ∈ (node item children).callsPre visit g)
    (hfirst : call.again = false) :
    call = ⟨item, false, g⟩ ∨ (g.enter item {}).1.ignoreChildren = false ∧
      ∃ before c after, children = before ++ c :: after ∧
        call ∈ c.callsPre visit (tourAll visit before (entered item g)) :=
  eq_or_mem_child_of_mem_callsPre h hfirst

/-! ## What is visited is mentioned -/

/-- Inference leaves out the children of every node that name resolution does not look into. -/
theorem mentions_eq_of_walked (hwalked : (g.enter item {}).1.ignoreChildren = false) :
    (node item children).mentions = mentionsAll children := by
  cases item with
  | declaration declaration =>
    cases declaration with
    | record => cases hwalked
    | value | function | enumeration | space | library | placeholder => rfl
  | typeForm form => cases hwalked
  | expression expression =>
    cases expression with
    | identifier id used => cases hwalked
    | member id base name =>
      have hpath : (Expression.member id base name).memberPath.isSome = false := hwalked
      rw [mentions, hpath, if_neg Bool.false_ne_true]
    | binary | call | literal | placeholder => rfl
  | program | statement | pattern | identifier | literal | parameter | generic | case
  | argument => rfl

/-- What is mentioned in a child is mentioned among the children. -/
theorem mem_mentionsAll {expression : Expression} {c : Outline} (hc : c ∈ children)
    (h : expression ∈ c.mentions) : expression ∈ mentionsAll children := by
  rw [mentionsAll_eq_flatMap]
  exact List.mem_flatMap.2 ⟨c, hc, h⟩

/-- A use that inference visits is mentioned. -/
theorem mem_mentions_of_call {expression : Expression} (hcall : call ∈ outline.callsPre visit g)
    (hfirst : call.again = false) (hnode : call.node = .expression expression)
    (hmention : expression.isMention) : expression ∈ outline.mentions := by
  induction outline generalizing g with
  | node item children ih =>
    rcases eq_or_exists_of_mem_callsPre hcall hfirst with
      rfl | ⟨hwalked, before, c, after, rfl, hbelow⟩
    · obtain rfl : item = .expression expression := hnode
      cases expression with
      | identifier id used =>
        have hused : used.isPlaceholder = false := by simpa [Expression.isMention] using hmention
        rw [mentions, hused, if_neg Bool.false_ne_true]
        exact List.mem_singleton_self _
      | member id base name =>
        have hpath : (Expression.member id base name).memberPath.isSome := hmention
        rw [mentions, if_pos hpath]
        exact List.mem_singleton_self _
      | binary | call | literal | placeholder => cases hmention
    · have hc : c ∈ before ++ c :: after := List.mem_append_right _ List.mem_cons_self
      rw [mentions_eq_of_walked hwalked]
      exact mem_mentionsAll hc (ih c hc hbelow)

/-- Only uses are mentioned. -/
theorem isMention_of_mem_mentions {expression : Expression} (h : expression ∈ outline.mentions) :
    expression.isMention := by
  -- by induction on the outline, along the cases of `mentions`
  induction outline with
  | node item children ih =>
    have hchildren : expression ∈ mentionsAll children → expression.isMention := by
      rw [mentionsAll_eq_flatMap]
      intro hmem
      obtain ⟨c, hc, hmem⟩ := List.mem_flatMap.1 hmem
      exact ih c hc hmem
    rw [mentions.eq_def] at h
    split at h
    case h_1 | h_2 => cases h
    case h_3 id used rest heq =>
      split at h
      · cases h
      · next hused =>
        obtain rfl := List.mem_singleton.1 h
        simpa [Expression.isMention] using hused
    case h_4 id base name rest heq =>
      split at h
      · next hpath =>
        obtain rfl := List.mem_singleton.1 h
        exact hpath
      · cases heq
        exact hchildren h
    case h_5 heq =>
      cases heq
      exact hchildren h

/-! ## Along the calls -/

/-- The parts of a node are walked only if they are not closed off. -/
theorem isClosed_of_walked (hwalked : (g.enter item {}).1.ignoreChildren = false) :
    item.isClosed = false := by
  cases item with
  | declaration declaration =>
    cases declaration with
    | value id name form initializer =>
      rw [Generator.enter, Generator.enterDeclaration] at hwalked
      split at hwalked
      · next htyped =>
        rw [Node.isClosed, htyped]
        rfl
      · cases hwalked
    | record | enumeration => cases hwalked
    | function | space | library | placeholder => rfl
  | typeForm form => cases hwalked
  | program | statement | expression | pattern | identifier | literal | parameter | generic
  | case | argument => rfl

/-- The first visit of a node gives terms to patterns that are declared in its outline only. -/
theorem patternTerm_entered (root : item.outline = node item children) {id : NodeId}
    (hid : id ∉ (node item children).declared) :
    (entered item g).patternTerm id = g.patternTerm id := by
  by_cases hname : item.functionName = none
  · exact (Generator.extends_enter hname {} g).patterns id
      fun hmem => hid (declares_subset_declared hmem)
  · obtain ⟨own, name, result, generics, parameters, block, rfl⟩ :=
      Node.exists_function_of_functionName hname
    obtain ⟨g₁, formals, term, hextends, -, hentered, -, -⟩ :=
      tour_function own name result generics parameters block children g
    have hne : id ≠ name.id := by
      rintro rfl
      exact hid (declares_subset_declared List.mem_cons_self)
    rw [hentered, Generator.patternTerm_setPattern, if_neg hne]
    refine hextends.patterns id fun hmem => hid ?_
    have hparameters : id ∈ (Node.declaration
        (.function own name result generics parameters block)).outline.declared :=
      parameters_declares_subset hmem
    rwa [root] at hparameters

/-- A pattern that is declared elsewhere keeps its term up to each call in an outline. -/
theorem patternTerm_of_mem_callsPre (h : outline.Faithful) (hcall : call ∈ outline.callsPre visit g)
    (hfirst : call.again = false) {id : NodeId} (hid : id ∉ outline.declared) :
    call.state.patternTerm id = g.patternTerm id := by
  induction h generalizing g with
  | @node item children root below ih =>
    rcases eq_or_exists_of_mem_callsPre hcall hfirst with
      rfl | ⟨-, before, c, after, rfl, hbelow⟩
    · rfl
    · have hc : c ∈ before ++ c :: after := List.mem_append_right _ List.mem_cons_self
      have hbefore := extends_tourAll
        (fun c' hc' => (below c' (List.mem_append_left _ hc')).extends_tour) (entered item g)
      rw [ih c hc hbelow fun hmem => hid (declared_subset_of_mem hc hmem),
        hbefore.patterns id, patternTerm_entered root hid]
      intro hmem
      obtain ⟨c', hc', hmem⟩ := List.mem_flatMap.1 hmem
      exact hid (declared_subset_of_mem (List.mem_append_left _ hc') hmem)

end Outline

end TreeLang
