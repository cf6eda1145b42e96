import TreeLang.Proofs.Typing.Mentions

/-!
# When declarations are known to inference

Inference and name resolution walk a program on their own, and each of them has its own moment for a
declaration. Yet whatever a name can refer to has its final term, if it ever gets one, by the time
inference comes to the name. The proof goes through the syntax with both: all that is known to name
resolution is settled in the state of inference.
-/

namespace TreeLang

open Generator (visit Extends)
open Outline (tourAll callsPreAll entered between)

namespace Inference

/-- The pattern has in a state the term that it has in the end, or none if it never gets one. -/
def Settled (i : Inference) (g : Generator) (id : NodeId) : Prop :=
  i.typing.pattern id = g.patternTerm id

/-- The uses that some calls come to are among the given ones, and what they refer to is settled
by then. -/
def Covers (i : Inference) (uses : List Use) (calls : List (Call Generator)) : Prop :=
  ∀ call ∈ calls, call.again = false → ∀ e, call.node = .expression e → e.isMention →
    ∃ use ∈ uses, use.site = e ∧ ∀ target, use.target = some target → i.Settled call.state target

variable {i : Inference} {g g' : Generator} {function : Option Pattern} {item : Node}
  {children : List Outline} {outline : Outline}

/-- Whether a term is final depends on the patterns' terms alone. -/
theorem settled_congr (h : g'.patternTerm = g.patternTerm) : i.Settled g' = i.Settled g := by
  funext id
  rw [Settled, Settled, h]

/-! ## What settles -/

/-- What is settled stays so during the walk of an outline, and what is declared in it settles. -/
theorem settled_tour (hfaithful : outline.Faithful)
    (hkeeps : i.Keeps outline (outline.tour visit g)) {id : NodeId} (h : i.Settled g id) :
    i.Settled (outline.tour visit g) id := by
  by_cases hid : id ∈ outline.declared
  · exact hkeeps.patterns id hid
  · rw [Settled, (hfaithful.extends_tour g).patterns id hid]
    exact h

namespace Walks

variable {c : Outline} {outlines later : List Outline}

/-- The walk of the first of several outlines. -/
theorem first (w : i.Walks function (c :: later) g) : i.Walks function [c] g := by
  have hdistinct := w.distinct
  rw [List.flatMap_cons, List.nodup_append'] at hdistinct
  refine ⟨List.forall_mem_singleton.2 (w.faithful c List.mem_cons_self), ?_,
    List.forall_mem_singleton.2 (w.ready c List.mem_cons_self),
    List.forall_mem_singleton.2 w.keeps_first⟩
  rw [List.flatMap_singleton]
  exact hdistinct.1

/-- A final term stays final, as the rest of the walk does not write it. -/
theorem settled (w : i.Walks function [c] g) {id : NodeId} (h : i.Settled g id) :
    i.Settled (c.tour visit g) id :=
  settled_tour (w.faithful c List.mem_cons_self) w.keeps_first h

/-- The walk of some outlines after that of others. -/
theorem drop (w : i.Walks function (outlines ++ later) g) :
    i.Walks function later (tourAll visit outlines g) := by
  induction outlines generalizing g with
  | nil => exact w
  | cons c rest ih => exact ih w.later

/-- The walk of one outline is one of the node at its root. -/
theorem walk (w : i.Walks function [.node item children] g) : i.Walk function item children g := by
  have hdistinct := w.distinct
  rw [List.flatMap_singleton] at hdistinct
  obtain ⟨root, below⟩ := w.faithful _ List.mem_cons_self
  exact ⟨root, below, hdistinct, w.ready _ List.mem_cons_self, w.keeps_first⟩

end Walks

namespace Walk

/-- What is settled after the children of a node is so after its second visit. -/
theorem settled_of_between (w : i.Walk function item children g) {id : NodeId}
    (h : i.Settled (between item children g) id) :
    i.Settled ((Outline.node item children).tour visit g) id := by
  by_cases hid : id ∈ (Outline.node item children).declared
  · exact w.keeps.patterns id hid
  · have hitem : id ∉ item.declares := fun hmem => hid (Outline.declares_subset_declared hmem)
    rw [Settled, Outline.tour_node]
    split
    · by_cases hname : item.functionName = none
      · rw [(Generator.extends_leave hname _).patterns id hitem]
        exact h
      · obtain ⟨own, name, result, generics, parameters, block, rfl⟩ :=
          Node.exists_function_of_functionName hname
        exact h
    · exact h

/-- What a node declares is settled once it has been walked. -/
theorem settled_declares (w : i.Walk function item children g) {id : NodeId}
    (hid : id ∈ item.declares) : i.Settled ((Outline.node item children).tour visit g) id :=
  w.keeps.patterns id (Outline.declares_subset_declared hid)

end Walk

/-! ## Covering -/

namespace Covers

variable {uses others : List Use} {calls later : List (Call Generator)}

/-- No uses are covered by no calls. -/
theorem nil : i.Covers uses [] := nofun

/-- The calls of two stretches cover the uses of both. -/
theorem append (h : i.Covers uses calls) (h' : i.Covers others later) :
    i.Covers (uses ++ others) (calls ++ later) := by
  intro call hcall hfirst e hnode hmention
  rcases List.mem_append.1 hcall with hcall | hcall
  · obtain ⟨use, huse, hsite⟩ := h call hcall hfirst e hnode hmention
    exact ⟨use, List.mem_append_left _ huse, hsite⟩
  · obtain ⟨use, huse, hsite⟩ := h' call hcall hfirst e hnode hmention
    exact ⟨use, List.mem_append_right _ huse, hsite⟩

/-- In an outline that mentions nothing there is nothing to cover. -/
theorem of_mentions (h : outline.mentions = []) : i.Covers [] (outline.callsPre visit g) := by
  intro call hcall hfirst e hnode hmention
  have hmem := Outline.mem_mentions_of_call hcall hfirst hnode hmention
  rw [h] at hmem
  cases hmem

/-- An outline that mentions nothing may be skipped. -/
theorem skip {rest : List Outline} (h : outline.mentions = [])
    (hrest : i.Covers uses (callsPreAll visit rest (outline.tour visit g))) :
    i.Covers uses (callsPreAll visit (outline :: rest) g) := by
  rw [Outline.callsPreAll_cons]
  exact (of_mentions h).append hrest

/-- Outlines without uses can be walked first. -/
theorem skipAll {outlines rest : List Outline} (h : Outline.mentionsAll outlines = [])
    (hrest : i.Covers uses (callsPreAll visit rest (tourAll visit outlines g))) :
    i.Covers uses (callsPreAll visit (outlines ++ rest) g) := by
  induction outlines generalizing g with
  | nil => exact hrest
  | cons c outlines ih =>
    rw [Outline.mentionsAll, List.append_eq_nil_iff] at h
    exact skip h.1 (ih h.2 hrest)

/-- A single outline covers what its own calls cover. -/
theorem single (h : i.Covers uses (outline.callsPre visit g)) :
    i.Covers uses (callsPreAll visit [outline] g) := by
  rw [Outline.callsPreAll_cons]
  have hall : i.Covers (uses ++ []) (outline.callsPre visit g ++ []) := h.append .nil
  rwa [List.append_nil] at hall

/-- A node that is no expression is covered when its children are. -/
theorem node (hitem : ∀ e, item ≠ .expression e)
    (h : (g.enter item {}).1.ignoreChildren = false →
      i.Covers uses (callsPreAll visit children (entered item g))) :
    i.Covers uses ((Outline.node item children).callsPre visit g) := by
  intro call hcall hfirst e hnode hmention
  rw [Outline.callsPre_node, List.mem_cons, List.mem_append] at hcall
  rcases hcall with rfl | hcall | hcall
  · exact absurd hnode (hitem e)
  · rw [Outline.callsBelow] at hcall
    split at hcall
    · cases hcall
    · next hignore => exact h (Bool.eq_false_iff.2 hignore) call hcall hfirst e hnode hmention
  · split at hcall
    · rw [List.mem_singleton.1 hcall] at hnode
      exact absurd hnode (hitem e)
    · cases hcall

end Covers

end Inference

/-! ## Expressions -/

/-- A node declares its own patterns and those below it. -/
theorem Outline.declared_node (item : Node) (children : List Outline) :
    (Outline.node item children).declared =
      item.declares ++ children.flatMap Outline.declared := by
  rw [Outline.declared, Outline.preorder, Outline.preorders_eq_flatMap, List.flatMap_cons,
    List.flatMap_assoc]
  rfl

mutual

/-- Expressions declare nothing. -/
theorem Expression.declared_outline : (expression : Expression) →
    expression.outline.declared = []
  | .binary _ left right _ => by
    rw [Expression.outline, Outline.declared_node, List.flatMap_cons, List.flatMap_singleton,
      left.declared_outline, right.declared_outline]
    rfl
  | .identifier _ _ | .placeholder _ => rfl
  | .call _ callee arguments => by
    rw [Expression.outline, Outline.declared_node, List.flatMap_cons, callee.declared_outline,
      Argument.declared_outlines arguments]
    rfl
  | .literal _ literal => by
    rw [Expression.outline, Outline.declared_node, List.flatMap_singleton,
      literal.declared_outline]
    rfl
  | .member _ base _ => by
    rw [Expression.outline, Outline.declared_node, List.flatMap_cons, base.declared_outline]
    rfl

/-- Nothing is declared inside an argument. -/
theorem Argument.declared_outline : (argument : Argument) → argument.outline.declared = []
  | .argument _ _ expression => by
    rw [Argument.outline, Outline.declared_node, List.flatMap_singleton,
      expression.declared_outline]
    rfl
  | .placeholder _ => rfl

/-- Nothing is declared inside a literal. -/
theorem Literal.declared_outline : (literal : Literal) → literal.outline.declared = []
  | .array _ items => by
    rw [Literal.outline, Outline.declared_node, Expression.declared_outlines items]
    rfl
  | .none _ | .boolean _ _ | .number _ _ | .string _ _ | .color _ _ => rfl

/-- Nothing is declared inside a list of expressions. -/
theorem Expression.declared_outlines : (expressions : List Expression) →
    (Expression.outlines expressions).flatMap Outline.declared = []
  | [] => rfl
  | expression :: rest => by
    rw [Expression.outlines, List.flatMap_cons, expression.declared_outline,
      Expression.declared_outlines rest, List.append_nil]

/-- Nothing is declared inside a list of arguments. -/
theorem Argument.declared_outlines : (arguments : List Argument) →
    (Argument.outlines arguments).flatMap Outline.declared = []
  | [] => rfl
  | argument :: rest => by
    rw [Argument.outlines, List.flatMap_cons, argument.declared_outline,
      Argument.declared_outlines rest, List.append_nil]

end

/-- The walk of an expression gives no terms to patterns. -/
theorem Expression.patternTerm_tour (expression : Expression) (g : Generator) :
    (expression.outline.tour visit g).patternTerm = g.patternTerm := by
  funext id
  refine (expression.outline_faithful.extends_tour g).patterns id ?_
  rw [expression.declared_outline]
  exact List.not_mem_nil

section Expressions

variable {i : Inference} {g : Generator} {value? : String → Option NodeId}
  {declaration? : List String → Option NodeId}

/-- The uses in an expression are covered when all that they can refer to is settled. -/
theorem Expression.covers (h : Lookups (i.Settled g) value? declaration?)
    (expression : Expression) :
    i.Covers (expression.uses value? declaration?) (expression.outline.callsPre visit g) := by
  intro call hcall hfirst e hnode hmention
  have hmem := Outline.mem_mentions_of_call hcall hfirst hnode hmention
  rw [← expression.map_site_uses value? declaration?, List.mem_map] at hmem
  obtain ⟨use, huse, hsite⟩ := hmem
  refine ⟨use, huse, hsite, fun target htarget => ?_⟩
  have hsettled : i.Settled g target := expression.all_uses h use huse target htarget
  rw [Inference.Settled,
    Outline.patternTerm_of_mem_callsPre expression.outline_faithful hcall hfirst]
  · exact hsettled
  · rw [expression.declared_outline]
    exact List.not_mem_nil

/-! ## Parameters -/

/-- A written type changes nothing when it is walked. -/
theorem TypeForm.tour_visit (form : TypeForm) (g : Generator) : form.outline.tour visit g = g := by
  cases form <;> rfl

/-- Generic parameters change nothing when they are walked. -/
theorem GenericParameter.tourAll_visit (generics : List GenericParameter) (g : Generator) :
    tourAll visit (generics.map GenericParameter.outline) g = g := by
  refine Outline.tourAll_eq_self (fun c hc g => ?_) g
  obtain ⟨generic, -, rfl⟩ := List.mem_map.1 hc
  cases generic <;> rfl

/-- The walk of a parameter gives no terms to patterns: its own has got one before. -/
theorem Parameter.patternTerm_tour (parameter : Parameter) (g : Generator) :
    (parameter.outline.tour visit g).patternTerm = g.patternTerm := by
  cases parameter with
  | placeholder id => rfl
  | parameter id externalName localName form defaultValue =>
    cases defaultValue with
    | none =>
      change (form.outline.tour visit g).patternTerm = g.patternTerm
      rw [form.tour_visit]
    | some value =>
      change (Generator.constrainKnown _ _
        (value.outline.tour visit (form.outline.tour visit g))).patternTerm = g.patternTerm
      funext id
      rw [Generator.patternTerm_constrainKnown, value.patternTerm_tour, form.tour_visit]

/-- The uses in a parameter's default are visited with their targets' terms final. -/
theorem Parameter.covers (h : Lookups (i.Settled g) value? declaration?) (parameter : Parameter) :
    i.Covers (parameter.uses value? declaration?) (parameter.outline.callsPre visit g) := by
  cases parameter with
  | placeholder id => exact .of_mentions rfl
  | parameter id externalName localName form defaultValue =>
    cases defaultValue with
    | none => exact .node nofun fun _ => .skip rfl (.skip form.mentions_outline .nil)
    | some value =>
      refine .node nofun fun _ => .skip rfl (.skip form.mentions_outline (.single ?_))
      rw [form.tour_visit]
      exact value.covers h

/-- The uses in the defaults of a list of parameters are visited with their targets' terms final. -/
theorem Parameter.coversAll (parameters : List Parameter)
    (h : Lookups (i.Settled g) value? declaration?) :
    i.Covers (parameters.flatMap (Parameter.uses value? declaration?))
      (callsPreAll visit (parameters.map Parameter.outline) g) := by
  induction parameters generalizing g with
  | nil => exact .nil
  | cons parameter rest ih =>
    rw [List.flatMap_cons, List.map_cons, Outline.callsPreAll_cons]
    refine (parameter.covers h).append (ih ?_)
    rwa [Inference.settled_congr (parameter.patternTerm_tour g)]

/-- Parameters have been given their terms by the declaration, so that walking them gives none. -/
theorem Parameter.patternTerm_tourAll (parameters : List Parameter) (g : Generator) :
    (tourAll visit (parameters.map Parameter.outline) g).patternTerm = g.patternTerm := by
  induction parameters generalizing g with
  | nil => rfl
  | cons parameter rest ih =>
    rw [List.map_cons, tourAll, ih, parameter.patternTerm_tour]

end Expressions

/-! ## Functions -/

/-- In a function nothing happens before its parameters. -/
theorem Outline.tourAll_header (name : Pattern) (result : TypeForm)
    (generics : List GenericParameter) (g : Generator) :
    tourAll visit (name.outline :: result.outline :: generics.map GenericParameter.outline) g =
      g := by
  change tourAll visit _ (result.outline.tour visit g) = g
  rw [result.tour_visit, GenericParameter.tourAll_visit]

namespace Inference.Walk

variable {i : Inference} {function : Option Pattern} {item : Node} {children : List Outline}
  {g : Generator} {id : NodeId} {name : Pattern} {result : TypeForm}
  {generics : List GenericParameter} {parameters : List Parameter} {block : List Statement}
  (w : i.Walk function item children g)
  (hitem : item = .declaration (.function id name result generics parameters block))

include w hitem

/-- The children of a function: its header, its parameters and its block. -/
theorem children_eq : children = (name.outline :: result.outline ::
    generics.map GenericParameter.outline) ++
      (parameters.map Parameter.outline ++ Statement.outlines block) := by
  rw [← Outline.children_of_root w.root, hitem]
  rfl

/-- The block of a function is walked after its parameters, and nothing happens before these. -/
theorem walks_block : i.Walks (some name) (Statement.outlines block)
    (tourAll visit (parameters.map Parameter.outline) (entered item g)) := by
  have hchildren := w.children_eq hitem
  subst hitem hchildren
  have hwalks := (w.walks_children rfl rfl).drop
  rw [Outline.tourAll_header] at hwalks
  exact hwalks.drop

/-- The children of a function are its parameters and then its block. -/
theorem between_eq : between item children g = tourAll visit (Statement.outlines block)
    (tourAll visit (parameters.map Parameter.outline) (entered item g)) := by
  obtain ⟨-, -, -, -, -, -, hbetween, -⟩ :=
    Outline.tour_function id name result generics parameters block children g
  have hchildren := w.children_eq hitem
  subst hitem hchildren
  rw [hbetween, Outline.tourAll_append, Outline.tourAll_header, Outline.tourAll_append]

/-- A parameter has its final term from the first visit of its function on. -/
theorem settled_entered_parameter {pattern : NodeId}
    (hpattern : pattern ∈ parameters.flatMap Parameter.declares) :
    i.Settled (entered item g) pattern := by
  obtain ⟨parameter, hmem, hdeclares⟩ := List.mem_flatMap.1 hpattern
  have hdeclared : pattern ∈ parameter.outline.declared :=
    List.mem_flatMap.2 ⟨_, parameter.outline.item_mem_preorder, by rwa [parameter.outline_item]⟩
  have hchild : parameter.outline ∈ parameters.map Parameter.outline := List.mem_map_of_mem hmem
  have hopen : item.isClosed = false := by rw [hitem]; rfl
  have hchildren := w.children_eq hitem
  have hkept := (w.keeps_between hopen _ (hchildren ▸
    List.mem_append_right _ (List.mem_append_left _ hchild))).patterns pattern hdeclared
  -- the inference keeps the term that the parameter has after the block, which is the one before
  have hblock := Outline.extends_tourAll
    (fun c hc => (Statement.outlines_faithful block c hc).extends_tour)
    (tourAll visit (parameters.map Parameter.outline) (entered item g))
  have hdistinct := w.distinct
  rw [Outline.ids_node, List.nodup_cons, hchildren, List.flatMap_append, List.nodup_append',
    List.flatMap_append, List.nodup_append'] at hdistinct
  have helsewhere : pattern ∉ (Statement.outlines block).flatMap Outline.declared := by
    intro hlater
    exact hdistinct.2.2.1.2.2
      (List.mem_flatMap.2 ⟨_, hchild, parameter.outline_faithful.declared_subset_ids hdeclared⟩)
      (Outline.flatMap_declared_subset_ids (Statement.outlines_faithful block) hlater)
  rw [w.between_eq hitem, hblock.patterns pattern helsewhere,
    Parameter.patternTerm_tourAll] at hkept
  exact hkept

/-- What is settled before a function, its name and its parameters are settled after its first
visit. -/
theorem settled_entered_function (pattern : NodeId)
    (h : pattern = name.id ∨ pattern ∈ parameters.flatMap Parameter.declares ∨
      i.Settled g pattern) : i.Settled (entered item g) pattern := by
  obtain ⟨g₁, formals, term, hextends, -, hentered, -, -⟩ :=
    Outline.tour_function id name result generics parameters block children g
  have hname : i.Settled (entered item g) name.id := by
    subst hitem
    exact w.pattern_eq rfl List.mem_cons_self fun _ => rfl
  rcases h with rfl | hpattern | hsettled
  · exact hname
  · exact w.settled_entered_parameter hitem hpattern
  · by_cases heq : pattern = name.id
    · exact heq ▸ hname
    · by_cases hmem : pattern ∈ parameters.flatMap Parameter.declares
      · exact w.settled_entered_parameter hitem hmem
      · rw [Settled, hitem, hentered, Generator.patternTerm_setPattern, if_neg heq]
        exact hsettled.trans (hextends.patterns pattern hmem).symm

end Inference.Walk

end TreeLang
