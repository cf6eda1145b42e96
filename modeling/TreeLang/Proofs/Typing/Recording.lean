import TreeLang.Proofs.Typing.Distinct
import TreeLang.Proofs.Typing.Judgement

/-!
# What inference records

Inference records at every node that it walks what the node asks of a typing. The proof is one
induction over the outline of the program. It compares with the terms that are recorded in the end,
since a visit reads what is known then, and with distinct ids nothing that it reads changes later.
-/

namespace TreeLang

open Generator (Extends visit)

/-- No visit of the generation stops the walk. -/
theorem Generator.visit_neverStops : Visitor.NeverStops visit := by
  intro node control g
  rw [visit]
  split
  · rfl
  · cases node with
    | declaration declaration =>
      cases declaration with
      | value id name form initializer =>
        simp only [Generator.enter, Generator.enterDeclaration]
        split <;> rfl
      | function | enumeration | record | space | library | placeholder => rfl
    | statement statement => cases statement <;> rfl
    | expression expression => cases expression <;> rfl
    | parameter parameter =>
      cases parameter with
      | placeholder => rfl
      | parameter id externalName localName form defaultValue => cases defaultValue <;> rfl
    | program | pattern | identifier | typeForm | literal | generic | case | argument => rfl

namespace Outline

variable {item : Node} {children : List Outline} {g g' : Generator}

/-! ## What a walk writes -/

/-- The state after the first visit of a node. -/
def entered (item : Node) (g : Generator) : Generator := (g.enter item {}).2

/-- The state between the two visits of a node. -/
def between (item : Node) (children : List Outline) (g : Generator) : Generator :=
  if (g.enter item {}).1.ignoreChildren then entered item g
  else tourAll visit children (entered item g)

/-- A walk of a node is its first visit, the walks of its children and, when it asks for one, its
second visit. -/
theorem tour_node (item : Node) (children : List Outline) (g : Generator) :
    (node item children).tour visit g =
      if (g.enter item {}).1.needsRevisit then (between item children g).leave item
      else between item children g := rfl

/-- A list of walks writes the ids and the patterns that the single walks write. -/
theorem extends_tourAll {outlines : List Outline}
    (h : ∀ c ∈ outlines, ∀ g, Extends c.ids c.declared g (c.tour visit g)) (g : Generator) :
    Extends (outlines.flatMap ids) (outlines.flatMap declared) g (tourAll visit outlines g) := by
  induction outlines generalizing g with
  | nil => exact .refl g
  | cons c rest ih =>
    obtain ⟨hfirst, hrest⟩ := List.forall_mem_cons.1 h
    rw [List.flatMap_cons, List.flatMap_cons]
    exact ((hfirst g).mono (List.subset_append_left _ _) (List.subset_append_left _ _)).trans
      ((ih hrest _).mono (List.subset_append_right _ _) (List.subset_append_right _ _))

/-- The ids of the children are ids of the node. -/
theorem flatMap_ids_subset : children.flatMap ids ⊆ (node item children).ids := by
  rw [ids_node]
  exact List.subset_cons_self _ _

/-- The patterns that the children declare are declared by the node. -/
theorem flatMap_declared_subset : children.flatMap declared ⊆ (node item children).declared := by
  intro id hid
  obtain ⟨c, hc, hid⟩ := List.mem_flatMap.1 hid
  exact declared_subset_of_mem hc hid

/-- What the walk of the children writes, whether they are left out or not. -/
theorem extends_between
    (h : ∀ c ∈ children, ∀ g, Extends c.ids c.declared g (c.tour visit g)) (g : Generator) :
    Extends (children.flatMap ids) (children.flatMap declared) (entered item g)
      (between item children g) := by
  rw [between]
  split
  · exact .refl _
  · exact extends_tourAll h _

/-- The walk over a function: its parameters and then it get their terms, its result type is the
innermost one while the children are walked, and the state is popped after them. -/
theorem tour_function (id : NodeId) (name : Pattern) (result : TypeForm)
    (generics : List GenericParameter) (parameters : List Parameter) (block : List Statement)
    (children : List Outline) (g : Generator) :
    let item := Node.declaration (.function id name result generics parameters block)
    ∃ g₁ formals term, Extends [] (parameters.flatMap Parameter.declares) g g₁ ∧
      (∀ id ∈ parameters.flatMap Parameter.declares, (g₁.patternTerm id).isSome) ∧
      entered item g =
        ({ g₁ with results := term :: g₁.results }).setPattern name.id (.fn formals term) ∧
      between item children g = tourAll visit children (entered item g) ∧
      (node item children).tour visit g = { (between item children g).popGenerics with
        results := (between item children g).results.tail } := by
  intro item
  obtain ⟨g₁, formals, term, hextends, hknown, henter⟩ :=
    Generator.enter_function id name result generics parameters block {} g
  refine ⟨g₁, formals, term, hextends, hknown, ?_, ?_, ?_⟩
  · rw [entered, henter]
  · rw [between, henter]
    rfl
  · rw [tour_node, henter, if_pos rfl, Generator.leave_function]

/-- A walk over an outline writes to the expressions and to the patterns in it. -/
theorem Faithful.extends_tour {outline : Outline} (h : outline.Faithful) (g : Generator) :
    Extends outline.ids outline.declared g (outline.tour visit g) := by
  -- by induction on the outline, with functions apart: they change the innermost result on the way
  induction h generalizing g with
  | @node item children root below ih =>
    have hchildren : Extends (Outline.node item children).ids (Outline.node item children).declared
        (entered item g) (between item children g) :=
      (extends_between ih g).mono flatMap_ids_subset flatMap_declared_subset
    by_cases hname : item.functionName = none
    · have hvisit : ∀ {g g'}, Extends item.typed item.declares g g' →
          Extends (Outline.node item children).ids (Outline.node item children).declared g g' :=
        fun hv => hv.mono (typed_subset_ids root) declares_subset_declared
      have hbetween := (hvisit (Generator.extends_enter hname {} g)).trans hchildren
      rw [tour_node]
      split
      · exact hbetween.trans (hvisit (Generator.extends_leave hname _))
      · exact hbetween
    · -- a function writes its own pattern after its parameters, and takes its result off again
      obtain ⟨id, name, result, generics, parameters, block, rfl⟩ :=
        Node.exists_function_of_functionName hname
      obtain ⟨g₁, formals, term, hextends, -, hentered, -, htour⟩ :=
        tour_function id name result generics parameters block children g
      rw [hentered] at hchildren
      have hdeclares : name.id ∈ (Outline.node (.declaration
          (.function id name result generics parameters block)) children).declared :=
        declares_subset_declared List.mem_cons_self
      have hbody := (Generator.extends_setPattern hdeclares (.fn formals term)).trans hchildren
      rw [htour]
      exact (hextends.mono (List.nil_subset _) (root ▸ parameters_declares_subset)).trans
        hbody.popped

end Outline

/-! ## States along a walk -/

/-- The inference ends with the terms that a state has for an outline, and with its constraints. -/
structure Inference.Keeps (i : Inference) (outline : Outline) (g : Generator) : Prop where
  nodes : ∀ e, .expression e ∈ outline.preorder → i.typing.expression e.id = g.nodeTerm e.id
  patterns : ∀ id ∈ outline.declared, i.typing.pattern id = g.patternTerm id
  constraints : g.inference.constraints ⊆ i.constraints

/-- The state in which the walk of an outline may start: its expressions have no terms yet, a
parameter has one, and the innermost result type is that of the function around. -/
structure Inference.Ready (i : Inference) (outline : Outline) (function : Option Pattern)
    (g : Generator) : Prop where
  fresh : ∀ e, .expression e ∈ outline.preorder → g.nodeTerm e.id = none
  known : ∀ p, outline.item = .parameter p → ∀ id ∈ p.declares, (g.patternTerm id).isSome
  result : ∀ name ∈ function, ∃ formals term,
    i.typing.pattern name.id = some (.fn formals term) ∧ g.results.head? = some term

namespace Inference

variable {i : Inference} {outline : Outline} {function : Option Pattern} {g g' : Generator}
  {typed declared : List NodeId}

/-- What the inference keeps it had before anything else was written. -/
theorem Keeps.before (h : i.Keeps outline g') (hextends : Extends typed declared g g')
    (htyped : ∀ e, .expression e ∈ outline.preorder → e.id ∉ typed)
    (hdeclared : ∀ id ∈ outline.declared, id ∉ declared) : i.Keeps outline g where
  nodes e he := (h.nodes e he).trans (hextends.nodes _ (htyped e he))
  patterns id hid := (h.patterns id hid).trans (hextends.patterns _ (hdeclared id hid))
  constraints := List.Subset.trans hextends.constraints h.constraints

/-- The walk of an outline may still start after anything else is written. -/
theorem Ready.after (h : i.Ready outline function g) (hextends : Extends typed declared g g')
    (htyped : ∀ e, .expression e ∈ outline.preorder → e.id ∉ typed) :
    i.Ready outline function g' where
  fresh e he := (hextends.nodes _ (htyped e he)).trans (h.fresh e he)
  known p hp id hid := hextends.known id (h.known p hp id hid)
  result name hname := by
    obtain ⟨formals, term, hpattern, hresult⟩ := h.result name hname
    exact ⟨formals, term, hpattern, by rw [hextends.results, hresult]⟩

/-- The walk of an outline records what its nodes ask of a typing. -/
def Records (i : Inference) (outline : Outline) : Prop :=
  ∀ function g, outline.ids.Nodup → i.Ready outline function g →
    i.Keeps outline (outline.tour visit g) → ∀ site ∈ outline.sites function, i.typing.HoldsAt site

/-- The walk of several outlines: they are faithful and their ids are distinct, the walk of each of
them may start, and the inference keeps the outcome. -/
structure Walks (i : Inference) (function : Option Pattern) (outlines : List Outline)
    (g : Generator) : Prop where
  faithful : ∀ c ∈ outlines, c.Faithful
  distinct : (outlines.flatMap Outline.ids).Nodup
  ready : ∀ c ∈ outlines, i.Ready c function g
  keeps : ∀ c ∈ outlines, i.Keeps c (Outline.tourAll visit outlines g)

namespace Walks

variable {c : Outline} {rest : List Outline}

/-- The walks of the other outlines come later and write elsewhere. -/
theorem keeps_first (w : i.Walks function (c :: rest) g) : i.Keeps c (c.tour visit g) := by
  obtain ⟨hfaithful, hrest⟩ := List.forall_mem_cons.1 w.faithful
  have hdistinct := w.distinct
  rw [List.flatMap_cons, List.nodup_append'] at hdistinct
  obtain ⟨-, -, hdisjoint⟩ := hdistinct
  have hothers := Outline.extends_tourAll (fun c hc => (hrest c hc).extends_tour) (c.tour visit g)
  refine (w.keeps c List.mem_cons_self).before hothers ?_ ?_
  · intro e he
    exact hdisjoint (Outline.mem_ids.2 ⟨_, he, rfl⟩)
  · intro id hid hmem
    exact hdisjoint (hfaithful.declared_subset_ids hid)
      (Outline.flatMap_declared_subset_ids hrest hmem)

/-- The first walk gives terms to expressions of its own outline only. -/
theorem later (w : i.Walks function (c :: rest) g) : i.Walks function rest (c.tour visit g) := by
  have hdistinct := w.distinct
  rw [List.flatMap_cons, List.nodup_append'] at hdistinct
  obtain ⟨-, hrest, hdisjoint⟩ := hdistinct
  have hfirst := (w.faithful c List.mem_cons_self).extends_tour g
  refine ⟨fun c' hc' => w.faithful c' (List.mem_cons_of_mem _ hc'), hrest, fun c' hc' => ?_,
    fun c' hc' => w.keeps c' (List.mem_cons_of_mem _ hc')⟩
  refine (w.ready c' (List.mem_cons_of_mem _ hc')).after hfirst fun e he hmem => ?_
  exact hdisjoint hmem (List.mem_flatMap.2 ⟨c', hc', Outline.mem_ids.2 ⟨_, he, rfl⟩⟩)

end Walks

/-- The walk of several outlines records what the nodes of each of them ask. -/
theorem holdsAt_of_walks {outlines : List Outline} (hrecords : ∀ c ∈ outlines, i.Records c)
    (w : i.Walks function outlines g) :
    ∀ c ∈ outlines, ∀ site ∈ c.sites function, i.typing.HoldsAt site := by
  induction outlines generalizing g with
  | nil => exact nofun
  | cons c rest ih =>
    obtain ⟨hc, hrest⟩ := List.forall_mem_cons.1 hrecords
    have hdistinct := w.distinct
    rw [List.flatMap_cons, List.nodup_append'] at hdistinct
    refine List.forall_mem_cons.2 ⟨?_, ih hrest w.later⟩
    exact hc function g hdistinct.1 (w.ready c List.mem_cons_self) w.keeps_first

/-- The walk of one node: its outline is faithful and its ids are distinct, the walk may start, and
the inference keeps its outcome. -/
structure Walk (i : Inference) (function : Option Pattern) (item : Node) (children : List Outline)
    (g : Generator) : Prop where
  root : item.outline = .node item children
  below : ∀ c ∈ children, c.Faithful
  distinct : (Outline.node item children).ids.Nodup
  ready : i.Ready (.node item children) function g
  keeps : i.Keeps (.node item children) ((Outline.node item children).tour visit g)

namespace Walk

variable {item : Node} {children : List Outline}

/-! ## Children -/

/-- What is kept of an open node is kept of the state after the children. -/
theorem keeps_between (w : i.Walk function item children g) (hopen : item.isClosed = false) :
    ∀ c ∈ children, i.Keeps c (Outline.between item children g) := by
  intro c hc
  have hchild : i.Keeps c ((Outline.node item children).tour visit g) := by
    refine ⟨fun e he => ?_, fun id hid => ?_, w.keeps.constraints⟩
    · exact w.keeps.nodes e (Outline.mem_preorder_node.2 (.inr ⟨c, hc, he⟩))
    · exact w.keeps.patterns id (Outline.declared_subset_of_mem hc hid)
  by_cases hname : item.functionName = none
  · rw [Outline.tour_node] at hchild
    split at hchild
    · -- the second visit writes nothing that belongs to the children
      refine hchild.before (Generator.extends_leave hname _) ?_ ?_
      · exact fun e he => Outline.not_mem_typed w.root w.distinct hc he
      · exact fun id hid hmem =>
          Outline.not_mem_declared w.root w.below w.distinct hopen hc hmem hid
    · exact hchild
  · obtain ⟨id, name, result, generics, parameters, block, rfl⟩ :=
      Node.exists_function_of_functionName hname
    obtain ⟨-, -, -, -, -, -, -, htour⟩ :=
      Outline.tour_function id name result generics parameters block children g
    rw [htour] at hchild
    exact ⟨hchild.nodes, hchild.patterns, hchild.constraints⟩

/-- A pattern of an open node that the second visit does not write to keeps the term that it has
after the first one. -/
theorem pattern_eq (w : i.Walk function item children g) (hopen : item.isClosed = false)
    {id : NodeId} (hid : id ∈ item.declares)
    (hleave : ∀ g : Generator, (g.leave item).patternTerm id = g.patternTerm id) :
    i.typing.pattern id = (Outline.entered item g).patternTerm id := by
  have hbetween : (Outline.between item children g).patternTerm id =
      (Outline.entered item g).patternTerm id := by
    refine (Outline.extends_between (fun c hc => (w.below c hc).extends_tour) g).patterns id ?_
    intro hmem
    obtain ⟨c, hc, hmem⟩ := List.mem_flatMap.1 hmem
    exact Outline.not_mem_declared w.root w.below w.distinct hopen hc hid hmem
  rw [w.keeps.patterns id (Outline.declares_subset_declared hid), Outline.tour_node, ← hbetween]
  split
  · exact hleave _
  · rfl

/-- After the first visit of an open node the walk of its children may start. -/
theorem ready_entered (w : i.Walk function item children g) (hopen : item.isClosed = false) :
    ∀ c ∈ children, i.Ready c (item.functionName.or function) (Outline.entered item g) := by
  intro c hc
  have hfresh : ∀ e, .expression e ∈ c.preorder → g.nodeTerm e.id = none := fun e he =>
    w.ready.fresh e (Outline.mem_preorder_node.2 (.inr ⟨c, hc, he⟩))
  have hroot : c ∈ item.outline.children := by rwa [Outline.children_of_root w.root]
  by_cases hname : item.functionName = none
  · have hchild : i.Ready c function g := by
      refine ⟨hfresh, fun p hp => ?_, w.ready.result⟩
      exact absurd hp (Outline.item_ne_parameter hname hroot p)
    rw [hname, Option.none_or]
    exact hchild.after (Generator.extends_enter hname {} g)
      fun e he => Outline.not_mem_typed w.root w.distinct hc he
  · obtain ⟨id, name, result, generics, parameters, block, rfl⟩ :=
      Node.exists_function_of_functionName hname
    obtain ⟨g₁, formals, term, hextends, hknown, hentered, -, -⟩ :=
      Outline.tour_function id name result generics parameters block children g
    -- the term of the function stays what it is here, with the innermost result type as its result
    have hpattern := w.pattern_eq hopen List.mem_cons_self fun g => rfl
    have hnamed : Extends [] [name.id] { g₁ with results := term :: g₁.results }
        (({ g₁ with results := term :: g₁.results }).setPattern name.id (.fn formals term)) :=
      Generator.extends_setPattern List.mem_cons_self _
    rw [hentered] at hpattern ⊢
    refine ⟨fun e he => ?_, fun p hp id hid => ?_, fun name' hname' => ?_⟩
    · rw [hnamed.nodes _ List.not_mem_nil]
      exact (hextends.nodes _ List.not_mem_nil).trans (hfresh e he)
    · have hmem := Outline.mem_parameters_of_item_eq hroot hp
      exact hnamed.known id (hknown id (List.mem_flatMap.2 ⟨p, hmem, hid⟩))
    · obtain rfl : name' = name := (Option.mem_some.1 hname').symm
      refine ⟨formals, term, ?_, rfl⟩
      rw [hpattern, Generator.patternTerm_setPattern, if_pos rfl]

/-- The walk of the children of an open node, unless they are left out. -/
theorem walks_children (w : i.Walk function item children g) (hopen : item.isClosed = false)
    (hwalked : (g.enter item {}).1.ignoreChildren = false) :
    i.Walks (item.functionName.or function) children (Outline.entered item g) := by
  have hdistinct := w.distinct
  rw [Outline.ids_node, List.nodup_cons] at hdistinct
  have hkeeps := w.keeps_between hopen
  rw [Outline.between, hwalked, if_neg Bool.false_ne_true] at hkeeps
  exact ⟨w.below, hdistinct.2, w.ready_entered hopen, hkeeps⟩

/-- An expression below an open node has the term that it has after the children. -/
theorem expression_eq (w : i.Walk function item children g) (hopen : item.isClosed = false)
    {c : Outline} (hc : c ∈ item.outline.children) {e : Expression}
    (he : .expression e ∈ c.preorder) :
    i.typing.expression e.id = (Outline.between item children g).nodeTerm e.id := by
  rw [Outline.children_of_root w.root] at hc
  exact (w.keeps_between hopen c hc).nodes e he

/-! ## Second visits -/

/-- The rest of the run keeps what the second visit of a node leaves. -/
theorem keeps_leave (w : i.Walk function item children g)
    (hrevisit : (g.enter item {}).1.needsRevisit) :
    i.Keeps (.node item children) ((Outline.between item children g).leave item) := by
  have hkeeps := w.keeps
  rwa [Outline.tour_node, if_pos hrevisit] at hkeeps

/-- A branch's condition is constrained to be boolean when the branch is left. -/
theorem holdsAt_branch {id : NodeId} {condition : Expression} {block : List Statement}
    (w : i.Walk function (.statement (.branch id condition block)) children g) :
    i.typing.HoldsAt ⟨function, .statement (.branch id condition block)⟩ := by
  intro term hterm
  rw [w.expression_eq rfl List.mem_cons_self condition.mem_preorder] at hterm
  refine (w.keeps_leave rfl).constraints ?_
  rw [Generator.leave, Generator.leaveStatement, hterm]
  exact Generator.mem_constrainKnown

/-- A loop's pattern is constrained to be an item of what it iterates over when the loop is left. -/
theorem holdsAt_loop {id : NodeId} {pattern : Pattern} {iterated : Expression}
    {block : List Statement}
    (w : i.Walk function (.statement (.loop id pattern iterated block)) children g) :
    i.typing.HoldsAt ⟨function, .statement (.loop id pattern iterated block)⟩ := by
  have hleave : ∀ g : Generator,
      (g.leave (.statement (.loop id pattern iterated block))).patternTerm pattern.id =
        g.patternTerm pattern.id := fun g => Generator.patternTerm_constrainKnown _ _ _
  -- the pattern has its variable from the first visit on
  have hpattern : i.typing.pattern pattern.id = some g.freshEvar.1 := by
    rw [w.pattern_eq rfl List.mem_cons_self hleave]
    exact (Generator.patternTerm_setPattern _ _ _ _).trans (if_pos rfl)
  refine ⟨g.freshEvar.1, hpattern, fun term hterm => ?_⟩
  have hkeeps := w.keeps_leave rfl
  rw [w.expression_eq rfl (List.mem_cons_of_mem _ List.mem_cons_self) iterated.mem_preorder]
    at hterm
  rw [hkeeps.patterns _ (Outline.declares_subset_declared List.mem_cons_self), hleave] at hpattern
  refine hkeeps.constraints ?_
  rw [Generator.leave, Generator.leaveStatement, hterm, hpattern]
  exact Generator.mem_constrainKnown

/-- A result is constrained to the result type of the function around it, if there is one. -/
theorem holdsAt_result {id : NodeId} {expression : Expression}
    (w : i.Walk function (.statement (.result id expression)) children g) :
    i.typing.HoldsAt ⟨function, .statement (.result id expression)⟩ := by
  intro name hname
  obtain ⟨formals, result, hpattern, hresult⟩ := w.ready.result name hname
  refine ⟨formals, result, hpattern, fun term hterm => ?_⟩
  rw [w.expression_eq rfl List.mem_cons_self expression.mem_preorder] at hterm
  -- the functions inside the expression are left again by the time it is done
  have hresults : (Outline.between (.statement (.result id expression)) children g).results =
      g.results := (Outline.extends_between (fun c hc => (w.below c hc).extends_tour) g).results
  refine (w.keeps_leave rfl).constraints ?_
  rw [Generator.leave, Generator.leaveStatement, hresults, hresult, hterm]
  exact Generator.mem_constrainKnown

/-- An initializer is constrained to the written type of its value when the value is left. -/
theorem holdsAt_value {id : NodeId} {name : Pattern} {form : TypeForm} {initializer : Expression}
    (w : i.Walk function (.declaration (.value id name (some form) (some initializer))) children
      g) :
    i.typing.HoldsAt ⟨function, .declaration (.value id name (some form) (some initializer))⟩ := by
  intro hform
  set item := Node.declaration (.value id name (some form) (some initializer)) with hitem
  have htyped : Generator.isTypedVariable (some form) (some initializer) = true := by
    rw [Generator.isTypedVariable, hform]
    rfl
  have hopen : item.isClosed = false := by
    rw [hitem, Node.isClosed, htyped]
    rfl
  have hrevisit : (g.enter item {}).1.needsRevisit := by
    rw [hitem, Generator.enter, Generator.enterDeclaration, if_pos htyped]
  have hkeeps := w.keeps_leave hrevisit
  -- the second visit reads the written type, and only takes names for it
  generalize hbetween : Outline.between item children g = g₂ at hkeeps
  obtain ⟨declared, g₃, hdeclared⟩ : ∃ declared g₃, Generator.typeTerm form g₂ = (declared, g₃) :=
    ⟨_, _, rfl⟩
  have hleave : g₂.leave item = (g₃.setPattern name.id declared).constrainKnown (some declared)
      (g₃.nodeTerm initializer.id) := by
    rw [hitem, Generator.leave, Generator.leaveDeclaration, hdeclared]
  have hextends : Extends [] [] g₂ g₃ := by
    have htype : Extends [] [] g₂ (Generator.typeTerm form g₂).2 :=
      Generator.extends_typeTerm form g₂
    rwa [hdeclared] at htype
  rw [hleave] at hkeeps
  refine ⟨declared, ?_, fun term hterm => ?_⟩
  · rw [hkeeps.patterns name.id (Outline.declares_subset_declared List.mem_cons_self),
      Generator.patternTerm_constrainKnown, Generator.patternTerm_setPattern, if_pos rfl]
  · rw [w.expression_eq hopen (List.mem_cons_of_mem _ (List.mem_cons_of_mem _ List.mem_cons_self))
      initializer.mem_preorder, hbetween, ← hextends.nodes _ List.not_mem_nil] at hterm
    refine hkeeps.constraints ?_
    rw [hterm]
    exact Generator.mem_constrainKnown

/-- A default is constrained to the written type of its parameter when the parameter is left. -/
theorem holdsAt_parameter {id : NodeId} {externalName : Option String} {localName : Pattern}
    {form : TypeForm} {value : Expression}
    (w : i.Walk function (.parameter (.parameter id externalName localName form (some value)))
      children g) :
    i.typing.HoldsAt
      ⟨function, .parameter (.parameter id externalName localName form (some value))⟩ := by
  have hleave : ∀ g : Generator, (g.leave
      (.parameter (.parameter id externalName localName form (some value)))).patternTerm
        localName.id = g.patternTerm localName.id :=
    fun g => Generator.patternTerm_constrainKnown _ _ _
  -- the parameter has its term from the first visit of the function around
  obtain ⟨declared, hdeclared⟩ :=
    Option.isSome_iff_exists.1 (w.ready.known _ rfl localName.id List.mem_cons_self)
  have hpattern : i.typing.pattern localName.id = some declared :=
    (w.pattern_eq rfl List.mem_cons_self hleave).trans hdeclared
  refine ⟨declared, hpattern, fun term hterm => ?_⟩
  have hkeeps := w.keeps_leave rfl
  rw [w.expression_eq rfl (List.mem_cons_of_mem _ (List.mem_cons_of_mem _ List.mem_cons_self))
    value.mem_preorder] at hterm
  rw [hkeeps.patterns _ (Outline.declares_subset_declared List.mem_cons_self), hleave] at hpattern
  refine hkeeps.constraints ?_
  rw [Generator.leave, hterm, hpattern]
  exact Generator.mem_constrainKnown

/-- An expression that is typed on its second visit has no term before it. -/
theorem nodeTerm_between_eq_none {expression : Expression}
    (w : i.Walk function (.expression expression) children g)
    (henter : (g.enter (.expression expression) {}).2 = g) :
    (Outline.between (.expression expression) children g).nodeTerm expression.id = none := by
  have hchildren : Extends _ _ (Outline.entered (.expression expression) g)
      (Outline.between (.expression expression) children g) :=
    Outline.extends_between (fun c hc => (w.below c hc).extends_tour) g
  have hdistinct := w.distinct
  rw [Outline.ids_node, List.nodup_cons] at hdistinct
  have hfresh := w.ready.fresh expression (Outline.item_mem_preorder _)
  rw [← hfresh]
  refine (hchildren.nodes _ hdistinct.1).trans ?_
  rw [Outline.entered, henter]
  rfl

/-- An expression keeps the term that its second visit gives to it. -/
theorem expression_eq_leave {expression : Expression}
    (w : i.Walk function (.expression expression) children g)
    (hrevisit : (g.enter (.expression expression) {}).1.needsRevisit) :
    i.typing.expression expression.id = ((Outline.between (.expression expression) children g).leave
      (.expression expression)).nodeTerm expression.id :=
  (w.keeps_leave hrevisit).nodes _ (Outline.item_mem_preorder _)

/-- The operands of a comparison are constrained to have one type when the comparison is left, and
its own term is boolean. -/
theorem holdsAt_binary {id : NodeId} {left right : Expression} {operator : Operator}
    (w : i.Walk function (.expression (.binary id left right operator)) children g) :
    i.typing.HoldsAt ⟨function, .expression (.binary id left right operator)⟩ := by
  intro hcomparison
  have hleave : ∀ g : Generator, g.leave (.expression (.binary id left right operator)) =
      (g.constrainKnown (g.nodeTerm left.id) (g.nodeTerm right.id)).setNode id .boolean := by
    intro g
    rw [Generator.leave, Generator.leaveExpression, if_pos hcomparison]
  refine ⟨?_, fun a b ha hb => ?_⟩
  · refine (w.expression_eq_leave rfl).trans ?_
    rw [hleave, Generator.nodeTerm_setNode]
    exact if_pos rfl
  · rw [w.expression_eq rfl List.mem_cons_self left.mem_preorder] at ha
    rw [w.expression_eq rfl (List.mem_cons_of_mem _ List.mem_cons_self) right.mem_preorder] at hb
    refine (w.keeps_leave rfl).constraints ?_
    rw [hleave, ha, hb]
    exact Generator.mem_constrainKnown

/-- The arguments of a call are constrained by the parameters of its callee's function type when the
call is left, and its term is the result. -/
theorem holdsAt_call {id : NodeId} {callee : Expression} {arguments : List Argument}
    (w : i.Walk function (.expression (.call id callee arguments)) children g) :
    i.typing.HoldsAt ⟨function, .expression (.call id callee arguments)⟩ := by
  -- the call has a term, so that its callee was a function when the call was left
  intro result hresult
  have hconstraints := (w.keeps_leave rfl).constraints
  have hleave : ((Outline.between (.expression (.call id callee arguments)) children g).leave
      (.expression (.call id callee arguments))).nodeTerm id = some result :=
    (w.expression_eq_leave rfl).symm.trans hresult
  rw [Generator.leave, Generator.leaveExpression] at hconstraints hleave
  rcases Generator.typeCall_eq_or id callee arguments
    (Outline.between (.expression (.call id callee arguments)) children g) with
    ⟨formals, result', hcallee, heq⟩ | ⟨error, heq⟩
  · rw [heq] at hconstraints
    rw [heq, Generator.nodeTerm_setNode, if_pos rfl] at hleave
    obtain rfl : result' = result := Option.some.inj hleave
    refine ⟨formals, ?_, fun position argument label given formal hgiven hformal term hterm => ?_⟩
    · rw [w.expression_eq rfl List.mem_cons_self callee.mem_preorder, hcallee]
    · refine hconstraints (Generator.mem_constrainArguments hgiven (by rwa [Nat.zero_add]) ?_)
      -- the argument's term is as it was when the call was left
      rw [← hterm]
      refine (w.expression_eq (c := (Argument.argument argument label given).outline) rfl
        (List.mem_cons_of_mem _ ?_) ?_).symm
      · rw [Argument.outlines_eq_map]
        exact List.mem_map_of_mem (List.mem_of_getElem? hgiven)
      · exact Outline.mem_preorder_node.2
          (.inr ⟨given.outline, List.mem_cons_self, given.mem_preorder⟩)
  · -- a call that is not one of a function keeps having no term
    have hnone : (Outline.between (.expression (.call id callee arguments)) children g).nodeTerm
        id = none := w.nodeTerm_between_eq_none rfl
    rw [heq] at hleave
    cases hnone.symm.trans hleave

/-- A literal gets its term when it is left, and an array's items are constrained to the item
type. -/
theorem holdsAt_literal {id : NodeId} {literal : Literal}
    (w : i.Walk function (.expression (.literal id literal)) children g) :
    i.typing.HoldsAt ⟨function, .expression (.literal id literal)⟩ := by
  have hterm : i.typing.expression id = some ((Outline.between (.expression (.literal id literal))
      children g).literalTerm literal).1 := by
    refine (w.expression_eq_leave rfl).trans ?_
    exact (Generator.nodeTerm_setNode _ _ _ _).trans (if_pos rfl)
  cases literal with
  | none | boolean | number | string | color => exact hterm
  | array own items =>
    refine ⟨_, hterm, fun item hitem term hitemterm => ?_⟩
    refine (w.keeps_leave rfl).constraints (Generator.mem_constrainItems hitem ?_)
    rw [← hitemterm]
    refine (w.expression_eq (c := (Literal.array own items).outline) rfl List.mem_cons_self ?_).symm
    refine Outline.mem_preorder_node.2 (.inr ⟨item.outline, ?_, item.mem_preorder⟩)
    rw [Expression.outlines_eq_map]
    exact List.mem_map_of_mem hitem

/-- The walk of a node records what the node asks of a typing. -/
theorem holdsAt (w : i.Walk function item children g) : i.typing.HoldsAt ⟨function, item⟩ := by
  cases item with
  | statement statement =>
    cases statement with
    | branch => exact w.holdsAt_branch
    | loop => exact w.holdsAt_loop
    | result => exact w.holdsAt_result
    | declaration | expression | placeholder => trivial
  | declaration declaration =>
    cases declaration with
    | value id name form initializer =>
      cases form with
      | none => trivial
      | some form =>
        cases initializer with
        | none => trivial
        | some initializer => exact w.holdsAt_value
    | function | enumeration | record | space | library | placeholder => trivial
  | parameter parameter =>
    cases parameter with
    | placeholder => trivial
    | parameter id externalName localName form defaultValue =>
      cases defaultValue with
      | none => trivial
      | some value => exact w.holdsAt_parameter
  | expression expression =>
    cases expression with
    | binary => exact w.holdsAt_binary
    | call => exact w.holdsAt_call
    | literal => exact w.holdsAt_literal
    | identifier | member | placeholder => trivial
  | program | pattern | identifier | typeForm | literal | generic | case | argument => trivial

end Walk

end Inference

/-! ## Whole outlines -/

/-- A path of identifiers asks nothing of a typing. -/
theorem Typing.holdsAt_of_memberPath (T : Typing) (function : Option Pattern) :
    (expression : Expression) → expression.memberPath.isSome →
      ∀ site ∈ expression.outline.sites function, T.HoldsAt site
  | .identifier _ _, _ => List.forall_mem_cons.2 ⟨trivial, List.forall_mem_singleton.2 trivial⟩
  | .member _ base _, h => by
    have hbase : base.memberPath.isSome := by simpa [Expression.memberPath] using h
    refine List.forall_mem_cons.2 ⟨trivial, List.forall_mem_append.2 ⟨?_, ?_⟩⟩
    · exact T.holdsAt_of_memberPath function base hbase
    · exact List.forall_mem_singleton.2 trivial

namespace Inference

variable {i : Inference} {item : Node} {children : List Outline} {function : Option Pattern}
  {g : Generator}

/-- The sites of a list of outlines are the sites of its members. -/
theorem mem_sitesAll {outlines : List Outline} {site : Site} :
    site ∈ Outline.sitesAll function outlines ↔ ∃ c ∈ outlines, site ∈ c.sites function := by
  induction outlines with
  | nil => simp [Outline.sitesAll]
  | cons c rest ih => simp [Outline.sitesAll, ih]

/-- An open node whose children are left out is a use of a name, which asks nothing of a typing. -/
theorem holdsAt_of_ignoreChildren (hopen : item.isClosed = false)
    (hignore : (g.enter item {}).1.ignoreChildren) (root : item.outline = .node item children)
    (T : Typing) : ∀ c ∈ children, ∀ site ∈ c.sites function, T.HoldsAt site := by
  rw [← Outline.children_of_root root]
  -- the node is a use of a name: whatever else leaves out its children is closed
  cases item with
  | expression expression =>
    cases expression with
    | identifier id used => exact List.forall_mem_singleton.2 (List.forall_mem_singleton.2 trivial)
    | member id base name =>
      have hpath : (Expression.member id base name).memberPath.isSome := hignore
      have hbase : base.memberPath.isSome := by simpa [Expression.memberPath] using hpath
      exact List.forall_mem_cons.2 ⟨T.holdsAt_of_memberPath function base hbase,
        List.forall_mem_singleton.2 (List.forall_mem_singleton.2 trivial)⟩
    | binary | call | literal | placeholder => cases hignore
  | declaration declaration =>
    cases declaration with
    | value id name form initializer =>
      have htyped : Generator.isTypedVariable form initializer = true := by
        simpa [Node.isClosed] using hopen
      rw [Generator.enter, Generator.enterDeclaration, if_pos htyped] at hignore
      cases hignore
    | function | space | library | placeholder => cases hignore
    | record | enumeration => cases hopen
  | statement statement => cases statement <;> cases hignore
  | parameter parameter =>
    cases parameter with
    | placeholder => cases hignore
    | parameter id externalName localName form defaultValue =>
      cases defaultValue <;> cases hignore
  | typeForm form => cases hopen
  | program | pattern | identifier | literal | generic | case | argument => cases hignore

/-- The walk of an outline records what its nodes ask of a typing. -/
theorem records_of_faithful {outline : Outline} (h : outline.Faithful) : i.Records outline := by
  induction h with
  | @node item children root below ih =>
    intro function g distinct hready hkeeps
    have w : i.Walk function item children g := ⟨root, below, distinct, hready, hkeeps⟩
    refine List.forall_mem_cons.2 ⟨w.holdsAt, ?_⟩
    -- the sites below are none, or asked nothing, or those of the children
    split
    · exact nofun
    · rename_i hclosed
      have hopen : item.isClosed = false := Bool.eq_false_iff.2 hclosed
      intro site hsite
      obtain ⟨c, hc, hsite⟩ := mem_sitesAll.1 hsite
      by_cases hignore : (g.enter item {}).1.ignoreChildren
      · exact holdsAt_of_ignoreChildren hopen hignore root i.typing c hc site hsite
      · exact holdsAt_of_walks ih (w.walks_children hopen (Bool.eq_false_iff.2 hignore)) c hc site
          hsite

end Inference

/-- The walk of a whole program, from nothing to what is inferred. -/
theorem Program.walks_infer (program : Program) (scope : Scope)
    (distinct : (program.nodes.map Node.id).Nodup) :
    (program.infer scope).Walks none [program.outline] { scope } where
  faithful := List.forall_mem_singleton.2 program.outline_faithful
  distinct := by
    rw [List.flatMap_singleton]
    exact distinct
  ready := List.forall_mem_singleton.2 ⟨fun _ _ => rfl, nofun, nofun⟩
  keeps := by
    rw [Program.infer, Program.walk_eq_tour Generator.visit_neverStops]
    exact List.forall_mem_singleton.2 ⟨fun _ _ => rfl, fun _ _ => rfl, List.Subset.refl _⟩

/-- Inference records at every node that it walks what the node asks of a typing. -/
theorem Program.infer_holdsAt (program : Program) (scope : Scope)
    (distinct : (program.nodes.map Node.id).Nodup) :
    ∀ site ∈ program.sites, (program.infer scope).typing.HoldsAt site :=
  Inference.holdsAt_of_walks
    (List.forall_mem_singleton.2 (Inference.records_of_faithful program.outline_faithful))
    (program.walks_infer scope distinct) program.outline List.mem_cons_self

end TreeLang
