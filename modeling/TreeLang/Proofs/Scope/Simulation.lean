import TreeLang.Proofs.Scope.Lexical
import TreeLang.Proofs.Scope.Namespace
import TreeLang.Proofs.Tree.Tour
import TreeLang.Scope.Resolution

/-!
# The walk of name resolution is lexical scoping

The walk keeps one stack of frames and one tree of namespaces, which it changes on the first and on
the second visit of a node. Between the visits of a node its state agrees with what is passed down
to the node and known before it, so the walk notes the uses of the recursion over the syntax.
-/

namespace TreeLang

/-! ## Noting uses -/

namespace Use

/-- Maps the keys of a use to its target. -/
def record (table : Table NodeId NodeId) (use : Use) : Table NodeId NodeId :=
  match use.target with
  | some pattern => use.keys.foldl (fun table key => table.put key pattern) table
  | none => table

/-- The identifiers that refer to nothing, by their ids. -/
def unresolved (uses : List Use) : List NodeId :=
  (uses.filter isUnresolved).map fun use => use.site.id

/-- The unresolved ones among uses are those of the first ones and those of the others. -/
theorem unresolved_append (first second : List Use) :
    unresolved (first ++ second) = unresolved first ++ unresolved second := by
  rw [unresolved, List.filter_append, List.map_append]
  rfl

end Use

namespace Scope

/-- Notes some uses: maps those that have a target, and lists the identifiers that have none. -/
def note (uses : List Use) (scope : Scope) : Scope :=
  { scope with
    identifiers := uses.foldl Use.record scope.identifiers
    unresolved := scope.unresolved ++ Use.unresolved uses }

/-- Without uses nothing is noted. -/
theorem note_nil (scope : Scope) : scope.note [] = scope := by
  rw [note, Use.unresolved]
  simp

/-- Uses are noted one after the other. -/
theorem note_append (first second : List Use) (scope : Scope) :
    scope.note (first ++ second) = (scope.note first).note second := by
  rw [note, note, note, List.foldl_append, Use.unresolved_append, List.append_assoc]

end Scope

namespace Resolver

/-- The visitor of a walk without a target. -/
abbrev visitAll : Visitor Resolver := visit none

/-- A walk without a target does not stop. -/
theorem visitAll_neverStops : Visitor.NeverStops visitAll := by
  intro node control r
  rw [visitAll, visit]
  split
  · rfl
  · rw [if_neg nofun]
    cases node with
    | declaration declaration => cases declaration <;> rfl
    | statement statement => cases statement <;> rfl
    | expression expression =>
      cases expression with
      | member id base name =>
        simp only [enter]
        split <;> rfl
      | binary | identifier | call | literal | placeholder => rfl
    | program | pattern | identifier | typeForm | literal | parameter | generic | case | argument =>
      rfl

/-- Notes some uses. -/
def noting (uses : List Use) (r : Resolver) : Resolver := r.onScope (·.note uses)

/-- The value that a name refers to. -/
def value? (r : Resolver) (name : String) : Option NodeId := r.scope.values.get? name

/-- The declaration that a path refers to. -/
def declaration? (r : Resolver) (path : List String) : Option NodeId := r.scope.space.pattern? path

/-- Without uses the state of the walk is the same. -/
theorem noting_nil (r : Resolver) : r.noting [] = r := by
  rw [noting, onScope, Scope.note_nil]

/-- Uses are noted one after the other in the state of the walk. -/
theorem noting_append (first second : List Use) (r : Resolver) :
    r.noting (first ++ second) = (r.noting first).noting second := by
  rw [noting, onScope, Scope.note_append]
  rfl

/-- Noting uses does not change what names refer to. -/
@[simp] theorem value?_noting (uses : List Use) (r : Resolver) :
    (r.noting uses).value? = r.value? := rfl

/-- Noting uses does not change what paths refer to. -/
@[simp] theorem declaration?_noting (uses : List Use) (r : Resolver) :
    (r.noting uses).declaration? = r.declaration? := rfl

end Resolver

open Resolver (visitAll)

/-! ## Expressions -/

/-- What a walk without a target does at a node and below it. -/
theorem Outline.tour_visitAll_node (item : Node) (children : List Outline) (r : Resolver) :
    (node item children).tour visitAll r =
      let (asked, entered) := Resolver.enter item {} r
      let between := if asked.ignoreChildren then entered else tourAll visitAll children entered
      if asked.needsRevisit then between.leave item else between := rfl

/-- An identifier notes its own use. -/
theorem Resolver.resolve_eq_noting (r : Resolver) (id : NodeId) (used : Identifier) :
    r.onScope (·.resolve id used) =
      r.noting ((Expression.identifier id used).uses r.value? r.declaration?) := by
  rw [Expression.uses, noting, onScope, onScope, Scope.resolve]
  split
  · rw [Scope.note_nil]
  · rw [value?]
    cases r.scope.values.get? used.name with
    | none => rfl
    | some pattern =>
      simp [Scope.note, Use.record, Use.keys, Expression.useKeys, Use.unresolved, Use.isUnresolved]

/-- A path of identifiers notes its own use. -/
theorem Resolver.resolvePath_eq_noting (r : Resolver) (id : NodeId) (base : Expression)
    (name : Identifier) (path : List String) :
    r.onScope (·.resolvePath id path) =
      r.noting [⟨.member id base name, r.declaration? path⟩] := by
  rw [noting, onScope, onScope, Scope.resolvePath, declaration?]
  cases h : r.scope.space.pattern? path <;>
    simp [Scope.note, Use.record, Use.keys, Expression.useKeys, Use.unresolved, Use.isUnresolved,
      Expression.id]

mutual

/-- The walk of an expression notes the uses in it. -/
theorem Expression.tour_visitAll : (expression : Expression) → (r : Resolver) →
    expression.outline.tour visitAll r = r.noting (expression.uses r.value? r.declaration?)
  | .binary _ left right _, r => by
    change right.outline.tour visitAll (left.outline.tour visitAll r) = _
    -- the uses noted on the left change neither the values nor the declarations
    rw [left.tour_visitAll, right.tour_visitAll, Resolver.value?_noting,
      Resolver.declaration?_noting, ← Resolver.noting_append, Expression.uses]
  | .identifier id used, r => r.resolve_eq_noting id used
  | .call _ callee arguments, r => by
    change Outline.tourAll visitAll (Argument.outlines arguments)
      (callee.outline.tour visitAll r) = _
    rw [callee.tour_visitAll, Argument.tourAll_visitAll, Resolver.value?_noting,
      Resolver.declaration?_noting, ← Resolver.noting_append, Expression.uses]
  | .literal _ literal, r => literal.tour_visitAll r
  | .member id base name, r => by
    rw [Expression.outline, Outline.tour_visitAll_node, Expression.uses]
    -- a path is resolved as a whole and its parts are not walked
    cases hpath : (Expression.member id base name).memberPath with
    | some path =>
      have henter : Resolver.enter (.expression (.member id base name)) {} r =
          ({ ignoreChildren := true }, r.onScope (·.resolvePath id path)) := by
        simp only [Resolver.enter, hpath]
      rw [henter]
      exact r.resolvePath_eq_noting id base name path
    | none =>
      have henter : Resolver.enter (.expression (.member id base name)) {} r = ({}, r) := by
        simp only [Resolver.enter, hpath]
      rw [henter]
      exact base.tour_visitAll r
  | .placeholder _, r => r.noting_nil.symm

/-- Touring the outline of an argument notes the uses in it. -/
theorem Argument.tour_visitAll : (argument : Argument) → (r : Resolver) →
    argument.outline.tour visitAll r = r.noting (argument.uses r.value? r.declaration?)
  | .argument _ _ expression, r => expression.tour_visitAll r
  | .placeholder _, r => r.noting_nil.symm

theorem Literal.tour_visitAll : (literal : Literal) → (r : Resolver) →
    literal.outline.tour visitAll r = r.noting (literal.uses r.value? r.declaration?)
  | .array _ items, r => Expression.tourAll_visitAll items r
  | .none _, r | .boolean _ _, r | .number _ _, r | .string _ _, r | .color _ _, r =>
    r.noting_nil.symm

/-- Touring the outlines of several expressions notes their uses in order. -/
theorem Expression.tourAll_visitAll : (expressions : List Expression) → (r : Resolver) →
    Outline.tourAll visitAll (Expression.outlines expressions) r =
      r.noting (Expression.usesAll r.value? r.declaration? expressions)
  | [], r => r.noting_nil.symm
  | expression :: rest, r => by
    rw [Expression.outlines, Outline.tourAll, expression.tour_visitAll,
      Expression.tourAll_visitAll rest, Resolver.value?_noting, Resolver.declaration?_noting,
      ← Resolver.noting_append, Expression.usesAll]

theorem Argument.tourAll_visitAll : (arguments : List Argument) → (r : Resolver) →
    Outline.tourAll visitAll (Argument.outlines arguments) r =
      r.noting (Argument.usesAll r.value? r.declaration? arguments)
  | [], r => r.noting_nil.symm
  | argument :: rest, r => by
    rw [Argument.outlines, Outline.tourAll, argument.tour_visitAll,
      Argument.tourAll_visitAll rest, Resolver.value?_noting, Resolver.declaration?_noting,
      ← Resolver.noting_append, Argument.usesAll]

end

/-- The walk of a written type does nothing. -/
theorem TypeForm.tour_visitAll (form : TypeForm) (r : Resolver) :
    form.outline.tour visitAll r = r := by
  cases form <;> rfl

/-- The walk of a type parameter does nothing. -/
theorem GenericParameter.tour_visitAll (generic : GenericParameter) (r : Resolver) :
    generic.outline.tour visitAll r = r := by
  cases generic <;> rfl

/-- Generic parameters are not visited for anything. -/
theorem GenericParameter.tourAll_visitAll (generics : List GenericParameter) (r : Resolver) :
    Outline.tourAll visitAll (generics.map GenericParameter.outline) r = r := by
  refine Outline.tourAll_eq_self (fun c hc r => ?_) r
  obtain ⟨generic, -, rfl⟩ := List.mem_map.1 hc
  exact generic.tour_visitAll r

/-- The walk of a case does nothing. -/
theorem EnumerationCase.tour_visitAll (case : EnumerationCase) (r : Resolver) :
    case.outline.tour visitAll r = r := by
  cases case with
  | placeholder id => rfl
  | case id name forms =>
    change Outline.tourAll visitAll (TypeForm.outlines forms) r = r
    refine Outline.tourAll_eq_self (fun c hc r => ?_) r
    rw [TypeForm.outlines_eq_map] at hc
    obtain ⟨form, -, rfl⟩ := List.mem_map.1 hc
    exact form.tour_visitAll r

/-- Cases of an enumeration are not visited for anything. -/
theorem EnumerationCase.tourAll_visitAll (cases : List EnumerationCase) (r : Resolver) :
    Outline.tourAll visitAll (cases.map EnumerationCase.outline) r = r := by
  refine Outline.tourAll_eq_self (fun c hc r => ?_) r
  obtain ⟨case, -, rfl⟩ := List.mem_map.1 hc
  exact case.tour_visitAll r

/-- The walk of a parameter notes the uses in its default value. -/
theorem Parameter.tour_visitAll (parameter : Parameter) (r : Resolver) :
    parameter.outline.tour visitAll r =
      r.noting (parameter.uses r.value? r.declaration?) := by
  cases parameter with
  | placeholder id => exact r.noting_nil.symm
  | parameter id externalName localName form defaultValue =>
    cases defaultValue with
    | none =>
      change form.outline.tour visitAll r = r.noting []
      rw [form.tour_visitAll, r.noting_nil]
    | some value =>
      change value.outline.tour visitAll (form.outline.tour visitAll r) = _
      rw [form.tour_visitAll, value.tour_visitAll]
      rfl

/-- The walk of parameters notes the uses in their default values. -/
theorem Parameter.tourAll_visitAll (parameters : List Parameter) (r : Resolver) :
    Outline.tourAll visitAll (parameters.map Parameter.outline) r =
      r.noting (parameters.flatMap (Parameter.uses r.value? r.declaration?)) := by
  induction parameters generalizing r with
  | nil => exact r.noting_nil.symm
  | cons parameter rest ih =>
    rw [List.map_cons, Outline.tourAll, parameter.tour_visitAll, ih, Resolver.value?_noting,
      Resolver.declaration?_noting, ← Resolver.noting_append, List.flatMap_cons]

/-! ## States -/

/-- A frame and the bindings of a scope give a name the same meaning. -/
def Frame.Agrees (frame : Frame) (bindings : Bindings) : Prop :=
  ∀ name, frame.find name = bindings.lookup name

/-- A name that is put in a frame comes in front of the bindings that it agrees with. -/
theorem Frame.Agrees.put {frame : Frame} {bindings : Bindings} (h : frame.Agrees bindings)
    (name : String) (id : NodeId) : Frame.Agrees (frame.put name id) ((name, id) :: bindings) := by
  intro other
  by_cases hother : other = name
  · rw [hother, Table.find_put_self, List.lookup_cons_self]
  · rw [Table.find_put_of_ne hother, h other, List.lookup_cons, beq_false_of_ne hother]

/-- A name is found in some frames as it is in the bindings that these agree with. -/
theorem Frame.Agrees.findSome?_eq {frames : List Frame} {outer : List Bindings}
    (h : List.Forall₂ Frame.Agrees frames outer) (name : String) :
    frames.findSome? (fun frame => frame.find name) = outer.findSome? (List.lookup name) := by
  induction h with
  | nil => rfl
  | cons hframe _ ih => rw [List.findSome?_cons, List.findSome?_cons, hframe name, ih]

namespace Resolver

/-- What a part of the walk does: it notes some uses, and takes away no namespace. -/
structure Walks (r r' : Resolver) (uses : List Use) : Prop where
  identifiers_eq : r'.scope.identifiers = uses.foldl Use.record r.scope.identifiers
  unresolved_eq : r'.scope.unresolved = r.scope.unresolved ++ Use.unresolved uses
  opens : ∀ path, r.scope.space.Opens path → r'.scope.space.Opens path
  depth_eq : r'.functionDepth = r.functionDepth

namespace Walks

variable {r r' r'' : Resolver} {first second : List Use}

/-- Two parts of a walk, one after the other, note the uses of both. -/
theorem trans (h : Walks r r' first) (h' : Walks r' r'' second) :
    Walks r r'' (first ++ second) where
  identifiers_eq := by rw [h'.identifiers_eq, h.identifiers_eq, List.foldl_append]
  unresolved_eq := by
    rw [h'.unresolved_eq, h.unresolved_eq, Use.unresolved_append, List.append_assoc]
  opens path hpath := h'.opens path (h.opens path hpath)
  depth_eq := h'.depth_eq.trans h.depth_eq

/-- A step that notes nothing. -/
theorem silent (hidentifiers : r'.scope.identifiers = r.scope.identifiers)
    (hunresolved : r'.scope.unresolved = r.scope.unresolved)
    (hopens : ∀ path, r.scope.space.Opens path → r'.scope.space.Opens path)
    (hdepth : r'.functionDepth = r.functionDepth) : Walks r r' [] :=
  ⟨hidentifiers, hunresolved.trans (List.append_nil _).symm, hopens, hdepth⟩

/-- A step that does not touch what is noted, nor the namespaces. -/
theorem same (hidentifiers : r'.scope.identifiers = r.scope.identifiers)
    (hunresolved : r'.scope.unresolved = r.scope.unresolved)
    (hspace : r'.scope.space = r.scope.space) (hdepth : r'.functionDepth = r.functionDepth) :
    Walks r r' [] :=
  .silent hidentifiers hunresolved (fun _ hpath => hspace ▸ hpath) hdepth

/-- Noting uses is such a part of a walk. -/
theorem noting (r : Resolver) (uses : List Use) : Walks r (r.noting uses) uses :=
  ⟨rfl, rfl, fun _ => id, rfl⟩

/-- A part that notes nothing may come before. -/
theorem after_silent (h' : Walks r' r'' second) (h : Walks r r' []) : Walks r r'' second :=
  h.trans h'

/-- A part that notes nothing may come after. -/
theorem then_silent (h : Walks r r' first) (h' : Walks r' r'' []) : Walks r r'' first :=
  List.append_nil first ▸ h.trans h'

end Walks

/-- A state of the walk agrees with what surrounds a part of a program and with what is known before
it. -/
structure Agrees (r : Resolver) (within : Surroundings) (known : Known) : Prop where
  inner : Frame.Agrees r.scope.values.inner known.frame
  outer : List.Forall₂ Frame.Agrees r.scope.values.outer within.outer
  declaration?_eq : r.declaration? = known.declaration?
  path_eq : r.path = within.path
  opens : r.scope.space.Opens r.path
  inFunction_iff : 0 < r.functionDepth ↔ within.inFunction = true

namespace Agrees

variable {r r' : Resolver} {within : Surroundings} {known : Known}

/-- A walk starts with nothing known. -/
theorem start : Agrees {} {} {} where
  inner _ := rfl
  outer := .nil
  declaration?_eq := by
    funext path
    rw [declaration?, Namespace.pattern?_eq, Namespace.entryAt_of_empty]
    rfl
  path_eq := rfl
  opens := Namespace.opens_nil _
  inFunction_iff := by decide

/-- What a state agrees with depends on its frames, its namespaces and where it is. -/
theorem congr (h : r.Agrees within known) (hvalues : r'.scope.values = r.scope.values)
    (hspace : r'.scope.space = r.scope.space) (hpath : r'.path = r.path)
    (hdepth : r'.functionDepth = r.functionDepth) : r'.Agrees within known where
  inner := hvalues ▸ h.inner
  outer := hvalues ▸ h.outer
  declaration?_eq := by
    funext path
    rw [← h.declaration?_eq, declaration?, declaration?, hspace]
  path_eq := hpath.trans h.path_eq
  opens := by rw [hspace, hpath]; exact h.opens
  inFunction_iff := hdepth ▸ h.inFunction_iff

/-- A name refers to what is known of it. -/
theorem value?_eq (h : r.Agrees within known) : r.value? = known.value? within.outer := by
  funext name
  exact Frame.Agrees.findSome?_eq (.cons h.inner h.outer) name

/-- Noting uses does not change what is known. -/
theorem noting (h : r.Agrees within known) (uses : List Use) :
    (r.noting uses).Agrees within known := h.congr rfl rfl rfl rfl

/-- Binding a pattern puts it in the innermost frame and in front of the bindings. -/
theorem bindValue (h : r.Agrees within known) (pattern : Pattern) :
    (r.onScope (·.bindValue pattern)).Agrees within (known.bind pattern) where
  inner := h.inner.put pattern.name pattern.id
  outer := h.outer
  declaration?_eq := h.declaration?_eq
  path_eq := h.path_eq
  opens := h.opens
  inFunction_iff := h.inFunction_iff

/-- Opening a frame. -/
theorem pushValues (h : r.Agrees within known) :
    (r.onScope Scope.pushValues).Agrees (within.inside known) known.opened where
  inner _ := rfl
  outer := .cons h.inner h.outer
  declaration?_eq := h.declaration?_eq
  path_eq := h.path_eq
  opens := h.opens
  inFunction_iff := h.inFunction_iff

/-- A path keeps its first declaration when others are declared later. -/
theorem lookup_concat (paths : DeclaredPaths) (path declared : List String) (id : NodeId) :
    (paths ++ [(declared, id)]).lookup path =
      if path = declared then (paths.lookup path).or (some id) else paths.lookup path := by
  rw [List.lookup_append, List.lookup_cons, List.lookup_nil]
  by_cases h : path = declared
  · rw [if_pos h, h, BEq.rfl]
  · rw [if_neg h, beq_false_of_ne h, Option.or_none]

/-- Registering a declaration: its path is declared, unless another declaration has it. -/
theorem register (h : r.Agrees within known) (pattern : Pattern) :
    (r.register pattern).Agrees within (known.declarePath within pattern) ∧
      Walks r (r.register pattern) [] := by
  rw [Resolver.register, Known.declarePath]
  by_cases hdepth : 0 < r.functionDepth
  · rw [if_pos hdepth, if_pos (h.inFunction_iff.1 hdepth)]
    exact ⟨h, .same rfl rfl rfl rfl⟩
  · rw [if_neg hdepth, if_neg (mt h.inFunction_iff.2 hdepth)]
    -- the paths declared so far are those in the namespaces
    have hpaths : ∀ path, r.scope.space.pattern? path = known.paths.lookup path :=
      congrFun h.declaration?_eq
    cases hold : r.scope.space.pattern? (r.path ++ [pattern.name]) with
    | some other =>
      simp only [Namespace.set_eq_error pattern.id h.opens hold]
      refine ⟨{ h with declaration?_eq := ?_ }, .same rfl rfl rfl rfl⟩
      funext path
      rw [declaration?, hpaths, Known.declaration?, lookup_concat, ← h.path_eq]
      -- the path is already there, and the earlier declaration is found first
      split
      · next hpath => rw [hpath, ← hpaths, hold, Option.some_or]
      · rfl
    | none =>
      obtain ⟨edited, hset, hpattern, hopens⟩ := Namespace.set_eq_ok pattern.id h.opens hold
      simp only [hset]
      refine ⟨⟨h.inner, h.outer, ?_, h.path_eq, hopens _ h.opens, h.inFunction_iff⟩,
        .silent rfl rfl hopens rfl⟩
      funext path
      rw [declaration?, onScope, hpattern, Known.declaration?, lookup_concat, ← h.path_eq]
      split
      · -- the path is new, and what is declared last is found there
        next hpath => rw [hpath, ← hpaths, hold, Option.none_or]
      · rw [hpaths]

/-- Binding a name and registering it. -/
theorem declare (h : r.Agrees within known) (pattern : Pattern) :
    ((r.onScope (·.bindValue pattern)).register pattern).Agrees within
        (known.declare within pattern) ∧
      Walks r ((r.onScope (·.bindValue pattern)).register pattern) [] := by
  obtain ⟨hagrees, hwalks⟩ := (h.bindValue pattern).register pattern
  exact ⟨hagrees, hwalks.after_silent (.same rfl rfl rfl rfl)⟩

/-- Going into a namespace. -/
theorem enterSpace (h : r.Agrees within known) (space : Pattern) :
    (r.enterSpace space.name).Agrees (within.below space) known ∧
      Walks r (r.enterSpace space.name) [] := by
  obtain ⟨edited, hcreate, hpattern, hopens, hopen⟩ :=
    Namespace.create_eq_ok space.name h.opens
  have henter : r.enterSpace space.name =
      { r with path := r.path ++ [space.name], scope := { r.scope with space := edited } } := by
    rw [Resolver.enterSpace, createSpace, onScope, hcreate]
    rfl
  rw [henter]
  refine ⟨⟨h.inner, h.outer, ?_, ?_, hopen, h.inFunction_iff⟩, .silent rfl rfl hopens rfl⟩
  · rw [← h.declaration?_eq]
    exact funext hpattern
  · exact congrArg (· ++ [space.name]) h.path_eq

/-- Registering the cases of an enumeration. -/
theorem registerCases (h : r.Agrees within known) (cases : List EnumerationCase) :
    (cases.foldl registerCase r).Agrees within (cases.foldl (Known.declareCase within) known) ∧
      Walks r (cases.foldl registerCase r) [] := by
  induction cases generalizing r known with
  | nil => exact ⟨h, .same rfl rfl rfl rfl⟩
  | cons case rest ih =>
    cases case with
    | placeholder id => exact ih h
    | case id name forms =>
      have hname : (r.onScope (·.nameOnly name)).Agrees within known := h.congr rfl rfl rfl rfl
      obtain ⟨hregister, hfirst⟩ := hname.register name
      obtain ⟨hrest, hothers⟩ := ih hregister
      exact ⟨hrest, (hothers.after_silent hfirst).after_silent
        (.same rfl rfl rfl rfl)⟩

/-- Going back out of a namespace. -/
theorem leaveSpace {space : Pattern} {inner : Known} (h : r.Agrees within known)
    (hwalks : Walks r r' []) (h' : r'.Agrees (within.below space) inner) :
    r'.leaveSpace.Agrees within inner := by
  have hpath : r'.leaveSpace.path = within.path := by
    rw [Resolver.leaveSpace, h'.path_eq]
    exact List.dropLast_concat
  refine ⟨h'.inner, h'.outer, h'.declaration?_eq, hpath, ?_, h'.inFunction_iff⟩
  rw [hpath, ← h.path_eq]
  exact hwalks.opens r.path h.opens

/-- Closing a frame gives back the frame around it; the paths declared inside of it stay. -/
theorem closing {around : Surroundings} {inner : Known} {between closed : Resolver}
    {uses : List Use} (h : r.Agrees within known) (hbetween : between.Agrees around inner)
    (houter : around.outer = known.frame :: within.outer) (hwalks : Walks r closed uses)
    (hvalues : closed.scope.values = between.scope.values.pop)
    (hspace : closed.scope.space = between.scope.space) (hpath : closed.path = within.path) :
    closed.Agrees within (known.closing inner) := by
  have hpopped := houter ▸ hbetween.outer
  rw [ScopeStack.pop, ScopeStack.pop?] at hvalues
  cases hstack : between.scope.values.outer with
  | nil => rw [hstack] at hpopped; cases hpopped
  | cons frame rest =>
    rw [hstack] at hpopped hvalues
    obtain ⟨hframe, hrest⟩ := List.forall₂_cons.1 hpopped
    refine ⟨hvalues ▸ hframe, hvalues ▸ hrest, ?_, hpath, ?_, ?_⟩
    · funext path
      rw [declaration?, hspace]
      exact congrFun hbetween.declaration?_eq path
    · rw [hpath, ← h.path_eq]
      exact hwalks.opens r.path h.opens
    · rw [hwalks.depth_eq]
      exact h.inFunction_iff

/-- Binding the parameters of a function. -/
theorem bindParameters (h : r.Agrees within known) (parameters : List Parameter) :
    (parameters.foldl bindParameter r).Agrees within
        (parameters.foldl Known.bindParameter known) ∧
      Walks r (parameters.foldl bindParameter r) [] := by
  induction parameters generalizing r known with
  | nil => exact ⟨h, .same rfl rfl rfl rfl⟩
  | cons parameter rest ih =>
    cases parameter with
    | placeholder id => exact ih h
    | parameter id externalName localName form defaultValue =>
      obtain ⟨hrest, hwalks⟩ := ih (h.bindValue localName)
      exact ⟨hrest, hwalks.after_silent (.same rfl rfl rfl rfl)⟩

/-- Binding the type parameters of a function. -/
theorem bindTypes (h : r.Agrees within known) (generics : List Pattern) :
    (generics.foldl (fun r generic => r.onScope (·.bindType generic)) r).Agrees within known ∧
      Walks r (generics.foldl (fun r generic => r.onScope (·.bindType generic)) r) [] := by
  induction generics generalizing r with
  | nil => exact ⟨h, .same rfl rfl rfl rfl⟩
  | cons generic rest ih =>
    obtain ⟨hrest, hwalks⟩ := ih (r := r.onScope (·.bindType generic)) (h.congr rfl rfl rfl rfl)
    exact ⟨hrest, hwalks.after_silent (.same rfl rfl rfl rfl)⟩

/-- The uses that the walk of an expression notes. -/
theorem tour_expression (h : r.Agrees within known) (expression : Expression) :
    expression.outline.tour visitAll r = r.noting (known.uses within expression) := by
  rw [expression.tour_visitAll, h.value?_eq, h.declaration?_eq]
  rfl

end Agrees

/-- A part of the walk does what a recursion over the syntax gives. -/
structure Simulates (r r' : Resolver) (within : Surroundings) (result : Known × List Use) :
    Prop where
  agrees : r'.Agrees within result.1
  walks : Walks r r' result.2

variable {r r' : Resolver} {within : Surroundings} {known : Known}

/-- Touring an expression notes its uses, and nothing else is known after it. -/
theorem Agrees.simulates_expression (h : r.Agrees within known) (expression : Expression) :
    Simulates r (expression.outline.tour visitAll r) within
      (known, known.uses within expression) := by
  rw [h.tour_expression]
  exact ⟨h.noting _, .noting r _⟩

end Resolver

/-- Noting type parameters writes to their table only. -/
theorem Scope.noteTypeParameters_eq (name : Pattern) (declaration : Declaration) (scope : Scope) :
    ∃ table,
      scope.noteTypeParameters name declaration = { scope with typeParameters := table } := by
  rw [noteTypeParameters]
  split
  · exact ⟨scope.typeParameters, rfl⟩
  · exact ⟨_, rfl⟩

namespace Resolver

variable {r r' : Resolver} {within : Surroundings} {known : Known}

/-- The first visit of a function: the function is declared, then a frame is opened for its
parameters, and what follows is inside of a function. -/
theorem Agrees.enterFunction (h : r.Agrees within known) (id : NodeId) (name : Pattern)
    (result : TypeForm) (generics : List GenericParameter) (parameters : List Parameter)
    (block : List Statement) :
    ∃ declared bound, r.enterDeclaration (.function id name result generics parameters block) =
        { bound with functionDepth := bound.functionDepth + 1 } ∧
      declared.Agrees within (known.declare within name) ∧ Walks r declared [] ∧
      bound.Agrees (within.inside (known.declare within name))
        (parameters.foldl Known.bindParameter (known.declare within name).opened) ∧
      Walks declared bound [] := by
  obtain ⟨hdeclared, hdeclares⟩ := h.declare name
  set declared := (r.onScope (·.bindValue name)).register name
  obtain ⟨table, htable⟩ := declared.scope.noteTypeParameters_eq name
    (.function id name result generics parameters block)
  have hopened : (declared.onScope fun scope =>
      { scope with typeParameters := table }.pushValues.pushTypes).Agrees
        (within.inside (known.declare within name)) (known.declare within name).opened :=
    hdeclared.pushValues.congr rfl rfl rfl rfl
  obtain ⟨hparameters, hbinds⟩ := hopened.bindParameters parameters
  obtain ⟨hgenerics, htypes⟩ := hparameters.bindTypes
    (Declaration.function id name result generics parameters block).genericPatterns
  refine ⟨declared, _, ?_, hdeclared, hdeclares, hgenerics,
    (htypes.after_silent hbinds).after_silent (.same rfl rfl rfl rfl)⟩
  simp only [enterDeclaration]
  rw [onScope, htable]
  rfl

/-- A declaration that is neither a record nor a leaf is visited before and after its children. -/
theorem tour_declaration {declaration : Declaration} {children : List Outline} (r : Resolver)
    (hcontrol : declarationControl declaration {} = { needsRevisit := true }) :
    (Outline.node (.declaration declaration) children).tour visitAll r =
      (Outline.tourAll visitAll children (r.enterDeclaration declaration)).leaveDeclaration
        declaration := by
  rw [Outline.tour_visitAll_node, enter, hcontrol]
  rfl

/-- The walk of a value notes the uses in its initializer. -/
theorem Agrees.tourAll_value (h : r.Agrees within known) (form : Option TypeForm)
    (initializer : Option Expression) :
    Outline.tourAll visitAll ((form.map TypeForm.outline).toList ++
        (initializer.map Expression.outline).toList) r =
      r.noting ((initializer.map (known.uses within)).getD []) := by
  have hform : ∀ c ∈ (form.map TypeForm.outline).toList, ∀ r, c.tour visitAll r = r := by
    intro c hc r
    obtain ⟨form, -, rfl⟩ := Option.map_eq_some_iff.1 (Option.mem_toList.1 hc)
    exact form.tour_visitAll r
  rw [Outline.tourAll_append, Outline.tourAll_eq_self hform]
  cases initializer with
  | none => exact r.noting_nil.symm
  | some value => exact h.tour_expression value

/-- The walk does nothing below an enumeration. -/
theorem tourAll_enumeration (name : Pattern) (generics : List GenericParameter)
    (cases : List EnumerationCase) (r : Resolver) :
    Outline.tourAll visitAll (name.outline :: (generics.map GenericParameter.outline ++
      cases.map EnumerationCase.outline)) r = r := by
  change Outline.tourAll visitAll (_ ++ _) r = r
  rw [Outline.tourAll_append, GenericParameter.tourAll_visitAll, EnumerationCase.tourAll_visitAll]

/-- The walk of what stands before the block of a function. -/
theorem tourAll_function (name : Pattern) (result : TypeForm) (generics : List GenericParameter)
    (parameters : List Parameter) (block : List Statement) (r : Resolver) :
    Outline.tourAll visitAll (name.outline :: result.outline ::
        (generics.map GenericParameter.outline ++
          (parameters.map Parameter.outline ++ Statement.outlines block))) r =
      Outline.tourAll visitAll (Statement.outlines block)
        (r.noting (parameters.flatMap (Parameter.uses r.value? r.declaration?))) := by
  change Outline.tourAll visitAll _ (result.outline.tour visitAll r) = _
  rw [result.tour_visitAll, Outline.tourAll_append, GenericParameter.tourAll_visitAll,
    Outline.tourAll_append, Parameter.tourAll_visitAll]

end Resolver

open Resolver (Agrees Simulates Walks)

mutual

/-- The walk of a statement does what its resolution gives. -/
theorem Statement.tour_simulates : (statement : Statement) → {r : Resolver} →
    {within : Surroundings} → {known : Known} → r.Agrees within known →
      Simulates r (statement.outline.tour visitAll r) within (statement.resolveIn within known)
  | .declaration _ content, _, _, _, h => content.tour_simulates h
  | .branch _ condition block, r, within, known, h => by
    change Simulates r (Outline.tourAll visitAll (Statement.outlines block)
      (condition.outline.tour visitAll r)) within _
    rw [h.tour_expression]
    obtain ⟨hagrees, hwalks⟩ := Statement.tourAll_simulates block (h.noting _)
    exact ⟨hagrees, (Walks.noting r _).trans hwalks⟩
  | .loop _ pattern iterated block, r, within, known, h => by
    have hinner := h.pushValues.bindValue pattern
    set inner := (r.onScope Scope.pushValues).onScope (·.bindValue pattern)
    change Simulates r ((Outline.tourAll visitAll (Statement.outlines block)
      (iterated.outline.tour visitAll inner)).onScope Scope.popValues) within _
    rw [hinner.tour_expression]
    obtain ⟨hagrees, hwalks⟩ := Statement.tourAll_simulates block (hinner.noting
      ((known.opened.bind pattern).uses (within.inside known) iterated))
    generalize Outline.tourAll visitAll (Statement.outlines block) _ = between at hagrees hwalks ⊢
    have hbetween : Walks r between _ :=
      ((Walks.noting inner _).trans hwalks).after_silent (.same rfl rfl rfl rfl)
    -- the second visit closes the frame of the pattern
    have hclosed : Walks r (between.onScope Scope.popValues) _ :=
      hbetween.then_silent (.same rfl rfl rfl rfl)
    exact ⟨h.closing hagrees rfl hclosed rfl rfl hagrees.path_eq, hclosed⟩
  | .expression _ expression, _, _, _, h => h.simulates_expression expression
  | .result _ expression, _, _, _, h => h.simulates_expression expression
  | .placeholder _, _, _, _, h => ⟨h, .same rfl rfl rfl rfl⟩

/-- Touring the outline of a declaration does what the recursion over the declaration says. -/
theorem Declaration.tour_simulates : (declaration : Declaration) → {r : Resolver} →
    {within : Surroundings} → {known : Known} → r.Agrees within known →
      Simulates r (declaration.outline.tour visitAll r) within
        (declaration.resolveIn within known)
  | .value _ name form initializer, r, within, known, h => by
    change Simulates r (((Outline.tourAll visitAll ((form.map TypeForm.outline).toList ++
      (initializer.map Expression.outline).toList) r).onScope (·.bindValue name)).register name)
      within _
    rw [h.tourAll_value]
    obtain ⟨hagrees, hwalks⟩ :=
      (h.noting ((initializer.map (known.uses within)).getD [])).declare name
    exact ⟨hagrees, (Walks.noting r _).then_silent hwalks⟩
  | .function id name result generics parameters block, r, within, known, h => by
    obtain ⟨declared, bound, henter, hdeclared, hdeclares, hbound, hbinds⟩ :=
      h.enterFunction id name result generics parameters block
    set inner := parameters.foldl Known.bindParameter (known.declare within name).opened
    set entered := { bound with functionDepth := bound.functionDepth + 1 }
    have hentered : entered.Agrees
        { within.inside (known.declare within name) with inFunction := true } inner :=
      { hbound with inFunction_iff := by simp [entered] }
    rw [Declaration.outline, Resolver.tour_declaration _ rfl, henter, Resolver.tourAll_function,
      hentered.value?_eq, hentered.declaration?_eq]
    obtain ⟨hagrees, hwalks⟩ := Statement.tourAll_simulates block (hentered.noting
      (parameters.flatMap (Parameter.uses
        (inner.value? (within.inside (known.declare within name)).outer) inner.declaration?)))
    generalize Outline.tourAll visitAll (Statement.outlines block) _ = between at hagrees hwalks ⊢
    have hbetween := (Walks.noting entered _).trans hwalks
    -- the depth goes up on the first visit and down on the second, so it is kept from `declared` on
    have hclosed : Walks declared (between.leaveDeclaration
        (.function id name result generics parameters block)) _ := hbinds.trans
      { hbetween with
        depth_eq := congrArg (· - 1) hbetween.depth_eq }
    exact ⟨hdeclared.closing hagrees rfl hclosed rfl rfl hagrees.path_eq,
      hclosed.after_silent hdeclares⟩
  | .enumeration id name generics cases, r, within, known, h => by
    rw [Declaration.outline, Resolver.tour_declaration _ rfl,
      Resolver.tourAll_enumeration]
    obtain ⟨table, htable⟩ := (r.scope.bindType name).noteTypeParameters_eq name
      (.enumeration id name generics cases)
    set noted := { r with scope := { r.scope.bindType name with typeParameters := table } }
    have hnoted : noted.Agrees within known := h.congr rfl rfl rfl rfl
    obtain ⟨hentered, henters⟩ := hnoted.enterSpace name
    obtain ⟨hcases, hregisters⟩ := hentered.registerCases cases
    have hwalks : Walks noted _ [] := henters.trans hregisters
    have hleave : (r.enterDeclaration (.enumeration id name generics cases)).leaveDeclaration
        (.enumeration id name generics cases) =
          (cases.foldl Resolver.registerCase (noted.enterSpace name.name)).leaveSpace := by
      simp only [Resolver.enterDeclaration, Resolver.leaveDeclaration, Resolver.onScope, htable]
      rfl
    rw [hleave]
    have hnotes : Walks r noted [] := .same rfl rfl rfl rfl
    have hleaves : Walks r
        (cases.foldl Resolver.registerCase (noted.enterSpace name.name)).leaveSpace [] :=
      (hwalks.after_silent hnotes).then_silent (.same rfl rfl rfl rfl)
    exact ⟨hnoted.leaveSpace hwalks hcases, hleaves⟩
  | .record id name generics declarations, r, within, known, h => by
    obtain ⟨table, htable⟩ := (r.scope.bindType name).noteTypeParameters_eq name
      (.record id name generics declarations)
    set noted := { r with scope := { r.scope.bindType name with typeParameters := table } }
    have hnoted : noted.Agrees within known := h.congr rfl rfl rfl rfl
    have htour : (Declaration.record id name generics declarations).outline.tour visitAll r =
        noted.leaveDeclaration (.record id name generics declarations) := by
      rw [Declaration.outline, Outline.tour_visitAll_node]
      simp only [Resolver.enter, Resolver.enterDeclaration, Resolver.onScope, htable]
      rfl
    rw [htour, Resolver.leaveDeclaration, Declaration.resolveIn]
    split
    · exact ⟨hnoted, .same rfl rfl rfl rfl⟩
    · obtain ⟨hagrees, hwalks⟩ := hnoted.declare name
      exact ⟨hagrees, hwalks.after_silent (.same rfl rfl rfl rfl)⟩
  | .space id name declarations, r, within, known, h => by
    obtain ⟨hentered, henters⟩ :=
      Agrees.enterSpace (r := r.onScope (·.nameOnly name)) (h.congr rfl rfl rfl rfl) name
    obtain ⟨hagrees, hwalks⟩ := Declaration.tourAll_simulates declarations
      (r := r.enterDeclaration (.space id name declarations))
      (hentered.pushValues.congr rfl rfl rfl rfl)
    rw [Declaration.outline, Resolver.tour_declaration _ rfl, Outline.tourAll]
    change Simulates r ((Outline.tourAll visitAll (Declaration.outlines declarations)
      (r.enterDeclaration (.space id name declarations))).leaveDeclaration _) within _
    generalize Outline.tourAll visitAll (Declaration.outlines declarations) _ = between
      at hagrees hwalks ⊢
    have hnames : Walks r (r.onScope (·.nameOnly name)) [] := .same rfl rfl rfl rfl
    have hentering : Walks r (r.enterDeclaration (.space id name declarations)) [] :=
      (henters.after_silent hnames).then_silent (.same rfl rfl rfl rfl)
    -- the frame is closed and the path goes back, but what was declared at longer paths stays
    have hclosed : Walks r (between.leaveDeclaration (.space id name declarations)) _ :=
      (hwalks.after_silent hentering).then_silent (.same rfl rfl rfl rfl)
    have hpath : between.path.dropLast = within.path := by
      rw [hagrees.path_eq]
      exact List.dropLast_concat
    exact ⟨h.closing hagrees rfl hclosed rfl rfl hpath, hclosed⟩
  | .library _ _, _, _, _, h => ⟨h, .same rfl rfl rfl rfl⟩
  | .placeholder _, _, _, _, h => ⟨h, .same rfl rfl rfl rfl⟩

/-- Touring the outlines of a block does what the recursion over the block says. -/
theorem Statement.tourAll_simulates : (block : List Statement) → {r : Resolver} →
    {within : Surroundings} → {known : Known} → r.Agrees within known →
      Simulates r (Outline.tourAll visitAll (Statement.outlines block) r) within
        (Statement.resolveAllIn block within known)
  | [], _, _, _, h => ⟨h, .same rfl rfl rfl rfl⟩
  | statement :: rest, _, _, _, h => by
    obtain ⟨hagrees, hwalks⟩ := statement.tour_simulates h
    obtain ⟨hrest, hothers⟩ := Statement.tourAll_simulates rest hagrees
    exact ⟨hrest, hwalks.trans hothers⟩

theorem Declaration.tourAll_simulates : (declarations : List Declaration) → {r : Resolver} →
    {within : Surroundings} → {known : Known} → r.Agrees within known →
      Simulates r (Outline.tourAll visitAll (Declaration.outlines declarations) r) within
        (Declaration.resolveAllIn declarations within known)
  | [], _, _, _, h => ⟨h, .same rfl rfl rfl rfl⟩
  | declaration :: rest, _, _, _, h => by
    obtain ⟨hagrees, hwalks⟩ := declaration.tour_simulates h
    obtain ⟨hrest, hothers⟩ := Declaration.tourAll_simulates rest hagrees
    exact ⟨hrest, hwalks.trans hothers⟩

end

end TreeLang
