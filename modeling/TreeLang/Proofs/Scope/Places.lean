import TreeLang.Proofs.Scope.Loops
import TreeLang.Proofs.Scope.Mirroring

/-!
# Where a walk is

The place of a walk is the path of the namespaces around it and the number of the functions around
it. Each step into a namespace or a function has its step out of it, so the actions of an outline
end where they begin. What a walk registers at a node depends on the place alone.
-/

namespace TreeLang

namespace Resolver

/-! ## Brackets -/

/-- Whether an action leaves the walk in its place. -/
def Action.isStill : Action → Bool
  | .enterSpace _ | .leaveSpace | .enterFunction | .leaveFunction => false
  | _ => true

/-- An action that registers nothing and stays in its place leaves the walk where it is. -/
theorem Action.isStill_of_stays {action : Action} (h : action.stays = true) :
    action.isStill = true := by
  cases action with
  | enterSpace | leaveSpace | enterFunction | leaveFunction => cases h
  | _ => rfl

/-- Actions in which each step into a namespace or a function has its step out of it. -/
inductive Action.Bracketed : List Action → Prop
  | nil : Bracketed []
  | still {action : Action} (h : action.isStill = true) : Bracketed [action]
  | append {first second : List Action} (h : Bracketed first) (h' : Bracketed second) :
    Bracketed (first ++ second)
  | space (name : String) {below : List Action} (h : Bracketed below) :
    Bracketed (.enterSpace name :: (below ++ [.leaveSpace]))
  | function {below : List Action} (h : Bracketed below) :
    Bracketed (.enterFunction :: (below ++ [.leaveFunction]))

namespace Action.Bracketed

variable {actions first : List Action}

/-- Actions that leave the walk where it is are in brackets. -/
theorem of_all (h : actions.all Action.isStill = true) : Bracketed actions := by
  induction actions with
  | nil => exact .nil
  | cons action rest ih =>
    obtain ⟨haction, hrest⟩ := Bool.and_eq_true_iff.1 h
    exact (still haction).append (ih hrest)

/-- Actions that stay in their place are in brackets. -/
theorem of_stays (h : actions.all Action.stays = true) : Bracketed actions :=
  of_all (List.all_eq_true.2 fun action haction =>
    isStill_of_stays (List.all_eq_true.1 h action haction))

/-- Actions in brackets one after the other are in brackets. -/
theorem flatMap {α : Type} {f : α → List Action} {items : List α}
    (h : ∀ a ∈ items, Bracketed (f a)) : Bracketed (items.flatMap f) := by
  induction items with
  | nil => exact .nil
  | cons a rest ih =>
    obtain ⟨ha, hrest⟩ := List.forall_mem_cons.1 h
    exact ha.append (ih hrest)

end Action.Bracketed

end Resolver

open Resolver (Action performAll performAll_append gathered gathered_append)

/-- Binding a parameter is in brackets. -/
theorem Parameter.bracketed (parameter : Parameter) : Action.Bracketed parameter.actions := by
  cases parameter with
  | parameter => exact .still rfl
  | placeholder => exact .nil

/-- Registering a case is in brackets. -/
theorem EnumerationCase.bracketed (case : EnumerationCase) : Action.Bracketed case.actions := by
  cases case with
  | case => exact .of_all rfl
  | placeholder => exact .nil

/-- What is done at a node is bracketed around what is done below it. -/
theorem Node.bracketed (node : Node) {below : List Action} (h : Action.Bracketed below) :
    Action.Bracketed (node.actions false ++ (below ++ node.actions true)) := by
  -- nodes that do not move the place have brackets around what is below them
  have hstill : ∀ {first second : List Action}, first.all Action.isStill = true →
      second.all Action.isStill = true → Action.Bracketed (first ++ (below ++ second)) :=
    fun hfirst hsecond => (Action.Bracketed.of_all hfirst).append (h.append (.of_all hsecond))
  cases node with
  | declaration declaration =>
    cases declaration with
    | function id name result generics parameters block =>
      simp only [actions, Declaration.entering, Declaration.leaving]
      -- the parameters are bound before the walk goes into the function
      have hbound : Action.Bracketed (parameters.flatMap Parameter.actions ++
          (Declaration.function id name result generics parameters block).genericPatterns.map
            Action.bindType) :=
        (Action.Bracketed.flatMap fun p _ => p.bracketed).append
          (.of_all (by simp [Action.isStill]))
      have hbefore := Action.Bracketed.append (.of_all rfl :
        Action.Bracketed [.bindValue name, .register name,
          .noteTypeParameters name (.function id name result generics parameters block),
          .pushValues, .pushTypes]) hbound
      have hafter : Action.Bracketed [.popValues, .popTypes] := .of_all rfl
      have hall := hbefore.append ((Action.Bracketed.function h).append hafter)
      simpa only [List.append_assoc, List.cons_append, List.nil_append] using hall
    | enumeration id name generics cases =>
      -- the cases are bound in the enumeration's own space, after the walk below has returned
      simp only [actions, Declaration.entering, Declaration.leaving]
      have hcases : Action.Bracketed (cases.flatMap EnumerationCase.actions) :=
        .flatMap fun c _ => c.bracketed
      have hnote : Action.Bracketed
          [.noteTypeParameters name (.enumeration id name generics cases)] := .still rfl
      exact (Action.Bracketed.still rfl).append
        (h.append (hnote.append (.space name.name hcases)))
    -- the space is entered before its frames are opened, and left before they are closed
    | space id name declarations =>
      have hbefore : Action.Bracketed [.nameOnly name] := .still rfl
      have hopen : Action.Bracketed [.pushValues, .pushTypes] := .of_all rfl
      have hafter : Action.Bracketed [.popValues, .popTypes] := .of_all rfl
      have hspace := Action.Bracketed.space name.name (hopen.append h)
      have hall := hbefore.append (hspace.append hafter)
      simpa only [actions, Declaration.entering, Declaration.leaving, List.append_assoc,
        List.cons_append, List.nil_append] using hall
    | record id name generics declarations =>
      refine hstill rfl ?_
      simp only [actions, Declaration.leaving]
      split <;> rfl
    | value | library | placeholder => exact hstill rfl rfl
  | statement statement => cases statement <;> exact hstill rfl rfl
  | expression expression =>
    cases expression with
    | member id base name =>
      refine hstill ?_ rfl
      rw [actions]
      cases (Expression.member id base name).memberPath <;> rfl
    | binary | identifier | call | literal | placeholder => exact hstill rfl rfl
  | program | pattern | identifier | typeForm | literal | parameter | generic | case | argument =>
    exact hstill rfl rfl

/-- What is done in an outline is in brackets: each namespace and each function that is entered in
it is left in it. -/
theorem Outline.bracketed (outline : Outline) : Action.Bracketed outline.actions := by
  induction outline with
  | node item children ih =>
    rw [actions_node]
    refine item.bracketed ?_
    split
    · exact .nil
    · exact .flatMap ih

theorem Outline.bracketedAll (outlines : List Outline) :
    Action.Bracketed (Outline.actionsAll outlines) := by
  rw [Outline.actionsAll_eq_flatMap]
  exact .flatMap fun outline _ => outline.bracketed

namespace Resolver

/-! ## Places -/

/-- The namespaces around a walk, and the number of functions. -/
structure Place where
  path : List String
  depth : Nat

/-- Where a walk is. -/
def place (r : Resolver) : Place := ⟨r.path, r.functionDepth⟩

/-- An action that does not enter or leave anything leaves the walk where it is. -/
theorem place_perform_of_isStill (r : Resolver) {action : Action} (h : action.isStill = true) :
    (r.perform action).place = r.place := by
  induction action using Action.byPlace with
  | stays action hstays =>
    have hplace := r.samePlace_perform hstays
    rw [place, hplace.path_eq, hplace.depth_eq, place]
  | register pattern =>
    simp only [perform, register]
    split
    · rfl
    · split <;> rfl
  | enterSpace | leaveSpace | enterFunction | leaveFunction => cases h

/-- A step in, what is done inside and the step out are performed in this order. -/
theorem performAll_bracket (first last : Action) (below : List Action) (r : Resolver) :
    performAll (first :: (below ++ [last])) r =
      (performAll below (r.perform first)).perform last :=
  performAll_append below [last] (r.perform first)

/-- Bracketed actions end in the place where they begin. -/
theorem Action.Bracketed.place_performAll {actions : List Action} (h : Bracketed actions)
    (r : Resolver) : (performAll actions r).place = r.place := by
  induction h generalizing r with
  | nil => rfl
  | still h => exact r.place_perform_of_isStill h
  | append _ _ ih ih' => rw [performAll_append, ih', ih]
  | @space name below _ ih =>
    have hbelow := ih (r.perform (.enterSpace name))
    rw [performAll_bracket]
    show Place.mk (performAll below _).place.path.dropLast (performAll below _).place.depth = _
    rw [hbelow]
    exact congrArg (Place.mk · r.functionDepth) List.dropLast_concat
  | @function below _ ih =>
    have hbelow := ih (r.perform .enterFunction)
    rw [performAll_bracket]
    show Place.mk (performAll below _).place.path ((performAll below _).place.depth - 1) = _
    rw [hbelow]
    rfl

/-- In one place there is one number of functions around. -/
theorem functionDepth_eq_of_place_eq {r r' : Resolver} (h : r.place = r'.place) :
    r.functionDepth = r'.functionDepth := congrArg Place.depth h

/-! ## What depends on the place -/

section Gathered

variable {α : Type} {give : Resolver → Action → List α} {actions first : List Action}
  {r r' : Resolver}

/-- What actions give depends on the place only. -/
def Local (give : Resolver → Action → List α) : Prop :=
  ∀ {r r' : Resolver}, r.place = r'.place → give r = give r'

/-- The place after an action depends on the place before it. -/
theorem place_perform_congr (h : r.place = r'.place) (action : Action) :
    (r.perform action).place = (r'.perform action).place := by
  obtain ⟨hpath, hdepth⟩ : r.path = r'.path ∧ r.functionDepth = r'.functionDepth :=
    ⟨congrArg Place.path h, congrArg Place.depth h⟩
  cases hstill : action.isStill with
  | true => rw [place_perform_of_isStill r hstill, place_perform_of_isStill r' hstill, h]
  | false =>
    cases action with
    | enterSpace name => exact congrArg₂ Place.mk (congrArg (· ++ [name]) hpath) hdepth
    | leaveSpace => exact congrArg₂ Place.mk (congrArg List.dropLast hpath) hdepth
    | enterFunction => exact congrArg₂ Place.mk hpath (congrArg (· + 1) hdepth)
    | leaveFunction => exact congrArg₂ Place.mk hpath (congrArg (· - 1) hdepth)
    | _ => cases hstill

/-- What depends on the place in each action does so in a run. -/
theorem Local.gathered_congr (hgive : Local give) (h : r.place = r'.place) :
    gathered give actions r = gathered give actions r' := by
  induction actions generalizing r r' with
  | nil => rfl
  | cons action rest ih => rw [gathered, gathered, hgive h, ih (place_perform_congr h action)]

/-- What is given after bracketed actions does not depend on them. -/
theorem Local.gathered_bracketed_append (hgive : Local give) (h : Action.Bracketed first)
    (actions : List Action) (r : Resolver) :
    gathered give (first ++ actions) r = gathered give first r ++ gathered give actions r := by
  rw [gathered_append, hgive.gathered_congr (h.place_performAll r)]

/-- What is given outside of functions only is not given in a function. -/
theorem Action.Bracketed.gathered_eq_nil (h : Bracketed actions)
    (hgive : ∀ r : Resolver, 0 < r.functionDepth → ∀ action, give r action = [])
    (hdepth : 0 < r.functionDepth) : gathered give actions r = [] := by
  -- a step out of a function is done from further inside
  induction h generalizing r with
  | nil => rfl
  | still h => rw [gathered, hgive r hdepth, gathered, List.append_nil]
  | @append first second hfirst _ ih ih' =>
    have hafter := functionDepth_eq_of_place_eq (hfirst.place_performAll r)
    rw [gathered_append, ih hdepth, ih' (hafter ▸ hdepth), List.append_nil]
  | @space name below hbelow ih =>
    have hinside : 0 < (r.perform (.enterSpace name)).functionDepth := hdepth
    have hafter := functionDepth_eq_of_place_eq
      (hbelow.place_performAll (r.perform (.enterSpace name)))
    rw [gathered, hgive r hdepth, gathered_append, ih hinside, gathered,
      hgive _ (hafter ▸ hinside), gathered]
    rfl
  | @function below hbelow ih =>
    have hinside : 0 < (r.perform .enterFunction).functionDepth := Nat.succ_pos _
    have hafter := functionDepth_eq_of_place_eq
      (hbelow.place_performAll (r.perform .enterFunction))
    rw [gathered, hgive r hdepth, gathered_append, ih hinside, gathered,
      hgive _ (hafter ▸ hinside), gathered]
    rfl

end Gathered

/-- What is registered depends on the place of the walk alone. -/
theorem local_registrationsOf : Local registrationsOf := by
  intro r r' h
  obtain ⟨hpath, hdepth⟩ : r.path = r'.path ∧ r.functionDepth = r'.functionDepth :=
    ⟨congrArg Place.path h, congrArg Place.depth h⟩
  funext action
  cases action with
  | register pattern => rw [registrationsOf, registrationsOf, pathOf, pathOf, hpath, hdepth]
  | enterSpace name => rw [registrationsOf, registrationsOf, hpath]
  | _ => rfl

end Resolver

end TreeLang
