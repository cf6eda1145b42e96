import TreeLang.Proofs.Scope.Noting

/-!
# Registering declarations along a walk

The path of a walk always leads to a namespace: a namespace is made on the way into it, and stays.
So a registration can fail for one reason only, another declaration at its path, and making a
namespace never fails. A path holds the first declaration that was registered under it.
-/

namespace TreeLang

namespace Namespace

/-- The path around an open path is open. -/
theorem Opens.dropLast {path : List String} {space : Namespace} (h : Opens path space) :
    Opens path.dropLast space := by
  rcases List.eq_nil_or_concat path with rfl | ⟨parents, name, rfl⟩
  · exact h
  · rw [List.concat_eq_append] at h ⊢
    rw [List.dropLast_concat]
    exact h.of_append

end Namespace

namespace Resolver

variable {r r' : Resolver}

/-- The path at which a declaration is registered. -/
def pathOf (r : Resolver) (pattern : Pattern) : List String := r.path ++ [pattern.name]

/-- What registering a declaration comes to, where the walk is in a namespace. -/
inductive Registers (r : Resolver) (pattern : Pattern) : Resolver → Prop
  | inFunction (depth : 0 < r.functionDepth) : Registers r pattern r
  | taken {other : NodeId} (depth : r.functionDepth = 0)
    (held : r.scope.space.pattern? (r.pathOf pattern) = some other)
    (fails : r.scope.space.set (r.pathOf pattern) pattern.id =
      .error (.alreadyDefined (r.pathOf pattern))) : Registers r pattern r
  | new {edited : Namespace} (depth : r.functionDepth = 0)
    (free : r.scope.space.pattern? (r.pathOf pattern) = none)
    (done : r.scope.space.set (r.pathOf pattern) pattern.id = .ok edited)
    (pattern?_eq : ∀ path, edited.pattern? path =
      if path = r.pathOf pattern then some pattern.id else r.scope.space.pattern? path)
    (opens : ∀ path, r.scope.space.Opens path → edited.Opens path) :
    Registers r pattern (r.onScope fun scope =>
      { scope with
        space := edited, qualified := scope.qualified.put pattern.id (r.pathOf pattern) })

/-- A registration is what is said of it: in a function nothing but the name, and outside the path
and an entry of the namespace, when the path is free. -/
theorem registers (h : r.scope.space.Opens r.path) (pattern : Pattern) :
    Registers r pattern (r.register pattern) := by
  rw [register]
  split
  · next hdepth => exact .inFunction hdepth
  · next hdepth =>
    have hdepth : r.functionDepth = 0 := Nat.eq_zero_of_not_pos hdepth
    cases hheld : r.scope.space.pattern? (r.pathOf pattern) with
    | some other =>
      have hset := Namespace.set_eq_error pattern.id h hheld
      simp only [hset]
      exact .taken hdepth hheld hset
    | none =>
      obtain ⟨edited, hset, hpattern, hopens⟩ := Namespace.set_eq_ok pattern.id h hheld
      simp only [hset]
      exact .new hdepth hheld hset hpattern hopens

/-- Going into a namespace makes it, and declares nothing. -/
theorem enterSpace_eq (h : r.scope.space.Opens r.path) (name : String) :
    ∃ edited, r.scope.space.create (r.path ++ [name]) = .ok edited ∧
      (∀ path, edited.pattern? path = r.scope.space.pattern? path) ∧
      edited.Opens (r.path ++ [name]) ∧
      r.enterSpace name =
        { r with path := r.path ++ [name], scope := { r.scope with space := edited } } := by
  obtain ⟨edited, hcreate, hpattern, -, hopen⟩ := Namespace.create_eq_ok name h
  refine ⟨edited, hcreate, hpattern, hopen, ?_⟩
  rw [enterSpace, createSpace, onScope, hcreate]
  rfl

/-! ## Steps -/

/-- Two states in one place: in the same namespace, as deep in functions, with the same
namespaces. -/
structure SamePlace (r r' : Resolver) : Prop where
  path_eq : r'.path = r.path
  depth_eq : r'.functionDepth = r.functionDepth
  space_eq : r'.scope.space = r.scope.space

/-- Whether an action stays in its place. -/
def Action.stays : Action → Bool
  | .register _ | .enterSpace _ | .leaveSpace | .enterFunction | .leaveFunction => false
  | _ => true

/-- An action that stays keeps the path, the number of functions around and the namespaces. -/
theorem samePlace_perform (r : Resolver) {action : Action} (h : action.stays = true) :
    SamePlace r (r.perform action) := by
  cases action with
  | register | enterSpace | leaveSpace | enterFunction | leaveFunction => cases h
  | noteTypeParameters name declaration =>
    obtain ⟨table, htable⟩ := r.scope.noteTypeParameters_eq name declaration
    rw [perform, onScope, htable]
    exact ⟨rfl, rfl, rfl⟩
  | resolve id used =>
    rw [perform, resolve_eq_noting]
    exact ⟨rfl, rfl, rfl⟩
  | resolvePath id path =>
    simp only [perform, onScope, Scope.resolvePath]
    split <;> exact ⟨rfl, rfl, rfl⟩
  | _ => exact ⟨rfl, rfl, rfl⟩

/-- An action stays in its place, registers a declaration, or goes into or out of a namespace or a
function. -/
@[elab_as_elim]
theorem Action.byPlace {motive : Action → Prop}
    (stays : ∀ action : Action, action.stays = true → motive action)
    (register : ∀ pattern, motive (.register pattern))
    (enterSpace : ∀ name, motive (.enterSpace name)) (leaveSpace : motive .leaveSpace)
    (enterFunction : motive .enterFunction) (leaveFunction : motive .leaveFunction)
    (action : Action) : motive action := by
  cases action with
  | register pattern => exact register pattern
  | enterSpace name => exact enterSpace name
  | leaveSpace => exact leaveSpace
  | enterFunction => exact enterFunction
  | leaveFunction => exact leaveFunction
  | _ => exact stays _ rfl

/-- The path of the walk stays open. -/
theorem opens_perform (h : r.scope.space.Opens r.path) (action : Action) :
    (r.perform action).scope.space.Opens (r.perform action).path := by
  induction action using Action.byPlace with
  | stays action hstays =>
    have hplace := r.samePlace_perform hstays
    rw [hplace.space_eq, hplace.path_eq]
    exact h
  | register pattern =>
    have hregisters := registers h pattern
    rw [perform]
    generalize r.register pattern = after at hregisters ⊢
    cases hregisters with
    | inFunction | taken => exact h
    | new _ _ _ _ opens => exact opens _ h
  | enterSpace name =>
    obtain ⟨edited, -, -, hopen, henter⟩ := enterSpace_eq h name
    rw [perform, henter]
    exact hopen
  | leaveSpace => exact h.dropLast
  | enterFunction => exact h
  | leaveFunction => exact h

/-- The path of the walk stays open throughout. -/
theorem opens_performAll (h : r.scope.space.Opens r.path) (actions : List Action) :
    (performAll actions r).scope.space.Opens (performAll actions r).path := by
  induction actions generalizing r with
  | nil => exact h
  | cons action rest ih => exact ih (opens_perform h action)

/-! ## Registrations -/

/-- An edit of the namespaces that a walk attempts. -/
inductive Registration where
  | declare (path : List String) (pattern : NodeId)
  | makeSpace (path : List String)
  deriving DecidableEq

namespace Registration

/-- What the edit comes to. -/
def attempt (space : Namespace) : Registration → Except NamespaceError Namespace
  | .declare path pattern => space.set path pattern
  | .makeSpace path => space.create path

/-- The namespaces after the edit, which are as before if it fails. -/
def apply (space : Namespace) (registration : Registration) : Namespace :=
  space.orSame (registration.attempt space)

/-- The declaration that is registered at a path. -/
def declaredAt (path : List String) : Registration → Option NodeId
  | .declare declared pattern => if declared = path then some pattern else none
  | .makeSpace _ => none

end Registration

/-- The edit that an action attempts. Declarations inside of functions are not registered. -/
def registrationsOf (r : Resolver) : Action → List Registration
  | .register pattern =>
    if 0 < r.functionDepth then [] else [.declare (r.pathOf pattern) pattern.id]
  | .enterSpace name => [.makeSpace (r.path ++ [name])]
  | _ => []

/-- What stays in its place registers nothing. -/
theorem registrationsOf_of_stays (r : Resolver) {action : Action} (h : action.stays = true) :
    r.registrationsOf action = [] := by
  cases action with
  | register | enterSpace => cases h
  | _ => rfl

/-- The namespaces change by what is attempted, and not otherwise. -/
theorem space_perform (r : Resolver) (action : Action) :
    (r.perform action).scope.space =
      (r.registrationsOf action).foldl Registration.apply r.scope.space := by
  induction action using Action.byPlace with
  | stays action hstays =>
    rw [(r.samePlace_perform hstays).space_eq, r.registrationsOf_of_stays hstays]
    rfl
  | register pattern =>
    simp only [perform, register, registrationsOf]
    split
    · rfl
    · change _ = r.scope.space.orSame (r.scope.space.set (r.path ++ [pattern.name]) pattern.id)
      cases r.scope.space.set (r.path ++ [pattern.name]) pattern.id <;> rfl
  | enterSpace name => rfl
  | leaveSpace => rfl
  | enterFunction => rfl
  | leaveFunction => rfl

/-- An attempt that fails is one to declare something at a path that holds a declaration. -/
theorem attempt_eq_error (h : r.scope.space.Opens r.path) {action : Action}
    {registration : Registration} (hmem : registration ∈ r.registrationsOf action)
    {e : NamespaceError} (hfails : registration.attempt r.scope.space = .error e) :
    ∃ path pattern, registration = .declare path pattern ∧ e = .alreadyDefined path ∧
      (r.scope.space.pattern? path).isSome := by
  -- only registrations and spaces are attempted, and a space is made whatever is at its path
  cases action with
  | register pattern =>
    have hregisters := registers h pattern
    rw [registrationsOf] at hmem
    split at hmem
    · cases hmem
    · next hdepth =>
      obtain rfl := List.mem_singleton.1 hmem
      have hset : r.scope.space.set (r.pathOf pattern) pattern.id = .error e := hfails
      generalize r.register pattern = after at hregisters
      cases hregisters with
      | inFunction depth => exact absurd depth hdepth
      | taken _ held fails =>
        rw [fails] at hset
        cases hset
        exact ⟨_, _, rfl, rfl, by rw [held]; rfl⟩
      | new _ _ done => cases done.symm.trans hset
  | enterSpace name =>
    obtain rfl := List.mem_singleton.1 hmem
    obtain ⟨edited, hcreate, -⟩ := enterSpace_eq h name
    cases hcreate.symm.trans hfails
  | _ => cases hmem

/-- After an action a path holds what it held before, or else what was registered there. -/
theorem pattern?_perform (h : r.scope.space.Opens r.path) (action : Action) (path : List String) :
    (r.perform action).scope.space.pattern? path =
      (r.scope.space.pattern? path).or
        ((r.registrationsOf action).findSome? (Registration.declaredAt path)) := by
  induction action using Action.byPlace with
  | stays action hstays =>
    rw [(r.samePlace_perform hstays).space_eq, r.registrationsOf_of_stays hstays]
    exact Option.or_none.symm
  | register pattern =>
    have hregisters := registers h pattern
    rw [perform, registrationsOf]
    generalize r.register pattern = after at hregisters ⊢
    -- within a function nothing is declared, and a path that is taken keeps what it holds
    cases hregisters with
    | inFunction depth =>
      rw [if_pos depth]
      exact Option.or_none.symm
    | taken depth held =>
      rw [if_neg (depth ▸ Nat.lt_irrefl 0), List.findSome?_singleton, Registration.declaredAt]
      split
      · next hpath => rw [← hpath, held, Option.some_or]
      · exact Option.or_none.symm
    | new depth free _ pattern?_eq =>
      rw [if_neg (depth ▸ Nat.lt_irrefl 0), List.findSome?_singleton, Registration.declaredAt]
      refine (pattern?_eq path).trans ?_
      by_cases hpath : path = r.pathOf pattern
      · rw [if_pos hpath, if_pos hpath.symm, hpath, free, Option.none_or]
      · rw [if_neg hpath, if_neg (Ne.symm hpath), Option.or_none]
  | enterSpace name =>
    obtain ⟨edited, -, hpattern, -, henter⟩ := enterSpace_eq h name
    rw [perform, henter]
    exact (hpattern path).trans Option.or_none.symm
  | leaveSpace => exact Option.or_none.symm
  | enterFunction => exact Option.or_none.symm
  | leaveFunction => exact Option.or_none.symm

/-- After a run a path holds what it held before, or else the first declaration registered there. -/
theorem pattern?_performAll (h : r.scope.space.Opens r.path) (actions : List Action)
    (path : List String) :
    (performAll actions r).scope.space.pattern? path =
      (r.scope.space.pattern? path).or
        ((gathered registrationsOf actions r).findSome? (Registration.declaredAt path)) := by
  induction actions generalizing r with
  | nil => exact Option.or_none.symm
  | cons action rest ih =>
    rw [gathered, List.findSome?_append, ← Option.or_assoc, ← pattern?_perform h]
    exact ih (opens_perform h action)

/-- What stays in its place gets no path. -/
theorem pathsOf_of_stays (r : Resolver) {action : Action} (h : action.stays = true) :
    r.pathsOf action = [] := by
  cases action with
  | register => cases h
  | _ => rfl

/-- The path of a declaration is noted when the namespaces come to hold the declaration there. -/
theorem pattern?_perform_iff (h : r.scope.space.Opens r.path) {action : Action}
    {path : List String} {id : NodeId} :
    (r.perform action).scope.space.pattern? path = some id ↔
      r.scope.space.pattern? path = some id ∨ (id, path) ∈ r.pathsOf action := by
  induction action using Action.byPlace with
  | stays action hstays =>
    rw [(r.samePlace_perform hstays).space_eq, r.pathsOf_of_stays hstays,
      or_iff_left List.not_mem_nil]
  | register pattern =>
    have hregisters := registers h pattern
    rw [perform, pathsOf, ← pathOf]
    generalize r.register pattern = after at hregisters ⊢
    -- a path is noted in the one case in which it is new
    cases hregisters with
    | inFunction depth => rw [if_pos depth, or_iff_left List.not_mem_nil]
    | taken depth _ fails =>
      rw [if_neg (depth ▸ Nat.lt_irrefl 0), fails, or_iff_left List.not_mem_nil]
    | @new edited depth free done pattern?_eq =>
      rw [if_neg (depth ▸ Nat.lt_irrefl 0), done, List.mem_singleton, Prod.mk.injEq]
      change edited.pattern? path = _ ↔ _
      rw [pattern?_eq path]
      by_cases hpath : path = r.pathOf pattern
      · simp [hpath, free, eq_comm]
      · simp [hpath]
  | enterSpace name =>
    obtain ⟨edited, -, hpattern, -, henter⟩ := enterSpace_eq h name
    rw [perform, henter, hpattern]
    exact (or_iff_left List.not_mem_nil).symm
  | leaveSpace => exact (or_iff_left List.not_mem_nil).symm
  | enterFunction => exact (or_iff_left List.not_mem_nil).symm
  | leaveFunction => exact (or_iff_left List.not_mem_nil).symm

/-- After a run the namespaces hold what they held before and what the run has noted the paths
of. -/
theorem pattern?_performAll_iff (h : r.scope.space.Opens r.path) {actions : List Action}
    {path : List String} {id : NodeId} :
    (performAll actions r).scope.space.pattern? path = some id ↔
      r.scope.space.pattern? path = some id ∨ (id, path) ∈ gathered pathsOf actions r := by
  induction actions generalizing r with
  | nil => exact (or_iff_left List.not_mem_nil).symm
  | cons action rest ih =>
    rw [gathered, List.mem_append, ← or_assoc, ← pattern?_perform_iff h]
    exact ih (opens_perform h action)

end Resolver

end TreeLang
