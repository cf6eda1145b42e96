import TreeLang.Proofs.Scope.Places
import TreeLang.Proofs.Scope.Updates

/-!
# What is registered inside of functions

The registrations of a run decide which paths are namespaces, which declarations stand at them and
what the table of paths holds. Inside of functions nothing is registered but namespaces that are
made there: without these, the declarations and the table of paths are the same.
-/

namespace TreeLang

open Resolver (Action Registration performAll gathered gathered_append registrationsOf
  local_registrationsOf pathsOf)

/-! ## Registrations decide -/

namespace Resolver

variable {r : Resolver} {path : List String}

/-- After an action a path is a namespace if it was one before, or is made one. -/
theorem opens_perform_iff (h : r.scope.space.Opens r.path) {action : Action} :
    (r.perform action).scope.space.Opens path ↔
      r.scope.space.Opens path ∨ .makeSpace path ∈ r.registrationsOf action := by
  induction action using Action.byPlace with
  | stays action hstays =>
    rw [(r.samePlace_perform hstays).space_eq, r.registrationsOf_of_stays hstays]
    simp
  | register pattern =>
    -- a registration opens no path
    have hnone : .makeSpace path ∉ r.registrationsOf (.register pattern) := by
      rw [registrationsOf]
      split <;> simp
    rw [or_iff_left hnone, perform]
    have hregisters := registers h pattern
    generalize r.register pattern = after at hregisters ⊢
    cases hregisters with
    | inFunction | taken => rfl
    | new _ _ done _ opens => exact ⟨Namespace.opens_of_set_eq_ok done, opens path⟩
  | enterSpace name =>
    obtain ⟨edited, hcreate, -, hopen, henter⟩ := enterSpace_eq h name
    rw [perform, henter, registrationsOf, List.mem_singleton, Registration.makeSpace.injEq]
    show edited.Opens path ↔ _
    -- entering makes its own path a namespace and no other one
    obtain ⟨-, -, hothers⟩ := (Namespace.createsExactly _ _).ok edited hcreate
    by_cases hpath : path = r.path ++ [name]
    · simp [hpath, hopen]
    · have hother := hothers path hpath
      rw [Namespace.isSome_members?_iff, Namespace.isSome_members?_iff] at hother
      rw [hother, or_iff_left hpath]
  | leaveSpace => simp [perform, leaveSpace, registrationsOf]
  | enterFunction => simp [perform, registrationsOf]
  | leaveFunction => simp [perform, registrationsOf]

/-- After a run the namespaces are those from before and those that the run makes. -/
theorem opens_performAll_iff (h : r.scope.space.Opens r.path) {actions : List Action} :
    (performAll actions r).scope.space.Opens path ↔
      r.scope.space.Opens path ∨ .makeSpace path ∈ gathered registrationsOf actions r := by
  induction actions generalizing r with
  | nil => simp [performAll, gathered]
  | cons action rest ih =>
    rw [gathered, List.mem_append, ← or_assoc, ← opens_perform_iff h]
    exact ih (opens_perform h action)

/-- The entries of the table of paths that registrations give, where some paths are held already: a
declaration that is the first one at its path gives one. -/
def Registration.entries (held : List String → Option NodeId) :
    List Registration → List (NodeId × List String)
  | [] => []
  | .makeSpace _ :: rest => entries held rest
  | .declare path pattern :: rest =>
    if (held path).isSome then entries held rest
    else (pattern, path) ::
      entries (fun other => if other = path then some pattern else held other) rest

/-- The entries that a run puts into the table of paths are those of its registrations. -/
theorem gathered_pathsOf_eq (h : r.scope.space.Opens r.path) (actions : List Action) :
    gathered pathsOf actions r =
      Registration.entries (fun path => r.scope.space.pattern? path)
        (gathered registrationsOf actions r) := by
  -- by induction on the run, one kind of action at a time: only registrations and spaces make
  -- entries
  induction actions generalizing r with
  | nil => rfl
  | cons action rest ih =>
    have hrest := ih (opens_perform h action)
    rw [gathered, gathered, hrest]
    induction action using Action.byPlace with
    | stays action hstays =>
      rw [r.pathsOf_of_stays hstays, r.registrationsOf_of_stays hstays,
        (r.samePlace_perform hstays).space_eq]
      rfl
    -- within a function and at a taken path there is no entry, otherwise it is that of the pattern
    | register pattern =>
      have hregisters := registers h pattern
      clear hrest ih
      rw [perform, pathsOf, registrationsOf, ← pathOf]
      generalize r.register pattern = after at hregisters ⊢
      cases hregisters with
      | inFunction depth =>
        rw [if_pos depth, if_pos depth]
        rfl
      | taken depth held fails =>
        have hdepth : ¬ 0 < r.functionDepth := depth ▸ Nat.lt_irrefl 0
        rw [if_neg hdepth, if_neg hdepth, fails]
        simp only [List.nil_append, List.singleton_append, Registration.entries, held]
        rfl
      | new depth free done pattern?_eq =>
        have hdepth : ¬ 0 < r.functionDepth := depth ▸ Nat.lt_irrefl 0
        rw [if_neg hdepth, if_neg hdepth, done]
        simp only [List.singleton_append, Registration.entries, free, onScope, pattern?_eq]
        rfl
    | enterSpace name =>
      obtain ⟨edited, -, hpattern, -, henter⟩ := enterSpace_eq h name
      rw [perform, henter]
      simp only [pathsOf, registrationsOf, List.nil_append, List.singleton_append,
        Registration.entries, hpattern]
    | leaveSpace => rfl
    | enterFunction => rfl
    | leaveFunction => rfl

/-! ## What is done in functions -/

/-- The registrations of an action outside of functions. -/
def registrationsOutside (r : Resolver) (action : Action) : List Registration :=
  if 0 < r.functionDepth then [] else r.registrationsOf action

/-- The path of a namespace that is made in a place, if the place is inside of a function. -/
def Place.hidden (place : Place) (name : String) : List (List String) :=
  if 0 < place.depth then [place.path ++ [name]] else []

/-- The path of the namespace that an action makes inside of a function. -/
def spacesInside (r : Resolver) : Action → List (List String)
  | .enterSpace name => r.place.hidden name
  | _ => []

/-- What is registered outside of functions depends on the place of the walk alone. -/
theorem local_registrationsOutside : Local registrationsOutside := by
  intro r r' h
  funext action
  rw [registrationsOutside, registrationsOutside, local_registrationsOf h,
    functionDepth_eq_of_place_eq h]

/-- Which namespaces are made inside of functions depends on the place of the walk alone. -/
theorem local_spacesInside : Local spacesInside := by
  intro r r' h
  funext action
  cases action with
  | enterSpace name => rw [spacesInside, spacesInside, h]
  | _ => rfl

/-- Outside of functions nothing is left out. -/
theorem gathered_registrationsOutside {actions : List Action}
    (h : actions.all Action.isLevel = true) (hdepth : r.functionDepth = 0) :
    gathered registrationsOutside actions r = gathered registrationsOf actions r := by
  induction actions generalizing r with
  | nil => rfl
  | cons action rest ih =>
    obtain ⟨haction, hrest⟩ := Bool.and_eq_true_iff.1 h
    have hafter : (r.perform action).functionDepth = 0 := by
      rw [r.functionDepth_perform haction, hdepth]
    rw [gathered, gathered, ih hrest hafter, registrationsOutside,
      if_neg (hdepth ▸ Nat.lt_irrefl 0)]

/-- Where no action gives anything, the run gives nothing. -/
theorem gathered_eq_nil_of_all {α : Type} {give : Resolver → Action → List α} {p : Action → Bool}
    (hgive : ∀ (r : Resolver) {action : Action}, p action = true → give r action = [])
    {actions : List Action} (h : actions.all p = true) (r : Resolver) :
    gathered give actions r = [] := by
  induction actions generalizing r with
  | nil => rfl
  | cons action rest ih =>
    obtain ⟨haction, hrest⟩ := Bool.and_eq_true_iff.1 h
    rw [gathered, hgive r haction, ih hrest, List.append_nil]

/-- What stays in its place registers nothing. -/
theorem registrationsOutside_of_stays (r : Resolver) {action : Action} (h : action.stays = true) :
    r.registrationsOutside action = [] := by
  rw [registrationsOutside, r.registrationsOf_of_stays h, ite_self]

/-- What leaves the walk where it is makes no namespace. -/
theorem spacesInside_of_isStill (r : Resolver) {action : Action} (h : action.isStill = true) :
    r.spacesInside action = [] := by
  cases action with
  | enterSpace => cases h
  | _ => rfl

/-- The second list of registrations is the first one with namespaces made in between. -/
inductive Registration.AddsSpaces :
    List (List String) → List Registration → List Registration → Prop
  | nil : AddsSpaces [] [] []
  | both {added : List (List String)} {few many : List Registration} (registration : Registration)
    (h : AddsSpaces added few many) : AddsSpaces added (registration :: few) (registration :: many)
  | added {added : List (List String)} {few many : List Registration} (path : List String)
    (h : AddsSpaces added few many) : AddsSpaces (path :: added) few (.makeSpace path :: many)

/-- All that a run registers inside of functions are namespaces that it makes there. -/
theorem addsSpaces_gathered (actions : List Action) (r : Resolver) :
    Registration.AddsSpaces (gathered spacesInside actions r)
      (gathered registrationsOutside actions r) (gathered registrationsOf actions r) := by
  induction actions generalizing r with
  | nil => exact .nil
  | cons action rest ih =>
    have hrest := ih (r.perform action)
    simp only [gathered]
    -- outside of functions everything is registered, and inside of them spaces alone are made
    cases action with
    | register pattern =>
      simp only [spacesInside, registrationsOutside, registrationsOf]
      split
      · exact hrest
      · exact .both _ hrest
    | enterSpace name =>
      by_cases hdepth : 0 < r.functionDepth
      · have hmade : r.spacesInside (.enterSpace name) = [r.path ++ [name]] := if_pos hdepth
        have hnone : r.registrationsOutside (.enterSpace name) = [] := if_pos hdepth
        rw [hmade, hnone]
        exact .added _ hrest
      · have hnone : r.spacesInside (.enterSpace name) = [] := if_neg hdepth
        have hmade : r.registrationsOutside (.enterSpace name) =
          r.registrationsOf (.enterSpace name) := if_neg hdepth
        rw [hnone, hmade]
        exact .both _ hrest
    | _ =>
      simp only [spacesInside, registrationsOutside, registrationsOf, ite_self]
      exact hrest

namespace Registration.AddsSpaces

variable {added : List (List String)} {few many : List Registration}

/-- More namespaces do not change what is declared at a path. -/
theorem findSome?_declaredAt_eq (h : AddsSpaces added few many) (path : List String) :
    few.findSome? (declaredAt path) = many.findSome? (declaredAt path) := by
  induction h with
  | nil => rfl
  | both registration _ ih => rw [List.findSome?_cons, List.findSome?_cons, ih]
  | added path' _ ih => rw [List.findSome?_cons, declaredAt, ih]

/-- More namespaces do not change which names have a declaration. -/
theorem entries_eq (h : AddsSpaces added few many) (held : List String → Option NodeId) :
    entries held few = entries held many := by
  induction h generalizing held with
  | nil => rfl
  | both registration _ ih =>
    cases registration with
    | declare path pattern => simp only [entries, ih]
    | makeSpace path => exact ih held
  | added path _ ih => exact ih held

/-- The namespaces that are made are those of both lists. -/
theorem mem_makeSpace_iff (h : AddsSpaces added few many) {path : List String} :
    .makeSpace path ∈ many ↔ .makeSpace path ∈ few ∨ path ∈ added := by
  induction h with
  | nil => simp
  | both registration _ ih => rw [List.mem_cons, List.mem_cons, ih, or_assoc]
  | added path' _ ih =>
    rw [List.mem_cons, List.mem_cons, ih, Registration.makeSpace.injEq]
    exact or_left_comm

/-- When no namespace is more in the second list, both are the same. -/
theorem eq_of_nil (h : AddsSpaces [] few many) : few = many := by
  generalize hadded : ([] : List (List String)) = added at h
  induction h with
  | nil => rfl
  | both registration _ ih => rw [ih hadded]
  | added => cases hadded

end Registration.AddsSpaces

end Resolver

end TreeLang
