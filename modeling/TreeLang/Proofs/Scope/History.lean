import Mathlib.Data.Nat.Find
import TreeLang.Proofs.Scope.Noting
import TreeLang.Proofs.Scope.Visible

/-!
# Scope stacks by their history

A stack is what a history of pushes, pops and bindings has made of the empty one. What its frames
hold is read off the history: each frame has the names that were set in it since it was opened, in
the order in which they were first set there, with what they were last set to.
-/

namespace TreeLang

namespace ScopeStack

/-- What can be done to a stack. -/
inductive Operation where
  | push
  | pop
  | set (name : String) (pattern : NodeId)

/-- The stack after an operation. -/
def perform (stack : ScopeStack) : Operation → ScopeStack
  | .push => stack.push
  | .pop => stack.pop
  | .set name pattern => stack.set name pattern

/-- The stack after several operations, one after the other. -/
def performAll (stack : ScopeStack) (operations : List Operation) : ScopeStack :=
  operations.foldl perform stack

/-- The stack that a history has made, from the empty one. -/
def after (history : List Operation) : ScopeStack := performAll empty history

/-- A history that goes on performs its operations from where it has come to. -/
theorem after_append (history operations : List Operation) :
    after (history ++ operations) = performAll (after history) operations := List.foldl_append

/-- A history with one more operation performs this last. -/
theorem after_concat (history : List Operation) (operation : Operation) :
    after (history ++ [operation]) = (after history).perform operation :=
  after_append history [operation]

/-- There is always a frame. -/
theorem depth_pos (stack : ScopeStack) : 0 < stack.depth := Nat.succ_pos _

/-- No frame has a name twice after any history. -/
theorem distinct_after (history : List Operation) : (after history).Distinct := by
  induction history using List.reverseRecOn with
  | nil => exact distinct_empty
  | append_singleton history operation ih =>
    rw [after_concat]
    cases operation with
    | push => exact ih.push
    | pop => exact ih.pop
    | set name pattern => exact ih.set name pattern

/-! ## What a frame records -/

section Frames

/-- When a name is first set, by a relation that says what is set when. -/
def FirstSet (sets : Nat → String → NodeId → Prop) (name : String) (since : Nat) : Prop :=
  (∃ pattern, sets since name pattern) ∧ ∀ time pattern, sets time name pattern → since ≤ time

/-- What a name is last set to. -/
def LastSet (sets : Nat → String → NodeId → Prop) (name : String) (pattern : NodeId) : Prop :=
  ∃ time, sets time name pattern ∧ ∀ other q, sets other name q → other ≤ time

/-- A frame with the names that are set, from the one that was set first on. -/
structure Records (sets : Nat → String → NodeId → Prop) (frame : Frame) : Prop where
  find_iff : ∀ name pattern, frame.find name = some pattern ↔ LastSet sets name pattern
  isSome_find : ∀ time name pattern, sets time name pattern → (frame.find name).isSome
  ordered : (frame.map Prod.fst).Pairwise fun a b =>
    ∃ s t, FirstSet sets a s ∧ FirstSet sets b t ∧ s < t

variable {sets sets' : Nat → String → NodeId → Prop} {frame : Frame} {name : String}
  {pattern : NodeId} {now time : Nat}

/-- What is set at all is first set at some time. -/
theorem exists_firstSet (h : sets time name pattern) : ∃ since, FirstSet sets name since := by
  classical
  have hset : ∃ time pattern, sets time name pattern := ⟨time, pattern, h⟩
  refine ⟨Nat.find hset, Nat.find_spec hset, ?_⟩
  intro other q hother
  exact Nat.find_min' hset ⟨q, hother⟩

/-- A frame without names records that nothing was set. -/
theorem records_nil (h : ∀ time name pattern, ¬ sets time name pattern) : Records sets [] := by
  refine ⟨?_, ?_, .nil⟩
  · intro name pattern
    constructor
    · nofun
    · rintro ⟨time, hset, -⟩
      exact absurd hset (h time name pattern)
  · intro time name pattern hset
    exact absurd hset (h time name pattern)

/-- What a frame records can be described in other words. -/
theorem Records.congr (h : Records sets frame)
    (heq : ∀ time name pattern, sets' time name pattern ↔ sets time name pattern) :
    Records sets' frame := by
  have hsets : sets' = sets := by
    funext time name pattern
    exact propext (heq time name pattern)
  rw [hsets]
  exact h

/-- What was first set keeps its time when something is set later. -/
theorem FirstSet.mono {since : Nat} {other : String} (h : FirstSet sets other since)
    (hpast : ∀ time name pattern, sets time name pattern → time < now)
    (heq : ∀ time other q, sets' time other q ↔
      sets time other q ∨ time = now ∧ other = name ∧ q = pattern) :
    FirstSet sets' other since := by
  obtain ⟨⟨p, hp⟩, hmin⟩ := h
  refine ⟨⟨p, (heq _ _ _).2 (.inl hp)⟩, ?_⟩
  intro time q hset
  rcases (heq _ _ _).1 hset with hold | ⟨rfl, -, -⟩
  · exact hmin time q hold
  · exact Nat.le_of_lt (hpast _ _ _ hp)

/-- A frame in which a name is put records what is set when the name is set last of all. -/
theorem Records.put (h : Records sets frame)
    (hpast : ∀ time name pattern, sets time name pattern → time < now)
    (heq : ∀ time other q, sets' time other q ↔
      sets time other q ∨ time = now ∧ other = name ∧ q = pattern) :
    Records sets' (frame.put name pattern) := by
  have hnow : sets' now name pattern := (heq _ _ _).2 (.inr ⟨rfl, rfl, rfl⟩)
  have hothers : ∀ {other}, other ≠ name → ∀ time q, sets' time other q ↔ sets time other q := by
    intro other hother time q
    rw [heq]
    simp [hother]
  refine ⟨?_, ?_, ?_⟩
  · intro other q
    rw [Table.find_put]
    by_cases hother : other = name
    · subst hother
      rw [if_pos rfl, Option.some.injEq]
      constructor
      · rintro rfl
        refine ⟨now, hnow, ?_⟩
        intro time p hset
        rcases (heq _ _ _).1 hset with hold | ⟨rfl, -, -⟩
        · exact Nat.le_of_lt (hpast _ _ _ hold)
        · exact Nat.le_refl _
      · rintro ⟨time, hset, hmax⟩
        -- nothing is set later than now, and nothing else is set now
        have hlate : now ≤ time := hmax now pattern hnow
        rcases (heq _ _ _).1 hset with hold | ⟨-, -, rfl⟩
        · exact absurd (hpast _ _ _ hold) (Nat.not_lt.2 hlate)
        · rfl
    · rw [if_neg hother, h.find_iff]
      simp only [LastSet, hothers hother]
  · intro time other q hset
    rw [Table.find_put]
    by_cases hother : other = name
    · rw [if_pos hother]
      rfl
    · rw [if_neg hother]
      exact h.isSome_find time other q ((hothers hother time q).1 hset)
  · have hordered : (frame.map Prod.fst).Pairwise fun a b =>
        ∃ s t, FirstSet sets' a s ∧ FirstSet sets' b t ∧ s < t := by
      refine h.ordered.imp ?_
      rintro a b ⟨s, t, hs, ht, hlt⟩
      exact ⟨s, t, hs.mono hpast heq, ht.mono hpast heq, hlt⟩
    rw [Table.keys_put]
    by_cases hname : name ∈ frame.map Prod.fst
    · rw [if_pos hname]
      exact hordered
    · rw [if_neg hname, List.pairwise_append]
      refine ⟨hordered, List.pairwise_singleton _ _, ?_⟩
      intro other hother last hlast
      rw [List.mem_singleton.1 hlast]
      -- a name that is new comes after all others
      have hnone : ∀ time q, ¬ sets time name q := by
        intro time q hset
        exact hname (Table.has_iff.1 (h.isSome_find time name q hset))
      obtain ⟨q, hq⟩ := Option.isSome_iff_exists.1 (Table.has_iff.2 hother)
      obtain ⟨time, htime, -⟩ := (h.find_iff other q).1 hq
      obtain ⟨since, hsince⟩ := exists_firstSet htime
      refine ⟨since, now, hsince.mono hpast heq, ⟨⟨pattern, hnow⟩, ?_⟩, ?_⟩
      · intro time p hset
        rcases (heq _ _ _).1 hset with hold | ⟨rfl, -, -⟩
        · exact absurd hold (hnone time p)
        · exact Nat.le_refl _
      · obtain ⟨p, hp⟩ := hsince.1
        exact hpast _ _ _ hp

end Frames

/-! ## What a history sets -/

/-- At some time of a history a name is set in the frame at a level, and since then this frame has
not been left. Levels are counted from the outermost frame, which is the first. -/
structure Sets (history : List Operation) (level time : Nat) (name : String) (pattern : NodeId) :
    Prop where
  operation : history[time]? = some (.set name pattern)
  level_eq : (after (history.take time)).depth = level
  stays : ∀ later, time ≤ later → level ≤ (after (history.take later)).depth

variable {history : List Operation} {level time : Nat} {name : String} {pattern : NodeId}

/-- A setting that counts is one of the history. -/
theorem Sets.time_lt (h : Sets history level time name pattern) : time < history.length :=
  (List.getElem?_eq_some_iff.1 h.operation).1

/-- A setting that counts is of a level that there still is. -/
theorem Sets.level_le (h : Sets history level time name pattern) :
    level ≤ (after history).depth := by
  have hend := h.stays history.length (Nat.le_of_lt h.time_lt)
  rwa [List.take_length] at hend

/-- One more operation ends what is set in a frame that it leaves, and may set one more name. -/
theorem sets_concat_iff {operation : Operation}
    (hlevel : level ≤ (after (history ++ [operation])).depth) :
    Sets (history ++ [operation]) level time name pattern ↔
      Sets history level time name pattern ∨
        time = history.length ∧ operation = .set name pattern ∧ level = (after history).depth := by
  -- a time up to the old end sees the old history, and a later one sees the whole
  have hbefore : ∀ {later}, later ≤ history.length →
      (history ++ [operation]).take later = history.take later :=
    fun h => List.take_append_of_le_length h
  have hend : ∀ {later}, history.length < later →
      (history ++ [operation]).take later = history ++ [operation] := by
    intro later h
    apply List.take_of_length_le
    rw [List.length_append, List.length_singleton]
    exact h
  constructor
  · intro h
    -- a setting of the longer history is an old one, or the new operation itself
    rcases Nat.lt_trichotomy time history.length with hlt | heq | hgt
    · refine .inl ⟨?_, ?_, ?_⟩
      · rw [← h.operation, List.getElem?_append_left hlt]
      · rw [← h.level_eq, hbefore (Nat.le_of_lt hlt)]
      · -- the old history never leaves the level either, as its end is one of the times that are
        -- seen
        intro later hlater
        rcases Nat.lt_or_ge history.length later with hpast | hle
        · have hfull := h.stays history.length (Nat.le_of_lt hlt)
          rw [hbefore (Nat.le_refl _), List.take_length] at hfull
          rwa [List.take_of_length_le (Nat.le_of_lt hpast)]
        · have hstays := h.stays later hlater
          rwa [hbefore hle] at hstays
    · have hoperation := h.operation
      have hdepth := h.level_eq
      rw [heq, List.getElem?_concat_length, Option.some.injEq] at hoperation
      rw [heq, hbefore (Nat.le_refl _), List.take_length] at hdepth
      exact .inr ⟨heq, hoperation, hdepth.symm⟩
    · have hlt := h.time_lt
      rw [List.length_append, List.length_singleton] at hlt
      omega
  · rintro (h | ⟨rfl, rfl, rfl⟩)
    · refine ⟨?_, ?_, ?_⟩
      · rw [List.getElem?_append_left h.time_lt, h.operation]
      · rw [hbefore (Nat.le_of_lt h.time_lt), h.level_eq]
      · -- the new operation does not leave the level, which is what `hlevel` says of the depth
        -- after it
        intro later hlater
        rcases Nat.lt_or_ge history.length later with hpast | hle
        · rwa [hend hpast]
        · rw [hbefore hle]
          exact h.stays later hlater
    · refine ⟨List.getElem?_concat_length, ?_, ?_⟩
      · rw [hbefore (Nat.le_refl _), List.take_length]
      · intro later hlater
        rcases Nat.lt_or_ge history.length later with hpast | hle
        · rwa [hend hpast]
        · rw [hbefore hle, Nat.le_antisymm hle hlater, List.take_length]

/-- Frames, innermost first, that record what a history sets at their levels. -/
def RecordsAll (history : List Operation) : List Frame → Prop
  | [] => True
  | frame :: outer => Records (Sets history (outer.length + 1)) frame ∧ RecordsAll history outer

/-- Frames record a history that sets the same on their levels. -/
theorem RecordsAll.congr {history' : List Operation} {frames : List Frame}
    (h : RecordsAll history frames)
    (heq : ∀ level ≤ frames.length, ∀ time name pattern,
      Sets history' level time name pattern ↔ Sets history level time name pattern) :
    RecordsAll history' frames := by
  induction frames with
  | nil => trivial
  | cons frame outer ih =>
    obtain ⟨hframe, houter⟩ := h
    refine ⟨hframe.congr (heq _ (Nat.le_refl _)), ih houter ?_⟩
    intro level hlevel
    exact heq level (Nat.le_succ_of_le hlevel)

/-- What is recorded outside of some frames does not depend on them. -/
theorem RecordsAll.of_append {inner outer : List Frame}
    (h : RecordsAll history (inner ++ outer)) : RecordsAll history outer := by
  induction inner with
  | nil => exact h
  | cons frame inner ih => exact ih h.2

/-- A push adds a frame in which nothing is set. -/
theorem RecordsAll.push (h : RecordsAll history (after history).frames) :
    RecordsAll (history ++ [.push]) (after (history ++ [.push])).frames := by
  have hdepth : (after (history ++ [.push])).depth = (after history).depth + 1 := by
    rw [after_concat]
    rfl
  have hsame : ∀ level ≤ (after history).depth + 1, ∀ time name pattern,
      Sets (history ++ [.push]) level time name pattern ↔ Sets history level time name pattern := by
    intro level hlevel time name pattern
    rw [sets_concat_iff (hdepth ▸ hlevel)]
    simp
  rw [after_concat]
  refine ⟨records_nil ?_, h.congr ?_⟩
  · intro time name pattern hset
    have hold := (hsame _ (Nat.le_refl _) time name pattern).1 hset
    exact absurd hold.level_le (Nat.not_succ_le_self _)
  · intro level hlevel
    exact hsame level (Nat.le_succ_of_le hlevel)

/-- A pop forgets the settings of the innermost level, and no others. -/
theorem RecordsAll.pop (h : RecordsAll history (after history).frames) :
    RecordsAll (history ++ [.pop]) (after (history ++ [.pop])).frames := by
  have hsuffix : (after (history ++ [.pop])).frames <:+ (after history).frames := by
    rw [after_concat]
    show (after history).pop.frames <:+ _
    obtain ⟨inner, outer⟩ := after history
    cases outer with
    | nil => exact List.suffix_rfl
    | cons next rest => exact List.suffix_cons _ _
  obtain ⟨inner, hinner⟩ := hsuffix
  rw [← hinner] at h
  refine h.of_append.congr ?_
  intro level hlevel time name pattern
  rw [sets_concat_iff hlevel]
  simp

/-- A setting goes to the innermost level and is the last one there. -/
theorem RecordsAll.set (h : RecordsAll history (after history).frames) (name : String)
    (pattern : NodeId) :
    RecordsAll (history ++ [.set name pattern])
      (after (history ++ [.set name pattern])).frames := by
  -- a setting does not change how many levels there are
  have hdepth : (after (history ++ [.set name pattern])).depth = (after history).depth := by
    rw [after_concat]
    rfl
  have hset : ∀ level ≤ (after history).depth, ∀ time other q,
      Sets (history ++ [.set name pattern]) level time other q ↔
        Sets history level time other q ∨ time = history.length ∧
          (name = other ∧ pattern = q) ∧ level = (after history).depth := by
    intro level hlevel time other q
    rw [sets_concat_iff (hdepth ▸ hlevel), Operation.set.injEq]
  obtain ⟨hinner, houter⟩ := h
  rw [after_concat]
  -- the inner level has one more setting and the outer ones have those they had
  refine ⟨hinner.put (fun time other q h => h.time_lt) ?_, houter.congr ?_⟩
  · intro time other q
    refine (hset ((after history).outer.length + 1) (Nat.le_refl _) time other q).trans ?_
    constructor
    · rintro (hold | ⟨htime, ⟨rfl, rfl⟩, -⟩)
      · exact .inl hold
      · exact .inr ⟨htime, rfl, rfl⟩
    · rintro (hold | ⟨htime, rfl, rfl⟩)
      · exact .inl hold
      · exact .inr ⟨htime, ⟨rfl, rfl⟩, rfl⟩
  · intro level hlevel time other q
    rw [hset level (Nat.le_succ_of_le hlevel)]
    constructor
    · rintro (hold | ⟨-, -, rfl⟩)
      · exact hold
      · exact absurd hlevel (Nat.not_succ_le_self _)
    · exact .inl

/-- The frames of a stack record what its history sets. -/
theorem recordsAll_after (history : List Operation) :
    RecordsAll history (after history).frames := by
  induction history using List.reverseRecOn with
  | nil =>
    refine ⟨records_nil ?_, trivial⟩
    intro time name pattern h
    exact absurd h.time_lt (Nat.not_lt_zero _)
  | append_singleton history operation ih =>
    cases operation with
    | push => exact ih.push
    | pop => exact ih.pop
    | set name pattern => exact ih.set name pattern

end ScopeStack

end TreeLang
