import TreeLang.Proofs.Scope.History

/-!
# Shadowing

What is visible after a history is, of each name, the binding in the innermost frame in which the
name has been set. Flattening lists these bindings from the outermost frame inward, and those of one
frame in the order in which they were first set there. Whatever is done between a push and the pop
that belongs to it is not seen afterward.
-/

namespace TreeLang

namespace Table

variable {κ α : Type} [DecidableEq κ] {table visible : Table κ α}

/-- Dropping a key from a table with distinct keys takes out its only entry. -/
theorem Distinct.drop_eq (distinct : table.Distinct) (key : κ) :
    drop key table = table.filter fun entry => entry.1 ≠ key := by
  induction table with
  | nil => rfl
  | cons entry rest ih =>
    obtain ⟨k, a⟩ := entry
    obtain ⟨hnew, hrest⟩ := List.nodup_cons.1 distinct
    rw [drop]
    by_cases hk : k = key
    · subst hk
      have hothers : ∀ entry ∈ rest, decide (entry.1 ≠ k) = true := by
        intro entry hentry
        rw [decide_eq_true_iff]
        intro heq
        have hmem : entry.1 ∈ rest.map Prod.fst := List.mem_map_of_mem hentry
        rw [heq] at hmem
        exact hnew hmem
      rw [if_pos rfl, List.filter_cons_of_neg (by simp), List.filter_eq_self.2 hothers]
    · rw [if_neg hk, List.filter_cons_of_pos (by simpa using hk), ih hrest]

/-- What is laid over a table comes last, and hides what has the same keys. -/
theorem Distinct.overlay_eq (distinct : table.Distinct) (hvisible : visible.Distinct) :
    table.overlay visible = (visible.filter fun entry => !table.has entry.1) ++ table := by
  induction table generalizing visible with
  | nil =>
    have hall : ∀ entry ∈ visible, (!Table.has entry.1 ([] : Table κ α)) = true := fun _ _ => rfl
    rw [List.filter_eq_self.2 hall, List.append_nil]
    rfl
  | cons entry rest ih =>
    obtain ⟨k, a⟩ := entry
    obtain ⟨hnew, hrest⟩ := List.nodup_cons.1 distinct
    have hk : Table.has k rest = false := by
      rw [← Bool.not_eq_true, has_iff]
      exact hnew
    show Table.overlay rest (Table.putLast k a visible) = _
    rw [ih hrest (hvisible.putLast k a), Table.putLast, hvisible.drop_eq, List.filter_append,
      List.filter_filter, List.filter_cons_of_pos (by simp [hk]), List.filter_nil,
      List.append_assoc, List.singleton_append]
    congr 2
    funext entry
    by_cases heq : entry.1 = k
    · simp [has, find, heq]
    · simp [has, find, heq, Ne.symm heq]

end Table

namespace ScopeStack

/-! ## Visible bindings -/

variable {history : List Operation} {frames : List Frame} {depth level since time : Nat}
  {name : String} {pattern : NodeId}

/-- The binding of a name that is visible after a history. It is in the frame at some level, the
innermost one in which the name has been set. In this frame the name was first set at some time, and
last to the pattern. -/
structure Visible (history : List Operation) (name : String) (pattern : NodeId)
    (level since : Nat) : Prop where
  innermost : ∀ other time q, Sets history other time name q → other ≤ level
  first : FirstSet (Sets history level) name since
  last : LastSet (Sets history level) name pattern

/-- The binding of a name that is visible in the outermost frames, up to some level. -/
structure VisibleUpTo (history : List Operation) (depth : Nat) (name : String) (pattern : NodeId)
    (level since : Nat) : Prop where
  level_le : level ≤ depth
  innermost : ∀ other ≤ depth, ∀ time q, Sets history other time name q → other ≤ level
  first : FirstSet (Sets history level) name since
  last : LastSet (Sets history level) name pattern

/-- The levels of frames are counted from one. -/
theorem Sets.level_pos (h : Sets history level time name pattern) : 0 < level :=
  h.level_eq ▸ depth_pos _

/-- In all frames, what is visible up to the innermost one is visible. -/
theorem VisibleUpTo.visible
    (h : VisibleUpTo history (after history).depth name pattern level since) :
    Visible history name pattern level since where
  innermost other time q hset := h.innermost other hset.level_le time q hset
  first := h.first
  last := h.last

/-- What is visible is visible in all frames up to the innermost one. -/
theorem Visible.upTo (h : Visible history name pattern level since) :
    VisibleUpTo history (after history).depth name pattern level since where
  level_le := by
    obtain ⟨⟨q, hset⟩, -⟩ := h.first
    exact hset.level_le
  innermost other _ time q hset := h.innermost other time q hset
  first := h.first
  last := h.last

/-- A name that is not set in one more frame is visible there as it is outside. -/
theorem visibleUpTo_succ_iff (hnone : ∀ time q, ¬ Sets history (depth + 1) time name q) :
    VisibleUpTo history (depth + 1) name pattern level since ↔
      VisibleUpTo history depth name pattern level since := by
  constructor
  · intro h
    refine ⟨?_, ?_, h.first, h.last⟩
    · obtain ⟨⟨q, hset⟩, -⟩ := h.first
      have hne : level ≠ depth + 1 := by
        rintro rfl
        exact hnone since q hset
      have hle := h.level_le
      omega
    · intro other hother
      exact h.innermost other (Nat.le_succ_of_le hother)
  · intro h
    refine ⟨Nat.le_succ_of_le h.level_le, ?_, h.first, h.last⟩
    intro other hother time q hset
    have hne : other ≠ depth + 1 := by
      rintro rfl
      exact hnone time q hset
    exact h.innermost other (by omega) time q hset

/-- A name that is in the innermost of some frames is visible there. -/
theorem Records.visibleUpTo {frame : Frame} (h : Records (Sets history depth) frame)
    (hfind : frame.find name = some pattern) (hfirst : FirstSet (Sets history depth) name since) :
    VisibleUpTo history depth name pattern depth since :=
  ⟨Nat.le_refl _, fun _ hother _ _ _ => hother, hfirst, (h.find_iff name pattern).1 hfind⟩

/-- Lookups in some frames find what is visible in them. -/
theorem findSome?_eq_some_iff (h : RecordsAll history frames) :
    (frames.findSome? fun frame => frame.find name) = some pattern ↔
      ∃ level since, VisibleUpTo history frames.length name pattern level since := by
  induction frames with
  | nil =>
    constructor
    · nofun
    · rintro ⟨level, since, hvisible⟩
      obtain ⟨⟨q, hset⟩, -⟩ := hvisible.first
      exact absurd hvisible.level_le (Nat.not_le.2 hset.level_pos)
  | cons frame outer ih =>
    obtain ⟨hframe, houter⟩ := h
    rw [List.length_cons]
    cases hfind : frame.find name with
    | none =>
      rw [List.findSome?_cons_of_isNone (by rw [hfind]; rfl)]
      have hnone : ∀ time q, ¬ Sets history (outer.length + 1) time name q := by
        intro time q hset
        have hsome := hframe.isSome_find time name q hset
        rw [hfind] at hsome
        cases hsome
      simp only [visibleUpTo_succ_iff hnone]
      exact ih houter
    | some found =>
      rw [List.findSome?_cons_of_isSome (by rw [hfind]; rfl)]
      obtain ⟨time, hset, -⟩ := (hframe.find_iff name found).1 hfind
      constructor
      · intro heq
        obtain ⟨since, hsince⟩ := exists_firstSet hset
        exact ⟨_, since, hframe.visibleUpTo heq hsince⟩
      · rintro ⟨level, since, hvisible⟩
        -- the name is set in this frame, so it is visible nowhere else
        have hlevel : level = outer.length + 1 :=
          Nat.le_antisymm hvisible.level_le
            (hvisible.innermost _ (Nat.le_refl _) time found hset)
        rw [hframe.find_iff]
        exact hlevel ▸ hvisible.last

/-! ## The order of visible bindings -/

/-- One binding comes before another one: it is in a frame further out, or in the same frame and has
been set there first. -/
def Precedes (history : List Operation) (depth : Nat) (a b : String × NodeId) : Prop :=
  ∃ l s m t, VisibleUpTo history depth a.1 a.2 l s ∧ VisibleUpTo history depth b.1 b.2 m t ∧
    (l < m ∨ l = m ∧ s < t)

/-- Laying recorded frames over each other lists what is visible from the outside inward. -/
theorem pairwise_foldr_overlay (h : RecordsAll history frames)
    (distinct : ∀ frame ∈ frames, Table.Distinct frame) :
    (frames.foldr Table.overlay []).Pairwise (Precedes history frames.length) := by
  -- by induction on the frames, from the innermost one out
  induction frames with
  | nil => exact .nil
  | cons frame outer ih =>
    obtain ⟨hframe, houter⟩ := h
    obtain ⟨hdistinct, hrest⟩ := List.forall_mem_cons.1 distinct
    obtain ⟨hvisible, hfound⟩ := foldr_overlay hrest
    -- what is in the frame is found there, and what is not is visible as it was without it
    have hfind : ∀ {entry}, entry ∈ frame → frame.find entry.1 = some entry.2 :=
      fun hentry => Table.find_eq_some_of_mem hdistinct hentry
    have hkept : ∀ {a : String × NodeId} {level since}, frame.has a.1 = false →
        VisibleUpTo history outer.length a.1 a.2 level since →
        VisibleUpTo history (outer.length + 1) a.1 a.2 level since := by
      intro a level since hnew hupto
      refine (visibleUpTo_succ_iff ?_).2 hupto
      intro time q hset
      have hsome := hframe.isSome_find time a.1 q hset
      rw [Table.has, hsome] at hnew
      cases hnew
    -- the overlay is what remains of the outer frames, in the old order, followed by the frame
    -- itself
    rw [List.foldr_cons, hdistinct.overlay_eq hvisible, List.length_cons, List.pairwise_append]
    refine ⟨?_, ?_, ?_⟩
    · refine ((ih houter hrest).filter _).imp_of_mem ?_
      rintro a b ha hb ⟨l, s, m, t, hl, hm, hbefore⟩
      have hnew : ∀ {entry : String × NodeId},
          entry ∈ (outer.foldr Table.overlay []).filter (fun entry => !frame.has entry.1) →
            frame.has entry.1 = false := by
        intro entry hentry
        simpa using (List.mem_filter.1 hentry).2
      exact ⟨l, s, m, t, hkept (hnew ha) hl, hkept (hnew hb) hm, hbefore⟩
    · refine (List.pairwise_map.1 hframe.ordered).imp_of_mem ?_
      rintro a b ha hb ⟨s, t, hs, ht, hlt⟩
      exact ⟨_, s, _, t, hframe.visibleUpTo (hfind ha) hs, hframe.visibleUpTo (hfind hb) ht,
        .inr ⟨rfl, hlt⟩⟩
    · -- an entry from outside precedes one of the frame, which is a level further in
      intro a ha b hb
      obtain ⟨ha, hnew⟩ := List.mem_filter.1 ha
      have hnew : frame.has a.1 = false := by simpa using hnew
      have hlookup : (outer.findSome? fun frame => frame.find a.1) = some a.2 :=
        hfound a.1 ▸ Table.find_eq_some_of_mem hvisible ha
      obtain ⟨l, s, hl⟩ := (findSome?_eq_some_iff houter).1 hlookup
      obtain ⟨time, hset, -⟩ := (hframe.find_iff b.1 b.2).1 (hfind hb)
      obtain ⟨t, ht⟩ := exists_firstSet hset
      exact ⟨l, s, _, t, hkept hnew hl, hframe.visibleUpTo (hfind hb) ht,
        .inl (Nat.lt_succ_of_le hl.level_le)⟩

/-! ## Frames that are left again -/

/-- Operations in which every push is followed by the pop that belongs to it, and every pop belongs
to a push. -/
inductive Bracketed : List Operation → Prop
  | nil : Bracketed []
  | set (name : String) (pattern : NodeId) {rest : List Operation} (h : Bracketed rest) :
    Bracketed (.set name pattern :: rest)
  | frame {inner rest : List Operation} (hinner : Bracketed inner) (hrest : Bracketed rest) :
    Bracketed (.push :: (inner ++ .pop :: rest))

/-- Such operations change the innermost frame at most. -/
theorem Bracketed.outer_performAll {operations : List Operation} (h : Bracketed operations)
    (stack : ScopeStack) : (stack.performAll operations).outer = stack.outer := by
  induction h generalizing stack with
  | nil => rfl
  | set name pattern h ih => exact ih (stack.set name pattern)
  | @frame inner rest hinner hrest ih ih' =>
    have hreturn : (stack.push.performAll inner).pop = stack := by
      have houter : (stack.push.performAll inner).outer = stack.frames := ih stack.push
      rw [pop, pop?, houter]
      rfl
    show ((stack.push.performAll (inner ++ .pop :: rest))).outer = _
    rw [performAll, List.foldl_append, List.foldl_cons]
    show ((stack.push.performAll inner).pop.performAll rest).outer = _
    rw [hreturn, ih']

/-- A pop takes back all that was done since its push. -/
theorem Bracketed.performAll_frame {inner : List Operation} (h : Bracketed inner)
    (stack : ScopeStack) : stack.performAll (.push :: (inner ++ [.pop])) = stack := by
  have houter : (stack.push.performAll inner).outer = stack.frames := h.outer_performAll _
  show stack.push.performAll (inner ++ [.pop]) = stack
  rw [performAll, List.foldl_append, ← performAll]
  show (stack.push.performAll inner).pop = stack
  rw [pop, pop?, houter]
  rfl

/-! ## Stacks that a history makes -/

/-- A lookup finds the visible binding of its name. -/
theorem get?_after_iff (history : List Operation) (name : String) (pattern : NodeId) :
    (after history).get? name = some pattern ↔
      ∃ level since, Visible history name pattern level since := by
  rw [get?, findSome?_eq_some_iff (recordsAll_after history)]
  constructor
  · rintro ⟨level, since, h⟩
    exact ⟨level, since, VisibleUpTo.visible h⟩
  · rintro ⟨level, since, h⟩
    exact ⟨level, since, h.upTo⟩

/-- **A scope stack implements shadowing.** Whatever history has made it, there is a frame. A lookup
finds the binding in the innermost frame in which the name has been set, and flattening lists these
bindings, each name once: from the outermost frame inward, and in each frame from the name that was
set first on. Bracketed operations between a push and its pop leave no trace. -/
theorem after_shadows (history : List Operation) :
    1 ≤ (after history).depth ∧
    (∀ name pattern, (after history).get? name = some pattern ↔
      ∃ level since, Visible history name pattern level since) ∧
    ((after history).flattened.map Prod.fst).Nodup ∧
    (∀ name pattern,
      (name, pattern) ∈ (after history).flattened ↔ (after history).get? name = some pattern) ∧
    (after history).flattened.Pairwise (fun a b => ∃ l s m t,
      Visible history a.1 a.2 l s ∧ Visible history b.1 b.2 m t ∧ (l < m ∨ l = m ∧ s < t)) ∧
    ∀ inner, Bracketed inner →
      (∀ name, (after (history ++ .push :: (inner ++ [.pop]))).get? name =
        (after history).get? name) ∧
      (after (history ++ .push :: (inner ++ [.pop]))).flattened = (after history).flattened := by
  have hdistinct := distinct_after history
  refine ⟨depth_pos _, get?_after_iff history, ?_, ?_, ?_, ?_⟩
  · rw [flattened_eq]
    exact (foldr_overlay hdistinct).1
  · intro name pattern
    exact mem_flattened_iff hdistinct
  · rw [flattened_eq]
    -- a name is visible from all frames as it is from the history
    refine (pairwise_foldr_overlay (recordsAll_after history) hdistinct).imp ?_
    rintro a b ⟨l, s, m, t, hl, hm, hbefore⟩
    exact ⟨l, s, m, t, VisibleUpTo.visible hl, VisibleUpTo.visible hm, hbefore⟩
  · intro inner hinner
    -- brackets return to the stack they started from, so that all that is asked of it is as before
    have hreturn : after (history ++ .push :: (inner ++ [.pop])) = after history := by
      rw [after_append]
      exact hinner.performAll_frame _
    rw [hreturn]
    exact ⟨fun name => rfl, rfl⟩

/-- The names `a` and `b`, then `a` again and `c` in an inner frame: `a` is listed with the inner
frame, in front of `c` which was set there later. Hiding `b` in one more frame is not seen after
it. -/
theorem after_shadows_inner :
    (after [.set "a" (.ofNat 1), .set "b" (.ofNat 2), .push, .set "a" (.ofNat 3),
        .set "c" (.ofNat 4), .set "a" (.ofNat 5)]).flattened =
      [("b", .ofNat 2), ("a", .ofNat 5), ("c", .ofNat 4)] ∧
    Bracketed [.set "b" (.ofNat 6), .push, .set "d" (.ofNat 7), .pop, .set "a" (.ofNat 8)] ∧
    (after ([.set "a" (.ofNat 1), .set "b" (.ofNat 2), .push, .set "a" (.ofNat 3),
        .set "c" (.ofNat 4), .set "a" (.ofNat 5)] ++ .push :: ([.set "b" (.ofNat 6), .push,
          .set "d" (.ofNat 7), .pop, .set "a" (.ofNat 8)] ++ [.pop]))).flattened =
      [("b", .ofNat 2), ("a", .ofNat 5), ("c", .ofNat 4)] := by
  have hflattened : (after [.set "a" (.ofNat 1), .set "b" (.ofNat 2), .push, .set "a" (.ofNat 3),
      .set "c" (.ofNat 4), .set "a" (.ofNat 5)]).flattened =
        [("b", .ofNat 2), ("a", .ofNat 5), ("c", .ofNat 4)] := by decide
  have hinner : Bracketed
      [.set "b" (.ofNat 6), .push, .set "d" (.ofNat 7), .pop, .set "a" (.ofNat 8)] :=
    .set _ _ (.frame (.set _ _ .nil) (.set _ _ .nil))
  obtain ⟨-, -, -, -, -, hreturn⟩ := after_shadows [.set "a" (.ofNat 1), .set "b" (.ofNat 2), .push,
    .set "a" (.ofNat 3), .set "c" (.ofNat 4), .set "a" (.ofNat 5)]
  exact ⟨hflattened, hinner, (hreturn _ hinner).2.trans hflattened⟩

end ScopeStack

end TreeLang
