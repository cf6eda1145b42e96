import TreeLang.Proofs.Tree.Tour

/-!
# Walks up to a target

A walk that stops at a target and a tour of the outline in which a subtree stands at the target go
through the same states up to that node. From there on, only the tour goes on: over the subtree, and
then over what follows the target.
-/

namespace TreeLang

/-- A visitor that marks the state and stops at the first visit of a target. -/
structure Visitor.StopsAt (target : NodeId) (mark : σ → σ) (visit stopping : Visitor σ) : Prop where
  /-- What it does at the target. -/
  there : ∀ node control s, node.id = target → control.isRevisit = false →
    stopping node control s = ({ control with stop := true }, mark s)
  /-- What it does at other nodes. -/
  elsewhere : ∀ node, node.id ≠ target → stopping node = visit node

namespace Outline

/-- The second outline is the first one with a subtree in the place of the target; a visitor does
not tell the nodes above it from those that it knows. -/
inductive Placed (visit : Visitor σ) (target : NodeId) (new : Outline) : Outline → Outline → Prop
  | here {outline : Outline} (h : outline.item.id = target) : Placed visit target new outline new
  | node {item item' : Node} {children children' : List Outline} (hne : item.id ≠ target)
    (alike : visit item = visit item')
    (below : List.Forall₂ (Placed visit target new) children children') :
    Placed visit target new (.node item children) (.node item' children')

/-- How a walk that stops at a target ends, next to the state after the tour with a subtree in its
place: it has missed the target, or it has marked a state from which the tour went into the
subtree. -/
inductive Ends (mark : σ → σ) (R : σ → σ → Prop) (visit : Visitor σ) (target : NodeId)
    (new : Outline) (ids : List NodeId) (s : σ) : Control × σ → σ → Prop
  | missed {control : Control} {after : σ} (going : control.stop = false) (kept : R s after) :
    Ends mark R visit target new ids s (control, after) after
  | reached {control : Control} {hit after : σ} (stopped : control.stop = true)
    (found : target ∈ ids) (before : R s hit) (kept : R (new.tour visit hit) after) :
    Ends mark R visit target new ids s (control, mark hit) after

variable {visit stopping : Visitor σ} {target : NodeId} {mark : σ → σ} {new : Outline}

mutual

/-- Without the target, the tours of both outlines are the same. -/
theorem Placed.tour_eq : (outline : Outline) → {replaced : Outline} →
    Placed visit target new outline replaced → target ∉ outline.ids → (s : σ) →
      replaced.tour visit s = outline.tour visit s
  | .node _ _, _, .here h, absent, _ => by
    rw [ids_node] at absent
    exact absurd (h ▸ List.mem_cons_self) absent
  | .node _ children, _, .node _ alike below, absent, s => by
    rw [ids_node, List.mem_cons, not_or] at absent
    simp only [tour, ← alike, Placed.tourAll_eq children below absent.2]

/-- Where the target does not occur nothing is replaced, so the tours are the same. -/
theorem Placed.tourAll_eq : (outlines : List Outline) → {replaced : List Outline} →
    List.Forall₂ (Placed visit target new) outlines replaced →
      target ∉ outlines.flatMap ids → (s : σ) →
        tourAll visit replaced s = tourAll visit outlines s
  | [], _, .nil, _, _ => rfl
  | outline :: rest, _, .cons placed others, absent, s => by
    rw [List.flatMap_cons, List.mem_append, not_or] at absent
    rw [tourAll, tourAll, Placed.tour_eq outline placed absent.1,
      Placed.tourAll_eq rest others absent.2]

end

section Stopping

variable {R : σ → σ → Prop} [IsPreorder σ R]

/-- A walk that ends as is said from a later state does so from an earlier one, with more ids. -/
theorem Ends.since {ids ids' : List NodeId} {s next : σ} {left : Control × σ} {after : σ}
    (h : Ends mark R visit target new ids next left after) (before : R s next) (hids : ids ⊆ ids') :
    Ends mark R visit target new ids' s left after := by
  cases h with
  | missed going kept => exact .missed going (trans_of R before kept)
  | reached stopped found hit kept =>
    exact .reached stopped (hids found) (trans_of R before hit) kept

/-- The second visit of a node, when the walk has come through its children. -/
theorem Ends.revisited {item : Node} {ids : List NodeId} {asked control : Control} {s after : σ}
    (goes : visit.NeverStops) (hitem : ∀ control s, R s (visit item control s).2)
    (going : control.stop = false) (kept : R s after) :
    Ends mark R visit target new ids s
      (if asked.needsRevisit then
        ({ (visit item control.revisiting after).1 with isRevisit := false },
          (visit item control.revisiting after).2)
      else (control, after))
      (if asked.needsRevisit then (visit item { isRevisit := true } after).2 else after) := by
  split
  · rw [Control.revisiting, going]
    exact .missed (goes item _ after) (trans_of R kept (hitem _ after))
  · exact .missed going kept

mutual

/-- A walk that stops at a target keeps in step with the tour that goes on. -/
theorem Placed.walkPre_ends (stops : Visitor.StopsAt target mark visit stopping)
    (goes : visit.NeverStops) : (outline : Outline) → {replaced : Outline} →
    Placed visit target new outline replaced → outline.ids.Nodup →
      (∀ node ∈ outline.preorder, ∀ control s, R s (visit node control s).2) →
        {control : Control} → control.stop = false → (s : σ) →
          Ends mark R visit target new outline.ids s (outline.walkPre stopping control s)
            (replaced.tour visit s)
  | .node item children, _, .here h, _, _, control, _, s => by
    -- the target is here: the walk stops, and everything so far is common to both
    have hstop := stops.there item control.cleared s h rfl
    rw [walkPre, hstop]
    exact .reached rfl (h ▸ ids_node ▸ List.mem_cons_self) (refl_of R s) (refl_of R _)
  | .node item children, .node item' children', .node hne alike below, distinct, keeps,
      control, hcontrol, s => by
    -- the node stays, so that both walks start with the same first visit and go on to the children
    have hitem := keeps item (mem_preorder_node.2 (.inl rfl))
    have hasked : (visit item {} s).1.stop = false := goes item {} s
    have hfirst : R s (visit item {} s).2 := hitem {} s
    rw [ids_node] at distinct
    have hchildren := (Placed.walkPreAll_ends stops goes children below
      (List.nodup_cons.1 distinct).2
      (fun c hc node hnode => keeps node (mem_preorder_node.2 (.inr ⟨c, hc, hnode⟩)))
      hasked (visit item {} s).2).since hfirst (List.subset_cons_self item.id _)
    have hcleared : control.cleared = {} := by rw [Control.cleared, hcontrol]
    -- past the first visit, what is left depends on what it asks for
    rw [walkPre, tour, hcleared, stops.elsewhere item hne, ← alike, ids_node]
    generalize visit item {} s = first at hasked hfirst hchildren ⊢
    obtain ⟨asked, next⟩ := first
    replace hasked : asked.stop = false := hasked
    simp only [hasked, Bool.false_eq_true, if_false]
    by_cases hignore : asked.ignoreChildren
    · simp only [hignore, if_true, hasked, Bool.false_eq_true, if_false]
      exact .revisited goes hitem hasked hfirst
    · simp only [hignore, Bool.false_eq_true, if_false]
      generalize walkPreAll stopping children asked next = left at hchildren
      generalize tourAll visit children' next = between at hchildren
      cases hchildren with
      -- the target is not below, and the second visit follows in both
      | missed going kept =>
        simp only [going, Bool.false_eq_true, if_false]
        exact .revisited goes hitem going kept
      -- the target is below, and the second visit is made only by the tour that goes on
      | reached stopped found before kept =>
        simp only [stopped, if_true]
        refine .reached stopped found before ?_
        split
        · exact trans_of R kept (hitem _ between)
        · exact kept

/-- A walk over several outlines ends at the target as is said, in the outline that has it. -/
theorem Placed.walkPreAll_ends (stops : Visitor.StopsAt target mark visit stopping)
    (goes : visit.NeverStops) : (outlines : List Outline) → {replaced : List Outline} →
    List.Forall₂ (Placed visit target new) outlines replaced → (outlines.flatMap ids).Nodup →
      (∀ c ∈ outlines, ∀ node ∈ c.preorder, ∀ control s, R s (visit node control s).2) →
        {control : Control} → control.stop = false → (s : σ) →
          Ends mark R visit target new (outlines.flatMap ids) s
            (walkPreAll stopping outlines control s) (tourAll visit replaced s)
  | [], _, .nil, _, _, _, hcontrol, s => .missed hcontrol (refl_of R s)
  | outline :: rest, replaced :: others, .cons hfirst hrest, distinct, keeps, control, hcontrol,
      s => by
    obtain ⟨hkeeps, hkeepsRest⟩ := List.forall_mem_cons.1 keeps
    obtain ⟨hids, hidsRest, hapart⟩ := List.nodup_append.1 distinct
    -- the first outline is walked up to the target, or to its end
    have hends := Placed.walkPre_ends stops goes outline hfirst hids hkeeps hcontrol s
    rw [walkPreAll, tourAll]
    generalize outline.walkPre stopping control s = left at hends
    generalize replaced.tour visit s = after at hends
    cases hends with
    | missed going kept =>
      simp only [going, Bool.false_eq_true, if_false]
      exact (Placed.walkPreAll_ends stops goes rest hrest hidsRest hkeepsRest going after).since
        kept (List.subset_append_right outline.ids _)
    | reached stopped found before kept =>
      -- ids come once, so that the rest does not hold the target and stays as it was
      have habsent : target ∉ rest.flatMap ids := fun h => hapart target found target h rfl
      have hafter : R after (tourAll visit rest after) :=
        tourAll_keeps (fun c hc => tour_keeps (hkeepsRest c hc)) after
      simp only [stopped, if_true]
      rw [Placed.tourAll_eq rest hrest habsent]
      exact .reached stopped (List.mem_append_left _ found) before (trans_of R kept hafter)

end

end Stopping

end Outline

end TreeLang
