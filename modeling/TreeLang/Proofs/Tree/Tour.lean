import Mathlib.Order.Defs.Unbundled
import TreeLang.Proofs.Tree.Outline
import TreeLang.Tree.Walk

/-!
# Walks that nothing stops

A visitor that stops no walk sees every node with the same control. Its walk is a tour: a recursion
over the outline that threads nothing but the state.
-/

namespace TreeLang

/-- The visitor never changes whether the walk stops. -/
def Visitor.NeverStops (visit : Visitor σ) : Prop :=
  ∀ node control state, (visit node control state).1.stop = control.stop

namespace Outline

mutual

/-- Visits a node, its children unless they are left out, and the node again if it asked for
that. -/
def tour (visit : Visitor σ) : Outline → σ → σ
  | .node item children, state =>
    let (asked, state) := visit item {} state
    let state := if asked.ignoreChildren then state else tourAll visit children state
    if asked.needsRevisit then (visit item { isRevisit := true } state).2 else state

/-- Tours several outlines, one after the other. -/
def tourAll (visit : Visitor σ) : List Outline → σ → σ
  | [], state => state
  | outline :: rest, state => tourAll visit rest (outline.tour visit state)

end

variable {visit : Visitor σ}

/-- Several outlines are toured one after the other. -/
theorem tourAll_append (first second : List Outline) (state : σ) :
    tourAll visit (first ++ second) state = tourAll visit second (tourAll visit first state) := by
  induction first generalizing state with
  | nil => rfl
  | cons outline rest ih => exact ih (outline.tour visit state)

/-- Outlines that a tour does nothing in. -/
theorem tourAll_eq_self {outlines : List Outline}
    (h : ∀ c ∈ outlines, ∀ state, c.tour visit state = state) (state : σ) :
    tourAll visit outlines state = state := by
  induction outlines with
  | nil => rfl
  | cons outline rest ih =>
    obtain ⟨hfirst, hrest⟩ := List.forall_mem_cons.1 h
    rw [tourAll, hfirst, ih hrest]

/-- A walk over several outlines is a tour of them when the walk over each of them is one. -/
theorem walkPreAll_eq_tourAll {outlines : List Outline}
    (h : ∀ c ∈ outlines, ∀ control state, control.stop = false →
      (c.walkPre visit control state).1.stop = false ∧
        (c.walkPre visit control state).2 = c.tour visit state)
    {control : Control} (hcontrol : control.stop = false) (state : σ) :
    (walkPreAll visit outlines control state).1.stop = false ∧
      (walkPreAll visit outlines control state).2 = tourAll visit outlines state := by
  induction outlines generalizing control state with
  | nil => exact ⟨hcontrol, rfl⟩
  | cons outline rest ih =>
    obtain ⟨hfirst, hrest⟩ := List.forall_mem_cons.1 h
    obtain ⟨hstop, hstate⟩ := hfirst control state hcontrol
    simp only [walkPreAll, tourAll]
    rw [if_neg (by simp [hstop]), ← hstate]
    exact ih hrest hstop _

/-- A walk that is not stopped is a tour. -/
theorem walkPre_eq_tour (hvisit : visit.NeverStops) (outline : Outline) {control : Control}
    (hcontrol : control.stop = false) (state : σ) :
    (outline.walkPre visit control state).1.stop = false ∧
      (outline.walkPre visit control state).2 = outline.tour visit state := by
  induction outline generalizing control state with
  | node item children ih =>
    have hasked : (visit item {} state).1.stop = false := hvisit item {} state
    obtain ⟨hstop, hstate⟩ := walkPreAll_eq_tourAll
      (fun c hc control state hcontrol => ih c hc hcontrol state) hasked (visit item {} state).2
    rw [walkPre, tour, Control.cleared, hcontrol]
    generalize visit item {} state = first at hasked hstop hstate ⊢
    obtain ⟨asked, next⟩ := first
    replace hasked : asked.stop = false := hasked
    -- the second visit, from the control and the state once the children are done
    have hsecond : ∀ (control : Control) (state : σ), control.stop = false →
        (visit item control.revisiting state).1.stop = false ∧
          (visit item control.revisiting state).2 = (visit item { isRevisit := true } state).2 := by
      intro control state hcontrol
      rw [Control.revisiting, hcontrol]
      exact ⟨hvisit item _ state, rfl⟩
    by_cases hignore : asked.ignoreChildren <;> by_cases hrevisit : asked.needsRevisit
    · simpa [hasked, hignore, hrevisit] using hsecond asked next hasked
    · simp [hasked, hignore, hrevisit]
    · simpa [hasked, hignore, hrevisit, hstop, hstate] using
        hsecond (walkPreAll visit children asked next).1 (walkPreAll visit children asked next).2
          hstop
    · simp [hasked, hignore, hrevisit, hstop, hstate]

/-! ## What a tour keeps up -/

section Keeps

variable {R : σ → σ → Prop} [IsPreorder σ R]

/-- What each tour keeps up is kept up by several of them. -/
theorem tourAll_keeps {outlines : List Outline} (h : ∀ c ∈ outlines, ∀ s, R s (c.tour visit s))
    (s : σ) : R s (tourAll visit outlines s) := by
  induction outlines generalizing s with
  | nil => exact refl_of R s
  | cons outline rest ih =>
    obtain ⟨hfirst, hrest⟩ := List.forall_mem_cons.1 h
    exact trans_of R (hfirst s) (ih hrest _)

/-- A relation that each visit keeps up holds between the start and the end of a tour. -/
theorem tour_keeps {outline : Outline}
    (h : ∀ node ∈ outline.preorder, ∀ control s, R s (visit node control s).2) (s : σ) :
    R s (outline.tour visit s) := by
  induction outline generalizing s with
  | node item children ih =>
    have hitem := h item (mem_preorder_node.2 (.inl rfl))
    have hbelow : ∀ s, R s (tourAll visit children s) := tourAll_keeps fun c hc =>
      ih c hc fun node hnode => h node (mem_preorder_node.2 (.inr ⟨c, hc, hnode⟩))
    have hbetween : R s (if (visit item {} s).1.ignoreChildren then (visit item {} s).2
        else tourAll visit children (visit item {} s).2) := by
      split
      · exact hitem {} s
      · exact trans_of R (hitem {} s) (hbelow _)
    simp only [tour]
    split
    · exact trans_of R hbetween (hitem _ _)
    · exact hbetween

end Keeps

/-! ## Tours side by side -/

section Relates

variable {τ : Type} {visit' : Visitor τ} {R : σ → τ → Prop}

/-- Tours side by side keep a relation that each of them keeps. -/
theorem tourAll_relates {outlines : List Outline}
    (h : ∀ c ∈ outlines, ∀ s t, R s t → R (c.tour visit s) (c.tour visit' t)) {s : σ} {t : τ}
    (hst : R s t) : R (tourAll visit outlines s) (tourAll visit' outlines t) := by
  induction outlines generalizing s t with
  | nil => exact hst
  | cons outline rest ih =>
    obtain ⟨hfirst, hrest⟩ := List.forall_mem_cons.1 h
    exact ih hrest (hfirst s t hst)

/-- Two visitors that ask for the same at each node, and that keep two states related, keep them
related over a tour. -/
theorem tour_relates {outline : Outline}
    (h : ∀ node ∈ outline.preorder, ∀ control s t, R s t →
      (visit' node control t).1 = (visit node control s).1 ∧
        R (visit node control s).2 (visit' node control t).2) {s : σ} {t : τ}
    (hst : R s t) : R (outline.tour visit s) (outline.tour visit' t) := by
  induction outline generalizing s t with
  | node item children ih =>
    have hitem := h item (mem_preorder_node.2 (.inl rfl))
    have hbelow : ∀ {s t}, R s t → R (tourAll visit children s) (tourAll visit' children t) :=
      fun hst => tourAll_relates (fun c hc s t hst => ih c hc (fun node hnode =>
        h node (mem_preorder_node.2 (.inr ⟨c, hc, hnode⟩))) hst) hst
    obtain ⟨hasked, hfirst⟩ := hitem {} s t hst
    have hbetween : R
        (if (visit item {} s).1.ignoreChildren then (visit item {} s).2
          else tourAll visit children (visit item {} s).2)
        (if (visit item {} s).1.ignoreChildren then (visit' item {} t).2
          else tourAll visit' children (visit' item {} t).2) := by
      split
      · exact hfirst
      · exact hbelow hfirst
    simp only [tour, hasked]
    split
    · exact (hitem _ _ _ hbetween).2
    · exact hbetween

end Relates

end Outline

/-- A walk over a program that is not stopped is a tour. -/
theorem Program.walk_eq_tour {visit : Visitor σ} (hvisit : visit.NeverStops) (program : Program)
    (state : σ) : program.walk visit state = program.outline.tour visit state :=
  (program.outline.walkPre_eq_tour hvisit rfl state).2

end TreeLang
