import TreeLang.Proofs.Tree.Replacing
import TreeLang.Proofs.Tree.Visits

/-!
# Walks cut short

A walk that stops at a target makes the calls of the walk that goes on, up to the first call at the
target. There it marks the state and returns: nothing that was left for later is done, no second
visit of a node around the target either.
-/

namespace TreeLang

variable {visit stopping : Visitor σ} {target : NodeId} {mark : σ → σ}

/-- The first ones of threaded calls are threaded. -/
theorem Call.Threaded.of_append {first second : List (Call σ)} {s : σ}
    (h : Threaded visit (first ++ second) s) : Threaded visit first s := by
  induction first generalizing s with
  | nil => exact trivial
  | cons call rest ih => exact ⟨h.1, ih h.2⟩

/-- A threaded call has the state that the calls before it leave. -/
theorem Call.Threaded.state_eq_after {before rest : List (Call σ)} {call : Call σ} {s : σ}
    (h : Threaded visit (before ++ call :: rest) s) : call.state = after visit before s := by
  induction before generalizing s with
  | nil => exact h.1
  | cons first before ih => exact ih h.2

/-- How a walk that stops at a target ends, next to the calls planned for the walk that goes on: it
has made all of them and none was at the target, or it has marked the state of the first that
was. -/
inductive Halts (mark : σ → σ) (target : NodeId) (visit : Visitor σ) (calls : List (Call σ))
    (s : σ) : Control × σ → Prop
  | missed {control : Control} (going : control.stop = false)
    (absent : ∀ call ∈ calls, call.node.id ≠ target) :
    Halts mark target visit calls s (control, Call.after visit calls s)
  | reached {control : Control} {before rest : List (Call σ)} {call : Call σ}
    (stopped : control.stop = true) (split : calls = before ++ call :: rest)
    (earlier : ∀ c ∈ before, c.node.id ≠ target) (there : call.node.id = target)
    (first : call.again = false) : Halts mark target visit calls s (control, mark call.state)

namespace Halts

variable {calls more : List (Call σ)} {s : σ} {left next : Control × σ}

/-- A walk that has halted leaves the rest of the calls out. -/
theorem append_of_stop (h : Halts mark target visit calls s left) (hstop : left.1.stop = true) :
    Halts mark target visit (calls ++ more) s left := by
  cases h with
  | missed going => exact absurd (going.symm.trans hstop) Bool.false_ne_true
  | reached stopped split earlier there first =>
    exact .reached stopped (by rw [split, List.append_assoc, List.cons_append]) earlier there first

/-- A walk that has missed the target goes on with the next calls. -/
theorem append (h : Halts mark target visit calls s left) (hstop : left.1.stop = false)
    (hnext : Halts mark target visit more left.2 next) :
    Halts mark target visit (calls ++ more) s next := by
  cases h with
  | reached stopped => exact absurd (hstop.symm.trans stopped) Bool.false_ne_true
  | missed going absent =>
    cases hnext with
    | missed going' absent' =>
      rw [← Call.after_append]
      exact .missed going' (List.forall_mem_append.2 ⟨absent, absent'⟩)
    | reached stopped split earlier there first =>
      exact .reached stopped (by rw [split, List.append_assoc])
        (List.forall_mem_append.2 ⟨absent, earlier⟩) there first

/-- A walk without calls. -/
theorem nil {control : Control} (going : control.stop = false) :
    Halts mark target visit [] s (control, s) := .missed going nofun

/-- One call at another node. -/
theorem single (call : Call σ) {control : Control} (hne : call.node.id ≠ target)
    (going : control.stop = false) :
    Halts mark target visit [call] s (control, (call.answer visit).2) :=
  .missed going (List.forall_mem_singleton.2 hne)

end Halts

namespace Outline

/-- Walks that halt one by one halt together. -/
theorem halts_walkPreAll {outlines : List Outline}
    (h : ∀ c ∈ outlines, ∀ control s, control.stop = false →
      Halts mark target visit (c.callsPre visit s) s (c.walkPre stopping control s))
    {control : Control} (hcontrol : control.stop = false) (s : σ) :
    Halts mark target visit (callsPreAll visit outlines s) s
      (walkPreAll stopping outlines control s) := by
  induction outlines generalizing control s with
  | nil => exact .nil hcontrol
  | cons outline rest ih =>
    obtain ⟨hfirst, hrest⟩ := List.forall_mem_cons.1 h
    have hhalts := hfirst control s hcontrol
    simp only [walkPreAll, callsPreAll]
    generalize outline.walkPre stopping control s = left at hhalts ⊢
    cases hstop : left.1.stop with
    | true => exact hhalts.append_of_stop hstop
    | false =>
      rw [if_neg Bool.false_ne_true]
      refine hhalts.append hstop ?_
      cases hhalts with
      | missed => exact ih hrest hstop _
      | reached stopped => exact absurd (hstop.symm.trans stopped) Bool.false_ne_true

/-- A walk that stops at a target is the walk that goes on, cut short there. -/
theorem halts_walkPre (stops : Visitor.StopsAt target mark visit stopping)
    (goes : visit.NeverStops) (outline : Outline) {control : Control}
    (hcontrol : control.stop = false) (s : σ) :
    Halts mark target visit (outline.callsPre visit s) s (outline.walkPre stopping control s) := by
  induction outline generalizing control s with
  | node item children ih =>
    have hcleared : control.cleared = {} := by rw [Control.cleared, hcontrol]
    rw [callsPre_node, walkPre, hcleared]
    by_cases hitem : item.id = target
    · rw [stops.there item {} s hitem rfl]
      exact .reached rfl (List.nil_append _).symm nofun hitem rfl
    · rw [stops.elsewhere item hitem]
      have hasked : (visit item {} s).1.stop = false := goes item {} s
      have hfirst : Halts mark target visit [⟨item, false, s⟩] s (visit item {} s) :=
        .single ⟨item, false, s⟩ hitem hasked
      have hbelow : Halts mark target visit (callsBelow visit item children s)
          (visit item {} s).2
          (if (visit item {} s).1.ignoreChildren then visit item {} s
            else walkPreAll stopping children (visit item {} s).1 (visit item {} s).2) := by
        rw [callsBelow]
        split
        · exact .nil hasked
        · exact halts_walkPreAll (fun c hc _ s hcontrol => ih c hc hcontrol s) hasked _
      simp only [hasked, Bool.false_eq_true, if_false]
      refine hfirst.append hasked ?_
      generalize (if (visit item {} s).1.ignoreChildren then visit item {} s
        else walkPreAll stopping children (visit item {} s).1 (visit item {} s).2) = done
        at hbelow ⊢
      cases hdone : done.1.stop with
      | true => simpa [hdone] using hbelow.append_of_stop hdone
      | false =>
        simp only [Bool.false_eq_true, if_false]
        refine hbelow.append hdone ?_
        -- the second visit finds the state that the calls for the children leave
        cases hbelow with
        | reached stopped => exact absurd (hdone.symm.trans stopped) Bool.false_ne_true
        | missed going absent =>
          split
          · rw [Control.revisiting, going]
            exact .single _ hitem (goes item _ _)
          · exact .nil going

end Outline

end TreeLang
