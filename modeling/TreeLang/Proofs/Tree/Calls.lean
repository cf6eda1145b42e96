import TreeLang.Proofs.Tree.Outline
import TreeLang.Tree.Walk

/-!
# The calls of a walk

A walk is known by the calls that it makes: which nodes it hands to the visitor, in which state, and
what the visitor is told. The planned calls are those of a recursion over the outline that heeds no
stop. A walk in either order makes the planned calls up to the first that stops it.
-/

namespace TreeLang

/-- A call of a visitor: the node, whether it is seen again, and the state. -/
structure Call (σ : Type) where
  node : Node
  again : Bool
  state : σ

namespace Call

/-- What the visitor is given: of its control, only the flag of a second visit can be set. -/
def seen (call : Call σ) : Node × Control × σ :=
  (call.node, { isRevisit := call.again }, call.state)

/-- What the visitor returns. -/
def answer (visit : Visitor σ) (call : Call σ) : Control × σ :=
  visit call.node { isRevisit := call.again } call.state

/-- Whether the visitor stops the walk. -/
def stops (visit : Visitor σ) (call : Call σ) : Bool := (call.answer visit).1.stop

/-- The state after some calls. -/
def after (visit : Visitor σ) (calls : List (Call σ)) (state : σ) : σ :=
  calls.foldl (fun _ call => (call.answer visit).2) state

/-- The calls up to the first that stops the walk. -/
def upToStop (visit : Visitor σ) : List (Call σ) → List (Call σ)
  | [] => []
  | call :: rest => call :: if call.stops visit then [] else upToStop visit rest

end Call

/-- The visitor that also lists what it is given, the latest call last. -/
def Visitor.logged (visit : Visitor σ) : Visitor (σ × List (Node × Control × σ)) :=
  fun node control (state, log) =>
    let (control', state') := visit node control state
    (control', state', log ++ [(node, control, state)])

/-- The visitor does not touch the flag of a second visit, which belongs to the walk. -/
def Visitor.KeepsRevisit (visit : Visitor σ) : Prop :=
  ∀ node control state, (visit node control state).1.isRevisit = control.isRevisit

namespace Outline

mutual

/-- The calls planned for a walk that visits nodes before their children: the node; the calls for
each child in order, unless the visitor leaves them out; and the node again if the visitor asked for
that. -/
def callsPre (visit : Visitor σ) : Outline → σ → List (Call σ)
  | .node item children, state =>
    let (asked, next) := visit item {} state
    let below := if asked.ignoreChildren then [] else callsPreAll visit children next
    ⟨item, false, state⟩ :: (below ++
      if asked.needsRevisit then [⟨item, true, Call.after visit below next⟩] else [])

/-- The calls planned for several outlines, one outline after the other. -/
def callsPreAll (visit : Visitor σ) : List Outline → σ → List (Call σ)
  | [], _ => []
  | outline :: rest, state =>
    let calls := outline.callsPre visit state
    calls ++ callsPreAll visit rest (Call.after visit calls state)

end

/-- One first visit of each node of a list. -/
def callsAlong (visit : Visitor σ) : List Node → σ → List (Call σ)
  | [], _ => []
  | item :: rest, state => ⟨item, false, state⟩ :: callsAlong visit rest (visit item {} state).2

/-- The calls planned for a walk that visits nodes after their children: each node once, in
post-order, whatever the visitor asks for. -/
def callsPost (visit : Visitor σ) (outline : Outline) (state : σ) : List (Call σ) :=
  callsAlong visit outline.postorder state

end Outline

/-! ## Stopping -/

namespace Call

variable {visit : Visitor σ} {calls : List (Call σ)}

/-- Calls are answered one after the other. -/
theorem after_append (first second : List (Call σ)) (state : σ) :
    after visit (first ++ second) state = after visit second (after visit first state) :=
  List.foldl_append

/-- Calls that do not stop are all made. -/
theorem upToStop_of_all (h : ∀ call ∈ calls, call.stops visit = false) :
    upToStop visit calls = calls := by
  induction calls with
  | nil => rfl
  | cons call rest ih =>
    obtain ⟨hcall, hrest⟩ := List.forall_mem_cons.1 h
    rw [upToStop, hcall, if_neg Bool.false_ne_true, ih hrest]

/-- Calls after a stop are not made. -/
theorem upToStop_append (first second : List (Call σ)) :
    upToStop visit (first ++ second) =
      if first.any (stops visit) then upToStop visit first
      else first ++ upToStop visit second := by
  induction first with
  | nil => rfl
  | cons call rest ih =>
    rw [List.cons_append, upToStop, upToStop, ih, List.any_cons]
    cases call.stops visit <;> cases rest.any (stops visit) <;> rfl

end Call

/-! ## Runs -/

/-- A walk of the logging visitor: from a state and a log it makes planned calls up to the first
that stops it, adds them to the log, and ends in the state after them. -/
structure Run (visit : Visitor σ) (plan : List (Call σ)) (state : σ)
    (log : List (Node × Control × σ)) (result : Control × σ × List (Node × Control × σ)) :
    Prop where
  stop_eq : result.1.stop = plan.any (Call.stops visit)
  state_eq : result.2.1 = Call.after visit (Call.upToStop visit plan) state
  log_eq : result.2.2 = log ++ (Call.upToStop visit plan).map Call.seen

namespace Run

variable {visit : Visitor σ} {first second : List (Call σ)} {state : σ}
  {log : List (Node × Control × σ)} {result next : Control × σ × List (Node × Control × σ)}

/-- A run that is stopped leaves the rest of the plan undone. -/
theorem append_of_stop (h : Run visit first state log result) (hstop : result.1.stop = true) :
    Run visit (first ++ second) state log result := by
  have hany : first.any (Call.stops visit) = true := h.stop_eq ▸ hstop
  refine ⟨by rw [hstop, List.any_append, hany, Bool.true_or], ?_, ?_⟩
  · rw [h.state_eq, Call.upToStop_append, if_pos hany]
  · rw [h.log_eq, Call.upToStop_append, if_pos hany]

/-- The plan of a run that is not stopped is done. -/
theorem upToStop_eq (h : Run visit first state log result) (hstop : result.1.stop = false) :
    Call.upToStop visit first = first := by
  refine Call.upToStop_of_all fun call hcall => ?_
  have hany : first.any (Call.stops visit) = false := h.stop_eq ▸ hstop
  simpa using List.any_eq_false.1 hany call hcall

/-- A run that is not stopped ends in the state after its plan. -/
theorem state_eq_after (h : Run visit first state log result) (hstop : result.1.stop = false) :
    result.2.1 = Call.after visit first state := by
  rw [h.state_eq, h.upToStop_eq hstop]

/-- A run that is not stopped goes on with the next plan. -/
theorem append (h : Run visit first state log result) (hstop : result.1.stop = false)
    (hnext : Run visit second result.2.1 result.2.2 next) :
    Run visit (first ++ second) state log next := by
  have hany : first.any (Call.stops visit) = false := h.stop_eq ▸ hstop
  refine ⟨by rw [hnext.stop_eq, List.any_append, hany, Bool.false_or], ?_, ?_⟩
  · rw [hnext.state_eq, h.state_eq_after hstop, Call.upToStop_append, hany,
      if_neg Bool.false_ne_true, Call.after_append]
  · rw [hnext.log_eq, h.log_eq, h.upToStop_eq hstop, Call.upToStop_append, hany,
      if_neg Bool.false_ne_true, List.map_append, List.append_assoc]

/-- A run without calls. -/
theorem nil {control : Control} (hcontrol : control.stop = false) :
    Run visit [] state log (control, state, log) :=
  ⟨hcontrol, rfl, (List.append_nil log).symm⟩

/-- A run of one call. -/
theorem single (call : Call σ) {control : Control}
    (hcontrol : control = { isRevisit := call.again }) (log : List (Node × Control × σ)) :
    Run visit [call] call.state log (visit.logged call.node control (call.state, log)) := by
  subst hcontrol
  refine ⟨?_, ?_, ?_⟩
  · simp [Visitor.logged, Call.stops, Call.answer]
  · cases hstop : call.stops visit <;> simp [Call.upToStop, hstop, Call.after, Visitor.logged,
      Call.answer]
  · cases hstop : call.stops visit <;> simp [Call.upToStop, hstop, Visitor.logged, Call.seen]

/-- The control that a run returns matters only for whether it is stopped. -/
theorem withControl (h : Run visit first state log result) {control : Control}
    (hcontrol : control.stop = result.1.stop) :
    Run visit first state log (control, result.2) :=
  ⟨hcontrol.trans h.stop_eq, h.state_eq, h.log_eq⟩

end Run

namespace Outline

variable {visit : Visitor σ}

/-- The calls along some nodes are made with the states that the earlier ones leave. -/
theorem callsAlong_append (first second : List Node) (state : σ) :
    callsAlong visit (first ++ second) state =
      callsAlong visit first state ++
        callsAlong visit second (Call.after visit (callsAlong visit first state) state) := by
  induction first generalizing state with
  | nil => rfl
  | cons item rest ih =>
    rw [List.cons_append, callsAlong, callsAlong, ih]
    rfl

/-- The calls along some nodes are first visits of these, in their order. -/
theorem map_callsAlong (nodes : List Node) (state : σ) :
    (callsAlong visit nodes state).map (fun call => (call.node, call.again)) =
      nodes.map (·, false) := by
  induction nodes generalizing state with
  | nil => rfl
  | cons item rest ih => rw [callsAlong, List.map_cons, List.map_cons, ih]

/-- Walks that follow their plans one by one follow the plans together. -/
theorem run_walkPreAll {outlines : List Outline}
    (h : ∀ c ∈ outlines, ∀ control state log, control.stop = false →
      Run visit (c.callsPre visit state) state log (c.walkPre visit.logged control (state, log)))
    {control : Control} (hcontrol : control.stop = false) (state : σ)
    (log : List (Node × Control × σ)) :
    Run visit (callsPreAll visit outlines state) state log
      (walkPreAll visit.logged outlines control (state, log)) := by
  induction outlines generalizing control state log with
  | nil => exact .nil hcontrol
  | cons outline rest ih =>
    obtain ⟨hfirst, hrest⟩ := List.forall_mem_cons.1 h
    have hrun := hfirst control state log hcontrol
    simp only [walkPreAll, callsPreAll]
    generalize outline.walkPre visit.logged control (state, log) = result at hrun ⊢
    cases hstop : result.1.stop with
    | true => exact hrun.append_of_stop hstop
    | false =>
      rw [if_neg Bool.false_ne_true, ← hrun.state_eq_after hstop]
      exact hrun.append hstop (ih hrest hstop _ _)

/-- A walk that visits nodes before their children follows its plan. -/
theorem run_walkPre (outline : Outline) {control : Control} (hcontrol : control.stop = false)
    (state : σ) (log : List (Node × Control × σ)) :
    Run visit (outline.callsPre visit state) state log
      (outline.walkPre visit.logged control (state, log)) := by
  induction outline generalizing control state log with
  | node item children ih =>
    have hfirst : Run visit [⟨item, false, state⟩] state log
        (visit.logged item {} (state, log)) := .single ⟨item, false, state⟩ rfl log
    have hchildren : ∀ c ∈ children, ∀ control state log, control.stop = false →
        Run visit (c.callsPre visit state) state log
          (c.walkPre visit.logged control (state, log)) :=
      fun c hc control state log hcontrol => ih c hc hcontrol state log
    -- the plan is made from what the visitor returns, which the logging visitor returns as well
    have hplan : (node item children).callsPre visit state =
        let first := visit.logged item {} (state, log)
        let below := if first.1.ignoreChildren then [] else callsPreAll visit children first.2.1
        [⟨item, false, state⟩] ++ (below ++
          if first.1.needsRevisit then [⟨item, true, Call.after visit below first.2.1⟩] else []) :=
      rfl
    rw [walkPre, Control.cleared, hcontrol, hplan]
    generalize visit.logged item {} (state, log) = first at hfirst ⊢
    cases hstop : first.1.stop with
    | true => simpa [hstop] using hfirst.append_of_stop hstop
    | false =>
      have hbelow : Run visit
          (if first.1.ignoreChildren then [] else callsPreAll visit children first.2.1)
          first.2.1 first.2.2
          (if first.1.ignoreChildren then first
            else walkPreAll visit.logged children first.1 first.2) := by
        split
        · exact .nil hstop
        · exact run_walkPreAll hchildren hstop first.2.1 first.2.2
      simp only [hstop, if_neg Bool.false_ne_true]
      generalize (if first.1.ignoreChildren then first
        else walkPreAll visit.logged children first.1 first.2) = done at hbelow ⊢
      generalize (if first.1.ignoreChildren then [] else callsPreAll visit children first.2.1) =
        below at hbelow ⊢
      refine hfirst.append hstop ?_
      cases hdone : done.1.stop with
      | true => simpa [hdone] using hbelow.append_of_stop hdone
      | false =>
        simp only [if_neg Bool.false_ne_true, ← hbelow.state_eq_after hdone]
        refine hbelow.append hdone ?_
        split
        · have hagain : Run visit [⟨item, true, done.2.1⟩] done.2.1 done.2.2
              (visit.logged item done.1.revisiting done.2) :=
            .single ⟨item, true, done.2.1⟩ (by rw [Control.revisiting, hdone]) done.2.2
          exact hagain.withControl rfl
        · exact .nil hdone

/-- Walks that follow their plans one by one follow the plans together. -/
theorem run_walkPostAll {outlines : List Outline}
    (h : ∀ c ∈ outlines, ∀ control state log, control.stop = false →
      Run visit (c.callsPost visit state) state log
        (c.walkPost visit.logged control (state, log)))
    {control : Control} (hcontrol : control.stop = false) (state : σ)
    (log : List (Node × Control × σ)) :
    Run visit (callsAlong visit (postorders outlines) state) state log
      (walkPostAll visit.logged outlines control (state, log)) := by
  induction outlines generalizing control state log with
  | nil => exact .nil hcontrol
  | cons outline rest ih =>
    obtain ⟨hfirst, hrest⟩ := List.forall_mem_cons.1 h
    have hrun := hfirst control state log hcontrol
    simp only [walkPostAll, postorders, callsAlong_append]
    generalize outline.walkPost visit.logged control (state, log) = result at hrun ⊢
    cases hstop : result.1.stop with
    | true => exact hrun.append_of_stop hstop
    | false =>
      rw [if_neg Bool.false_ne_true, ← callsPost, ← hrun.state_eq_after hstop]
      exact hrun.append hstop (ih hrest hstop _ _)

/-- A walk that visits nodes after their children follows its plan. -/
theorem run_walkPost (outline : Outline) {control : Control} (hcontrol : control.stop = false)
    (state : σ) (log : List (Node × Control × σ)) :
    Run visit (outline.callsPost visit state) state log
      (outline.walkPost visit.logged control (state, log)) := by
  induction outline generalizing control state log with
  | node item children ih =>
    have hchildren := run_walkPostAll
      (fun c hc control state log hcontrol => ih c hc hcontrol state log) hcontrol state log
    simp only [walkPost, callsPost, postorder, callsAlong_append]
    generalize walkPostAll visit.logged children control (state, log) = result at hchildren ⊢
    cases hstop : result.1.stop with
    | true => exact hchildren.append_of_stop hstop
    | false =>
      rw [if_neg Bool.false_ne_true, ← hchildren.state_eq_after hstop]
      exact hchildren.append hstop
        (.single ⟨item, false, result.2.1⟩ (by rw [Control.cleared, hstop]) result.2.2)

end Outline

/-! ## Views of the state -/

/-- A visitor with a finer state is, seen through a view of that state, the visitor. -/
def Visitor.Views (finer : Visitor τ) (view : τ → σ) (visit : Visitor σ) : Prop :=
  ∀ item control state, visit item control (view state) =
    ((finer item control state).1, view (finer item control state).2)

/-- A visitor that keeps a log answers as the visitor does. -/
theorem Visitor.logged_views (visit : Visitor σ) : visit.logged.Views Prod.fst visit :=
  fun _ _ _ => rfl

namespace Outline

variable {visit : Visitor σ} {finer : Visitor τ} {view : τ → σ}

mutual

/-- The walk of a visitor with a finer state is seen as the walk of the visitor. -/
theorem walkPre_view (h : finer.Views view visit) : (outline : Outline) →
    (control : Control) → (state : τ) → outline.walkPre visit control (view state) =
      ((outline.walkPre finer control state).1, view (outline.walkPre finer control state).2)
  | .node item children, control, state => by
    have hchildren := walkPreAll_view h children
    have hitem := h item
    simp only [walkPre, hitem, hchildren]
    grind

/-- Walks over several outlines see the same with a finer state. -/
theorem walkPreAll_view (h : finer.Views view visit) : (outlines : List Outline) →
    (control : Control) → (state : τ) → walkPreAll visit outlines control (view state) =
      ((walkPreAll finer outlines control state).1,
        view (walkPreAll finer outlines control state).2)
  | [], _, _ => rfl
  | outline :: rest, control, state => by
    simp only [walkPreAll, walkPre_view h outline, walkPreAll_view h rest]
    split <;> rfl

end

mutual

/-- A walk from below sees the same with a finer state. -/
theorem walkPost_view (h : finer.Views view visit) : (outline : Outline) →
    (control : Control) → (state : τ) → outline.walkPost visit control (view state) =
      ((outline.walkPost finer control state).1, view (outline.walkPost finer control state).2)
  | .node item children, control, state => by
    simp only [walkPost, h item, walkPostAll_view h children]
    split <;> rfl

theorem walkPostAll_view (h : finer.Views view visit) : (outlines : List Outline) →
    (control : Control) → (state : τ) → walkPostAll visit outlines control (view state) =
      ((walkPostAll finer outlines control state).1,
        view (walkPostAll finer outlines control state).2)
  | [], _, _ => rfl
  | outline :: rest, control, state => by
    simp only [walkPostAll, walkPost_view h outline, walkPostAll_view h rest]
    split <;> rfl

end

/-! ## The flag of a second visit -/

mutual

/-- The flag of a second visit is down when a walk returns. -/
theorem isRevisit_walkPre (h : visit.KeepsRevisit) : (outline : Outline) → (control : Control) →
    (state : σ) → (outline.walkPre visit control state).1.isRevisit = false
  | .node item children, control, state => by
    have hfirst := h item control.cleared state
    have hchildren := isRevisit_walkPreAll h children
      (visit item control.cleared state).1 (visit item control.cleared state).2 hfirst
    simp only [walkPre]
    grind [Control.cleared]

/-- A walk over several outlines does not end within a second visit. -/
theorem isRevisit_walkPreAll (h : visit.KeepsRevisit) : (outlines : List Outline) →
    (control : Control) → (state : σ) → control.isRevisit = false →
      (walkPreAll visit outlines control state).1.isRevisit = false
  | [], _, _, hcontrol => hcontrol
  | outline :: rest, control, state, _ => by
    have houtline := isRevisit_walkPre h outline control state
    have hrest := isRevisit_walkPreAll h rest (outline.walkPre visit control state).1
      (outline.walkPre visit control state).2 houtline
    simp only [walkPreAll]
    split
    · exact houtline
    · exact hrest

end

mutual

/-- A walk from below does not end within a second visit. -/
theorem isRevisit_walkPost (h : visit.KeepsRevisit) : (outline : Outline) →
    (control : Control) → (state : σ) → control.stop = false →
      (outline.walkPost visit control state).1.isRevisit = false
  | .node item children, control, state, hcontrol => by
    have hchildren := isRevisit_walkPostAll h children control state hcontrol
    simp only [walkPost]
    split
    · exact hchildren ‹_›
    · exact h item _ _

/-- Where several walks are stopped, one of them has returned. -/
theorem isRevisit_walkPostAll (h : visit.KeepsRevisit) : (outlines : List Outline) →
    (control : Control) → (state : σ) → control.stop = false →
      (walkPostAll visit outlines control state).1.stop = true →
        (walkPostAll visit outlines control state).1.isRevisit = false
  | [], _, _, hcontrol, hstop => absurd hstop (by rw [walkPostAll, hcontrol]; exact nofun)
  | outline :: rest, control, state, hcontrol, hstop => by
    have houtline := isRevisit_walkPost h outline control state hcontrol
    have hrest := isRevisit_walkPostAll h rest (outline.walkPost visit control state).1
      (outline.walkPost visit control state).2
    simp only [walkPostAll] at hstop ⊢
    split at hstop <;> rename_i hdone
    · rwa [if_pos hdone]
    · rw [if_neg hdone]
      exact hrest (by simpa using hdone) hstop

end

end Outline

/-! ## The contract of a walk -/

/-- What is seen of a walk of a visitor for which some calls are planned: its result, and the result
of the walk that logs. -/
structure Obeys (visit : Visitor σ) (plan : List (Call σ)) (result : Control × σ)
    (logged : Control × σ × List (Node × Control × σ)) : Prop where
  /-- The log changes nothing. -/
  logged_eq : (logged.1, logged.2.1) = result
  /-- The calls made are the planned ones up to the first that stops the walk, or all of them when
  none does. The walk returns what the last of them returned. -/
  made : ∃ before call rest, plan = before ++ call :: rest ∧
    (∀ c ∈ before, (c.answer visit).1.stop = false) ∧
    ((call.answer visit).1.stop = true ∨ rest = []) ∧
    logged.2.2 = (before ++ [call]).map Call.seen ∧
    result.1.stop = (call.answer visit).1.stop ∧ result.2 = (call.answer visit).2
  /-- On every call nothing is asked for yet. -/
  asked_eq : ∀ item control state, (item, control, state) ∈ logged.2.2 →
    control.stop = false ∧ control.ignoreChildren = false ∧ control.needsRevisit = false
  /-- A flag that only the walk raises is down in the end. -/
  isRevisit_eq : visit.KeepsRevisit → result.1.isRevisit = false

/-- Planned calls are made up to the first one that stops, or all of them. -/
theorem Call.exists_upToStop (visit : Visitor σ) {plan : List (Call σ)} (h : plan ≠ []) :
    ∃ before call rest, plan = before ++ call :: rest ∧
      (∀ c ∈ before, c.stops visit = false) ∧ (call.stops visit = true ∨ rest = []) ∧
      Call.upToStop visit plan = before ++ [call] := by
  induction plan with
  | nil => exact absurd rfl h
  | cons first rest ih =>
    cases hfirst : first.stops visit with
    | true => exact ⟨[], first, rest, rfl, nofun, .inl hfirst, by simp [upToStop, hfirst]⟩
    | false =>
      cases rest with
      | nil => exact ⟨[], first, [], rfl, nofun, .inr rfl, by simp [upToStop]⟩
      | cons second rest =>
        obtain ⟨before, call, rest', hplan, hbefore, hcall, hmade⟩ := ih (List.cons_ne_nil _ _)
        refine ⟨first :: before, call, rest', by rw [hplan, List.cons_append],
          List.forall_mem_cons.2 ⟨hfirst, hbefore⟩, hcall, ?_⟩
        rw [upToStop, hfirst, if_neg Bool.false_ne_true, hmade, List.cons_append]

/-- A run of planned calls obeys the contract of a walk. -/
theorem Run.obeys {visit : Visitor σ} {plan : List (Call σ)} {state : σ}
    {result : Control × σ} {logged : Control × σ × List (Node × Control × σ)}
    (h : Run visit plan state [] logged) (hplan : plan ≠ [])
    (hresult : result = (logged.1, logged.2.1))
    (hrevisit : visit.KeepsRevisit → result.1.isRevisit = false) :
    Obeys visit plan result logged := by
  -- the plan is cut after the first call that asks to stop, or else after its last one
  obtain ⟨before, call, rest, hsplit, hbefore, hcall, hmade⟩ :=
    Call.exists_upToStop visit hplan
  have hlog : logged.2.2 = (before ++ [call]).map Call.seen := by
    rw [h.log_eq, hmade, List.nil_append]
  have hstate : logged.2.1 = (call.answer visit).2 := by
    rw [h.state_eq, hmade, Call.after_append]
    rfl
  -- nothing before that call stops, so that the walk ends as this call does
  have hstop : logged.1.stop = (call.answer visit).1.stop := by
    rw [h.stop_eq, hsplit, List.any_append, List.any_cons,
      List.any_eq_false.2 (by simpa using hbefore)]
    rcases hcall with hcall | rfl
    · rw [Bool.false_or, hcall, Bool.true_or]
      exact hcall.symm
    · simp [Call.stops]
  refine ⟨hresult.symm, ⟨before, call, rest, hsplit, hbefore, hcall, hlog, ?_, ?_⟩, ?_, hrevisit⟩
  · rw [hresult, hstop]
  · rw [hresult, hstate]
  · intro item control state hmem
    rw [hlog] at hmem
    obtain ⟨made, -, hseen⟩ := List.mem_map.1 hmem
    cases hseen
    exact ⟨rfl, rfl, rfl⟩

/-- A walk calls the visitor at least once, at the root. -/
theorem Outline.callsPre_ne_nil (visit : Visitor σ) (outline : Outline) (state : σ) :
    outline.callsPre visit state ≠ [] := by
  cases outline
  exact List.cons_ne_nil _ _

/-- A walk from below calls the visitor at least once. -/
theorem Outline.callsPost_ne_nil (visit : Visitor σ) (outline : Outline) (state : σ) :
    outline.callsPost visit state ≠ [] := by
  cases outline
  rw [callsPost, postorder, callsAlong_append]
  exact List.append_ne_nil_of_right_ne_nil _ (List.cons_ne_nil _ _)

/-- A walk in either order makes the planned calls up to the first that stops it, whatever a former
walk left in the control. In post-order these are one first visit of each node, after the nodes
below it. -/
theorem Outline.walk_obeys (visit : Visitor σ) (outline : Outline) (control : Control) (state : σ) :
    let started := { control with stop := false }
    Obeys visit (outline.callsPre visit state) (outline.walkPre visit started state)
        (outline.walkPre visit.logged started (state, [])) ∧
      Obeys visit (outline.callsPost visit state) (outline.walkPost visit started state)
        (outline.walkPost visit.logged started (state, [])) ∧
      (outline.callsPost visit state).map (fun call => (call.node, call.again)) =
        outline.postorder.map (·, false) := by
  refine ⟨(outline.run_walkPre rfl state []).obeys (outline.callsPre_ne_nil visit state)
      (outline.walkPre_view visit.logged_views _ (state, []))
      fun h => outline.isRevisit_walkPre h _ _,
    (outline.run_walkPost rfl state []).obeys (outline.callsPost_ne_nil visit state)
      (outline.walkPost_view visit.logged_views _ (state, []))
      fun h => outline.isRevisit_walkPost h _ _ rfl,
    map_callsAlong outline.postorder state⟩

end TreeLang
