import Mathlib.Data.List.Pairwise
import TreeLang.Proofs.Tree.Calls
import TreeLang.Proofs.Tree.Tour

/-!
# The states that visits find

The state of each call of a walk is what the call before it has left behind. Whatever visits only
let grow has therefore grown from one call to any later one.
-/

namespace TreeLang

variable {visit : Visitor σ}

namespace Call

/-- Each call finds the state that the call before it has left, and the first call a given one. -/
def Threaded (visit : Visitor σ) : List (Call σ) → σ → Prop
  | [], _ => True
  | call :: rest, state => call.state = state ∧ Threaded visit rest (call.answer visit).2

variable {calls first second : List (Call σ)} {state : σ}

/-- Threaded calls one after the other are threaded. -/
theorem Threaded.append (hfirst : Threaded visit first state)
    (hsecond : Threaded visit second (after visit first state)) :
    Threaded visit (first ++ second) state := by
  induction first generalizing state with
  | nil => exact hsecond
  | cons call rest ih => exact ⟨hfirst.1, ih hfirst.2 hsecond⟩

/-- The later ones of threaded calls are threaded. -/
theorem Threaded.of_append_right (h : Threaded visit (first ++ second) state) :
    Threaded visit second (after visit first state) := by
  induction first generalizing state with
  | nil => exact h
  | cons call rest ih => exact ih h.2

/-- The first call finds the state that the calls start from. -/
theorem Threaded.state_eq {s s' : σ} (h : Threaded visit calls s) (h' : Threaded visit calls s')
    (hcalls : calls ≠ []) : s = s' := by
  cases calls with
  | nil => exact absurd rfl hcalls
  | cons call rest => exact h.1.symm.trans h'.1

/-- A relation that every visit keeps up holds from each call to the later ones. -/
theorem Threaded.pairwise {R : σ → σ → Prop} (hrefl : ∀ s, R s s)
    (htrans : ∀ {s t u}, R s t → R t u → R s u)
    (hvisit : ∀ node control s, R s (visit node control s).2) (h : Threaded visit calls state) :
    (∀ call ∈ calls, R state call.state) ∧
      calls.Pairwise fun earlier later => R (earlier.answer visit).2 later.state := by
  induction calls generalizing state with
  | nil => exact ⟨nofun, .nil⟩
  | cons call rest ih =>
    obtain ⟨rfl, hrest⟩ := h
    obtain ⟨hlater, hpairwise⟩ := ih hrest
    refine ⟨List.forall_mem_cons.2 ⟨hrefl _, fun later hmem => ?_⟩, .cons hlater hpairwise⟩
    exact htrans (hvisit _ _ _) (hlater later hmem)

end Call

namespace Outline

/-- The calls of several outlines leave the state that a tour of them leaves, and follow each other,
when the calls of each of them do. -/
theorem threaded_callsPreAll {outlines : List Outline}
    (h : ∀ c ∈ outlines, ∀ state, Call.Threaded visit (c.callsPre visit state) state ∧
      Call.after visit (c.callsPre visit state) state = c.tour visit state) (state : σ) :
    Call.Threaded visit (callsPreAll visit outlines state) state ∧
      Call.after visit (callsPreAll visit outlines state) state = tourAll visit outlines state := by
  induction outlines generalizing state with
  | nil => exact ⟨trivial, rfl⟩
  | cons c rest ih =>
    obtain ⟨hc, hrest⟩ := List.forall_mem_cons.1 h
    obtain ⟨hthreaded, hafter⟩ := hc state
    obtain ⟨hthreaded', hafter'⟩ := ih hrest (c.tour visit state)
    rw [callsPreAll, tourAll, Call.after_append, hafter]
    exact ⟨hthreaded.append (hafter ▸ hthreaded'), hafter'⟩

/-- The calls for the children of a node. -/
def callsBelow (visit : Visitor σ) (item : Node) (children : List Outline) (state : σ) :
    List (Call σ) :=
  if (visit item {} state).1.ignoreChildren then []
  else callsPreAll visit children (visit item {} state).2

/-- A walk calls the visitor for the root, then below it, and for the root again when this was asked
for. -/
theorem callsPre_node (item : Node) (children : List Outline) (state : σ) :
    (node item children).callsPre visit state =
      ⟨item, false, state⟩ :: (callsBelow visit item children state ++
        if (visit item {} state).1.needsRevisit then
          [⟨item, true, Call.after visit (callsBelow visit item children state)
            (visit item {} state).2⟩]
        else []) := rfl

/-- The calls for the children leave the state that a tour of the children leaves, if there is
one. -/
theorem threaded_callsBelow (item : Node) {children : List Outline}
    (h : ∀ c ∈ children, ∀ state, Call.Threaded visit (c.callsPre visit state) state ∧
      Call.after visit (c.callsPre visit state) state = c.tour visit state) (state : σ) :
    Call.Threaded visit (callsBelow visit item children state) (visit item {} state).2 ∧
      Call.after visit (callsBelow visit item children state) (visit item {} state).2 =
        if (visit item {} state).1.ignoreChildren then (visit item {} state).2
        else tourAll visit children (visit item {} state).2 := by
  rw [callsBelow]
  split
  · exact ⟨trivial, rfl⟩
  · exact threaded_callsPreAll h (visit item {} state).2

/-- The calls of a walk follow each other and leave the state that a tour leaves. -/
theorem threaded_callsPre (outline : Outline) (state : σ) :
    Call.Threaded visit (outline.callsPre visit state) state ∧
      Call.after visit (outline.callsPre visit state) state = outline.tour visit state := by
  induction outline generalizing state with
  | node item children ih =>
    obtain ⟨hthreaded, hafter⟩ := threaded_callsBelow item ih state
    simp only [callsPre_node, tour, ← hafter]
    by_cases hrevisit : (visit item {} state).1.needsRevisit
    · rw [if_pos hrevisit, if_pos hrevisit]
      refine ⟨⟨rfl, hthreaded.append ⟨rfl, trivial⟩⟩, ?_⟩
      exact Call.after_append _ _ _
    · rw [if_neg hrevisit, if_neg hrevisit, List.append_nil]
      exact ⟨⟨rfl, hthreaded⟩, rfl⟩

/-- The calls for several outlines are those for the first one and those for the others after its
tour. -/
theorem callsPreAll_cons (visit : Visitor σ) (c : Outline) (rest : List Outline) (state : σ) :
    callsPreAll visit (c :: rest) state =
      c.callsPre visit state ++ callsPreAll visit rest (c.tour visit state) := by
  rw [callsPreAll, (c.threaded_callsPre state).2]

/-- The calls for two lists of outlines are those for the one and those for the other after its
tour. -/
theorem callsPreAll_append (visit : Visitor σ) (first second : List Outline) (state : σ) :
    callsPreAll visit (first ++ second) state =
      callsPreAll visit first state ++ callsPreAll visit second (tourAll visit first state) := by
  induction first generalizing state with
  | nil => rfl
  | cons c rest ih =>
    rw [List.cons_append, callsPreAll_cons, callsPreAll_cons, ih, List.append_assoc, tourAll]

/-- The calls of several outlines are made in one of them, after a tour of those before it. -/
theorem mem_callsPreAll {outlines : List Outline} {call : Call σ} {state : σ}
    (h : call ∈ callsPreAll visit outlines state) :
    ∃ before c after, outlines = before ++ c :: after ∧
      call ∈ c.callsPre visit (tourAll visit before state) := by
  induction outlines generalizing state with
  | nil => cases h
  | cons c rest ih =>
    rw [callsPreAll_cons, List.mem_append] at h
    rcases h with h | h
    · exact ⟨[], c, rest, rfl, h⟩
    · obtain ⟨before, c', after, heq, hcall⟩ := ih h
      exact ⟨c :: before, c', after, by rw [heq, List.cons_append], hcall⟩

/-- The first visits of a walk: of the node itself, or in one of its children when these are not
left out. -/
theorem eq_or_mem_child_of_mem_callsPre {item : Node} {children : List Outline} {call : Call σ}
    {state : σ} (h : call ∈ (node item children).callsPre visit state)
    (hfirst : call.again = false) :
    call = ⟨item, false, state⟩ ∨ (visit item {} state).1.ignoreChildren = false ∧
      ∃ before c after, children = before ++ c :: after ∧
        call ∈ c.callsPre visit (tourAll visit before (visit item {} state).2) := by
  rw [callsPre_node, List.mem_cons, List.mem_append] at h
  rcases h with rfl | h | h
  · exact .inl rfl
  · rw [callsBelow] at h
    split at h
    · cases h
    · next hignore => exact .inr ⟨Bool.eq_false_iff.2 hignore, mem_callsPreAll h⟩
  · split at h
    · rw [List.mem_singleton.1 h] at hfirst
      cases hfirst
    · cases h

/-- A first visit is that of a node of the outline. -/
theorem node_mem_preorder_of_call {outline : Outline} {call : Call σ} {state : σ}
    (hcall : call ∈ outline.callsPre visit state) (hfirst : call.again = false) :
    call.node ∈ outline.preorder := by
  induction outline generalizing state with
  | node item children ih =>
    rcases eq_or_mem_child_of_mem_callsPre hcall hfirst with
      rfl | ⟨-, before, c, after, rfl, hbelow⟩
    · exact List.mem_cons_self
    · have hc : c ∈ before ++ c :: after := List.mem_append_right _ List.mem_cons_self
      exact mem_preorder_node.2 (.inr ⟨c, hc, ih c hc hbelow⟩)

/-- The first visit of a node, wherever it is in an outline, begins the calls for its own
outline. -/
theorem Faithful.callsPre_isInfix {outline : Outline} (h : outline.Faithful) {call : Call σ}
    {state : σ} (hcall : call ∈ outline.callsPre visit state) (hfirst : call.again = false) :
    call.node.outline.callsPre visit call.state <:+: outline.callsPre visit state := by
  induction h generalizing state with
  | @node item children root below ih =>
    rcases eq_or_mem_child_of_mem_callsPre hcall hfirst with
      rfl | ⟨hwalked, before, c, after, rfl, hbelow⟩
    · have hroot : item.outline.callsPre visit state =
          (Outline.node item children).callsPre visit state :=
        congrArg (callsPre visit · state) root
      exact hroot ▸ List.infix_rfl
    · refine (ih c (List.mem_append_right _ List.mem_cons_self) hbelow).trans ?_
      have hchildren : c.callsPre visit (tourAll visit before (visit item {} state).2) <:+:
          callsBelow visit item (before ++ c :: after) state := by
        rw [callsBelow, hwalked, if_neg Bool.false_ne_true, callsPreAll_append, callsPreAll_cons,
          ← List.append_assoc]
        exact List.infix_append _ _ _
      rw [callsPre_node]
      exact (hchildren.trans (List.prefix_append _ _).isInfix).trans (List.suffix_cons _ _).isInfix

/-- A node is visited again only if a first visit of it has asked for that. -/
theorem needsRevisit_of_again {outline : Outline} {call : Call σ} {state : σ}
    (h : call ∈ outline.callsPre visit state) (hagain : call.again) :
    ∃ s, (visit call.node {} s).1.needsRevisit := by
  induction outline generalizing state with
  | node item children ih =>
    rw [callsPre_node, List.mem_cons, List.mem_append] at h
    rcases h with rfl | h | h
    · cases hagain
    · rw [callsBelow] at h
      split at h
      · cases h
      · obtain ⟨before, c, after, rfl, hcall⟩ := mem_callsPreAll h
        exact ih c (List.mem_append_right _ List.mem_cons_self) hcall
    · split at h
      · next hrevisit =>
        rw [List.mem_singleton.1 h]
        exact ⟨state, hrevisit⟩
      · cases h

/-! ## What a visitor is handed -/

/-- A visitor that stops no walk is handed every call that is planned. -/
theorem log_eq_map_seen (hvisit : visit.NeverStops) (outline : Outline) (state : σ) :
    (outline.walkPre visit.logged {} (state, [])).2.2 =
      (outline.callsPre visit state).map Call.seen := by
  have hrun : Run visit (outline.callsPre visit state) state []
      (outline.walkPre visit.logged {} (state, [])) := outline.run_walkPre rfl state []
  have hall : ∀ call ∈ outline.callsPre visit state, call.stops visit = false :=
    fun call _ => hvisit call.node _ call.state
  rw [hrun.log_eq, Call.upToStop_of_all hall, List.nil_append]

end Outline

end TreeLang
