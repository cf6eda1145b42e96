import Mathlib.Order.Basic
import TreeLang.Proofs.Tree.Visits

/-!
# Walks that close what they open

A visitor may open something on the first visit of a node and close it on the second one. The level
of a state tells what is open in it. When a second visit closes what a first visit of its node has
opened, a walk comes back to the level that it starts from and never goes below it. So whatever a
second visit closes is what the first visit of the same node has opened, and was open all the time
in between.

Balanced walks are described for levels of any sort. Where a level is what is on some stacks, it is
enough to know how much each node puts on them and takes off.
-/

namespace TreeLang

/-! ## Balanced walks -/

section

variable {σ ρ : Type} [Preorder ρ] (visit : Visitor σ) (level : σ → ρ)
  (Opens : Node → ρ → ρ → Prop)

/-- A second visit of a node closes what a first visit of it opens. A node that is not visited again
opens nothing. -/
structure Visitor.Balances : Prop where
  le_of_opens : ∀ {node outside inside}, Opens node outside inside → outside ≤ inside
  opens : ∀ node s, (visit node {} s).1.needsRevisit = true →
    Opens node (level s) (level (visit node {} s).2)
  closes : ∀ node s outside, Opens node outside (level s) →
    level (visit node { isRevisit := true } s).2 = outside
  keeps : ∀ node s, (visit node {} s).1.needsRevisit = false →
    level (visit node {} s).2 = level s

/-- A call finds and leaves a level that is not below a given one. -/
structure Call.Above (floor : ρ) (call : Call σ) : Prop where
  found : floor ≤ level call.state
  left : floor ≤ level (call.answer visit).2

/-- A second visit closes what a first visit has opened. The two are the first and the last call in
the outline of their node, and no call between them goes below the level in between. -/
structure Call.Closes (first : Call σ) (between : List (Call σ)) (second : Call σ) : Prop where
  node_eq : second.node = first.node
  calls_eq : first :: (between ++ [second]) = first.node.outline.callsPre visit first.state
  opens : Opens first.node (level first.state) (level (first.answer visit).2)
  inside : ∀ call ∈ between, call.Above visit level (level (first.answer visit).2)
  found : level second.state = level (first.answer visit).2
  left : level (second.answer visit).2 = level first.state

/-- Each second visit among some calls closes what a first visit before it has opened. -/
def Call.Paired (calls : List (Call σ)) : Prop :=
  ∀ before second after, calls = before ++ second :: after → second.again = true →
    ∃ earlier first between, before = earlier ++ first :: between ∧
      Closes visit level Opens first between second

/-- A walk over an outline comes back to the level that it starts from, unless it is stopped. No
call goes below this level, and each second visit closes what the first visit of its node has
opened. -/
structure Outline.Balanced (outline : Outline) (control : Control) (s : σ) : Prop where
  calls : ∃ calls, (outline.walkPre visit.logged control (s, [])).2.2 = calls.map Call.seen ∧
    (∀ call ∈ calls, call.Above visit level (level s)) ∧ Call.Paired visit level Opens calls
  finished : (outline.walkPre visit control s).1.stop = false →
    level (outline.walkPre visit control s).2 = level s

end

/-- Several tours that each come back to their level come back together. -/
theorem Outline.level_tourAll {σ ρ : Type} {visit : Visitor σ} {level : σ → ρ}
    {outlines : List Outline} (h : ∀ c ∈ outlines, ∀ s, level (c.tour visit s) = level s) (s : σ) :
    level (tourAll visit outlines s) = level s := by
  induction outlines generalizing s with
  | nil => rfl
  | cons c rest ih =>
    obtain ⟨hc, hrest⟩ := List.forall_mem_cons.1 h
    rw [tourAll, ih hrest, hc]

section

variable {σ ρ : Type} [Preorder ρ] {visit : Visitor σ} {level : σ → ρ}
  {Opens : Node → ρ → ρ → Prop}

/-! ## Pairs of calls -/

namespace Call

variable {calls more between : List (Call σ)} {first second : Call σ}

/-- A call that stays above a level stays above all levels below it. -/
theorem Above.mono {floor floor' : ρ} (h : first.Above visit level floor) (hle : floor' ≤ floor) :
    first.Above visit level floor' := ⟨hle.trans h.found, hle.trans h.left⟩

namespace Paired

/-- Among no calls there is no second visit. -/
theorem nil : Paired visit level Opens [] := fun _ _ _ h => absurd h (by simp)

/-- Calls with their pairs one after the other have their pairs. -/
theorem append (h : Paired visit level Opens calls) (h' : Paired visit level Opens more) :
    Paired visit level Opens (calls ++ more) := by
  intro before second after heq hagain
  rcases List.append_eq_append_iff.1 heq with ⟨rest, hbefore, hmore⟩ | ⟨rest, hcalls, hrest⟩
  · obtain ⟨earlier, first, between, rfl, hcloses⟩ := h' rest second after hmore hagain
    exact ⟨calls ++ earlier, first, between, by rw [hbefore, List.append_assoc], hcloses⟩
  · cases rest with
    | nil =>
      obtain ⟨earlier, first, between, hnil, -⟩ := h' [] second after hrest.symm hagain
      exact absurd hnil (by simp)
    | cons call rest =>
      obtain ⟨rfl, -⟩ := List.cons.inj hrest
      exact h before second rest hcalls hagain

/-- A first visit alone closes nothing. -/
theorem single (h : first.again = false) : Paired visit level Opens [first] := by
  intro before second after heq hagain
  obtain ⟨rfl, rfl, rfl⟩ : before = [] ∧ second = first ∧ after = [] := by
    simpa [List.singleton_eq_append_iff] using heq
  exact absurd (h.symm.trans hagain) Bool.false_ne_true

/-- What is closed last is what was opened first. -/
theorem closed (hfirst : first.again = false) (h : Paired visit level Opens between)
    (hcloses : Closes visit level Opens first between second) :
    Paired visit level Opens (first :: (between ++ [second])) := by
  have hbefore : Paired visit level Opens (first :: between) := (single hfirst).append h
  intro before last after heq hagain
  -- Either it is the last call of all, or it is one of the calls before, which are paired.
  rw [← List.cons_append] at heq
  rcases List.append_eq_append_iff.1 heq with ⟨rest, hrest, hlast⟩ | ⟨rest, hall, hrest⟩
  · obtain ⟨rfl, rfl, rfl⟩ : rest = [] ∧ last = second ∧ after = [] := by
      simpa [List.singleton_eq_append_iff] using hlast
    exact ⟨[], first, between, by simpa using hrest, hcloses⟩
  · cases rest with
    | nil =>
      obtain ⟨rfl, -⟩ := List.cons.inj hrest
      exact ⟨[], first, between, by simpa using hall.symm, hcloses⟩
    | cons call rest =>
      obtain ⟨rfl, -⟩ := List.cons.inj hrest
      exact hbefore before last rest hall hagain

/-- The first ones of some calls with their pairs have their pairs: what was opened came before. -/
theorem initial (h : Paired visit level Opens calls) (hinit : more <+: calls) :
    Paired visit level Opens more := by
  obtain ⟨rest, rfl⟩ := hinit
  intro before second after heq hagain
  exact h before second (after ++ rest) (by rw [heq, List.append_assoc, List.cons_append]) hagain

end Paired

/-- The calls up to a stop are the first ones of all. -/
theorem upToStop_isPrefix (visit : Visitor σ) (calls : List (Call σ)) :
    upToStop visit calls <+: calls := by
  induction calls with
  | nil => exact List.prefix_rfl
  | cons call rest ih =>
    rw [upToStop, List.prefix_cons_inj]
    split
    · exact List.nil_prefix
    · exact ih

end Call

/-! ## Levels of a walk -/

namespace Visitor.Balances

open Outline (tour tourAll level_tourAll callsPre callsPreAll callsBelow)

variable {outline : Outline} {outlines : List Outline}

/-- A first visit does not go below the level that it finds. -/
theorem le_first (h : visit.Balances level Opens) (node : Node) (s : σ) :
    level s ≤ level (visit node {} s).2 := by
  cases hrevisit : (visit node {} s).1.needsRevisit with
  | true => exact h.le_of_opens (h.opens node s hrevisit)
  | false => exact (h.keeps node s hrevisit).ge

/-- A tour comes back to the level that it starts from. -/
theorem level_tour (h : visit.Balances level Opens) (outline : Outline) (s : σ) :
    level (outline.tour visit s) = level s := by
  induction outline generalizing s with
  | node item children ih =>
    -- The children leave what the first visit has opened, so the second one finds that.
    have hbetween : level (if (visit item {} s).1.ignoreChildren then (visit item {} s).2
        else tourAll visit children (visit item {} s).2) = level (visit item {} s).2 := by
      split
      · rfl
      · exact level_tourAll ih _
    simp only [tour]
    cases hrevisit : (visit item {} s).1.needsRevisit with
    | true =>
      rw [if_pos rfl]
      exact h.closes item _ _ (hbetween ▸ h.opens item s hrevisit)
    | false =>
      rw [if_neg Bool.false_ne_true]
      exact hbetween.trans (h.keeps item s hrevisit)

/-- The calls for the children of a node leave the level that its first visit has left. -/
theorem level_after_callsBelow (h : visit.Balances level Opens) (item : Node)
    (children : List Outline) (s : σ) :
    level (Call.after visit (callsBelow visit item children s) (visit item {} s).2) =
      level (visit item {} s).2 := by
  rw [(Outline.threaded_callsBelow item (fun c _ => c.threaded_callsPre) s).2]
  split
  · rfl
  · exact level_tourAll (fun c _ => h.level_tour c) _

/-- The calls of several outlines stay above the level before the first one, since each outline
comes back to it. -/
theorem above_callsPreAll (h : visit.Balances level Opens)
    (hall : ∀ c ∈ outlines, ∀ s, ∀ call ∈ c.callsPre visit s, call.Above visit level (level s))
    (s : σ) : ∀ call ∈ callsPreAll visit outlines s, call.Above visit level (level s) := by
  intro call hcall
  obtain ⟨before, c, after, rfl, hmem⟩ := Outline.mem_callsPreAll hcall
  have hlevel : level (tourAll visit before s) = level s :=
    level_tourAll (fun c _ => h.level_tour c) s
  exact hlevel ▸ hall c (List.mem_append_right _ List.mem_cons_self) _ call hmem

/-- No call goes below the level that the calls start from. -/
theorem above_callsPre (h : visit.Balances level Opens) (outline : Outline) (s : σ) :
    ∀ call ∈ outline.callsPre visit s, call.Above visit level (level s) := by
  induction outline generalizing s with
  | node item children ih =>
    have hfirst := h.le_first item s
    rw [Outline.callsPre_node]
    refine List.forall_mem_cons.2 ⟨⟨le_rfl, hfirst⟩, List.forall_mem_append.2 ⟨?_, ?_⟩⟩
    · intro call hcall
      rw [callsBelow] at hcall
      split at hcall
      · cases hcall
      · exact (h.above_callsPreAll ih _ call hcall).mono hfirst
    · intro call hcall
      split at hcall
      · next hrevisit =>
        have hbelow := h.level_after_callsBelow item children s
        rw [List.mem_singleton.1 hcall]
        exact ⟨hbelow ▸ hfirst, (h.closes item _ _ (hbelow ▸ h.opens item s hrevisit)).ge⟩
      · cases hcall

/-- Pairs do not reach across outlines. -/
theorem paired_callsPreAll
    (h : ∀ c ∈ outlines, ∀ s, Call.Paired visit level Opens (c.callsPre visit s)) (s : σ) :
    Call.Paired visit level Opens (callsPreAll visit outlines s) := by
  induction outlines generalizing s with
  | nil => exact .nil
  | cons c rest ih =>
    obtain ⟨hc, hrest⟩ := List.forall_mem_cons.1 h
    exact (hc s).append (ih hrest _)

/-- Each second visit closes what the first visit of the same node has opened. -/
theorem paired_callsPre (h : visit.Balances level Opens) (faithful : outline.Faithful) (s : σ) :
    Call.Paired visit level Opens (outline.callsPre visit s) := by
  induction faithful generalizing s with
  | @node item children root below ih =>
    have hbelow : Call.Paired visit level Opens (callsBelow visit item children s) := by
      rw [callsBelow]
      split
      · exact .nil
      · exact paired_callsPreAll ih _
    rw [Outline.callsPre_node]
    cases hrevisit : (visit item {} s).1.needsRevisit with
    | false =>
      rw [if_neg Bool.false_ne_true, List.append_nil]
      exact (Call.Paired.single rfl).append hbelow
    | true =>
      have hlevel := h.level_after_callsBelow item children s
      have hopens := h.opens item s hrevisit
      rw [if_pos rfl]
      refine hbelow.closed rfl ⟨rfl, ?_, hopens, ?_, hlevel, ?_⟩
      -- A faithful outline has the outline of the node itself here, so these are its calls.
      · show _ = item.outline.callsPre visit s
        rw [root, Outline.callsPre_node, hrevisit, if_pos rfl]
      · intro call hcall
        rw [callsBelow] at hcall
        split at hcall
        · cases hcall
        · exact h.above_callsPreAll (fun c _ => h.above_callsPre c) _ call hcall
      · exact h.closes item _ _ (hlevel ▸ hopens)

/-- Walks of a visitor that closes what it opens are balanced. -/
theorem balanced (h : visit.Balances level Opens) (faithful : outline.Faithful)
    {control : Control} (hcontrol : control.stop = false) (s : σ) :
    outline.Balanced visit level Opens control s := by
  have hrun : Run visit (outline.callsPre visit s) s []
      (outline.walkPre visit.logged control (s, [])) := outline.run_walkPre hcontrol s []
  have hinit := Call.upToStop_isPrefix visit (outline.callsPre visit s)
  -- A stopped walk makes the first of the calls only.
  refine ⟨⟨Call.upToStop visit (outline.callsPre visit s), ?_, ?_, ?_⟩, fun hgoing => ?_⟩
  · rw [hrun.log_eq, List.nil_append]
  · exact fun call hcall => h.above_callsPre outline s call (hinit.subset hcall)
  · exact (h.paired_callsPre faithful s).initial hinit
  · have hview := outline.walkPre_view visit.logged_views control (s, [])
    rw [hview] at hgoing ⊢
    show level (outline.walkPre visit.logged control (s, [])).2.1 = level s
    rw [hrun.state_eq_after hgoing, (outline.threaded_callsPre s).2, h.level_tour]

end Visitor.Balances

/-- A second visit finds a level on which its node has opened something, and closes that. -/
theorem Outline.Balanced.exists_opens {outline : Outline} {control : Control} {s : σ}
    (h : outline.Balanced visit level Opens control s) {visited : Node × Control × σ}
    (hvisited : visited ∈ (outline.walkPre visit.logged control (s, [])).2.2)
    (hagain : visited.2.1.isRevisit = true) :
    ∃ outside, Opens visited.1 outside (level visited.2.2) ∧
      level (visit visited.1 visited.2.1 visited.2.2).2 = outside := by
  obtain ⟨calls, hlog, -, hpaired⟩ := h.calls
  rw [hlog] at hvisited
  obtain ⟨second, hsecond, rfl⟩ := List.mem_map.1 hvisited
  obtain ⟨before, after, hsplit⟩ := List.append_of_mem hsecond
  obtain ⟨-, first, between, -, hcloses⟩ := hpaired before second after hsplit hagain
  refine ⟨level first.state, ?_, hcloses.left⟩
  show Opens second.node _ (level second.state)
  rw [hcloses.node_eq, hcloses.found]
  exact hcloses.opens

end

/-! ## Levels made of stacks -/

/-- What is open in a state: what is on each of some stacks, from the inside out. -/
def Level {κ : Type} (Item : κ → Type) : Type := ∀ stack, List (Item stack)

namespace Level

variable {κ : Type} {Item : κ → Type} {first second third : Level Item}

/-- A level is inside of another one when all that is open on that one is still open on it. -/
instance : LE (Level Item) := ⟨fun outside inside => ∀ stack, outside stack <:+ inside stack⟩

instance : Preorder (Level Item) where
  le_refl _ _ := List.suffix_rfl
  le_trans _ _ _ h h' stack := (h stack).trans (h' stack)

variable [DecidableEq κ] {touched more : List κ}

/-- The second level has one item more for each of some stacks, which may be named more than once,
and nothing else was opened or closed. -/
def Opens (touched : List κ) (outside inside : Level Item) : Prop :=
  ∀ stack, ∃ items, items.length = touched.count stack ∧ inside stack = items ++ outside stack

/-- The level after one item is closed for each of some stacks. -/
def closed (touched : List κ) (l : Level Item) : Level Item :=
  fun stack => (l stack).drop (touched.count stack)

/-- Where nothing is opened the level is the same. -/
theorem opens_nil (l : Level Item) : Opens [] l l := fun _ => ⟨[], rfl, rfl⟩

/-- What is opened in two steps is opened in one. -/
theorem Opens.append (h : Opens touched first second) (h' : Opens more second third) :
    Opens (touched ++ more) first third := by
  intro stack
  obtain ⟨items, hitems, hsecond⟩ := h stack
  obtain ⟨items', hitems', hthird⟩ := h' stack
  refine ⟨items' ++ items, ?_, ?_⟩
  · rw [List.length_append, List.count_append, hitems, hitems', Nat.add_comm]
  · rw [hthird, hsecond, List.append_assoc]

/-- Opening leaves open what there was. -/
theorem Opens.le (h : Opens touched first second) : first ≤ second := by
  intro stack
  obtain ⟨items, -, hsecond⟩ := h stack
  exact ⟨items, hsecond.symm⟩

/-- Closing what was opened gives the level before. -/
theorem Opens.closed_eq (h : Opens touched first second) : second.closed touched = first := by
  funext stack
  obtain ⟨items, hitems, hsecond⟩ := h stack
  rw [closed, hsecond, ← hitems, List.drop_left]

/-- Closing nothing leaves the level as it is. -/
theorem closed_nil (l : Level Item) : l.closed [] = l := rfl

end Level

/-- A visitor that opens items on the first visits and closes the same number on the second ones
closes what it opens, when it opens nothing at the nodes that it visits once. -/
theorem Visitor.Balances.of_closed {σ κ : Type} [DecidableEq κ] {Item : κ → Type}
    {visit : Visitor σ} {level : σ → Level Item} {opened : Node → List κ}
    (opens : ∀ node s, Level.Opens (opened node) (level s) (level (visit node {} s).2))
    (closes : ∀ node s,
      level (visit node { isRevisit := true } s).2 = (level s).closed (opened node))
    (once : ∀ node s, (visit node {} s).1.needsRevisit = false → opened node = []) :
    Visitor.Balances visit level (fun node => Level.Opens (opened node)) where
  le_of_opens := Level.Opens.le
  opens node s _ := opens node s
  closes node s _ h := (closes node s).trans h.closed_eq
  keeps node s h := by
    have hclosed := (opens node s).closed_eq
    rwa [once node s h, Level.closed_nil] at hclosed

end TreeLang
