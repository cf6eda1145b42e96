import TreeLang.Tree.Outline

/-!
# Walks

A walk threads a state through a tree and hands every node to a visitor. The visitor steers the walk
with a `Control`: it may stop the walk, leave out the children of a node, or ask to see the node a
second time once its children are done. An analysis enters a scope on the first visit and leaves it
on the second.
-/

namespace TreeLang

/-- What a walk and its visitor tell each other. -/
structure Control where
  stop : Bool := false
  ignoreChildren : Bool := false
  needsRevisit : Bool := false
  isRevisit : Bool := false
  deriving DecidableEq

/-- The control as a visitor finds it on a first visit: only a stop is left standing. -/
def Control.cleared (control : Control) : Control := { stop := control.stop }

/-- The control as a visitor finds it on a second visit. -/
def Control.revisiting (control : Control) : Control := { stop := control.stop, isRevisit := true }

/-- What is done at a node, given the control and the state. -/
abbrev Visitor (σ : Type) := Node → Control → σ → Control × σ

mutual

/-- Visits a node, then its children unless the visitor leaves them out, then the node again if the
visitor asked for that on the first visit. -/
def Outline.walkPre (visit : Visitor σ) : Outline → Control → σ → Control × σ
  | .node item children, control, state =>
    let (asked, state) := visit item control.cleared state
    if asked.stop then (asked, state)
    else
      let (control, state) :=
        if asked.ignoreChildren then (asked, state)
        else Outline.walkPreAll visit children asked state
      if control.stop then (control, state)
      else if asked.needsRevisit then
        let (control, state) := visit item control.revisiting state
        ({ control with isRevisit := false }, state)
      else (control, state)

/-- Walks several outlines one after the other, until the visitor stops the walk. -/
def Outline.walkPreAll (visit : Visitor σ) : List Outline → Control → σ → Control × σ
  | [], control, state => (control, state)
  | outline :: rest, control, state =>
    let (control, state) := outline.walkPre visit control state
    if control.stop then (control, state) else Outline.walkPreAll visit rest control state

end

mutual

/-- Visits a node after its children; a visitor can only stop this walk. -/
def Outline.walkPost (visit : Visitor σ) : Outline → Control → σ → Control × σ
  | .node item children, control, state =>
    let (control, state) := Outline.walkPostAll visit children control state
    if control.stop then (control, state) else visit item control.cleared state

/-- Walks several outlines one after the other, until the visitor stops the walk. -/
def Outline.walkPostAll (visit : Visitor σ) : List Outline → Control → σ → Control × σ
  | [], control, state => (control, state)
  | outline :: rest, control, state =>
    let (control, state) := outline.walkPost visit control state
    if control.stop then (control, state) else Outline.walkPostAll visit rest control state

end

/-- The two orders of a walk. -/
inductive Order where
  | pre
  | post
  deriving DecidableEq

/-- A walk in an order, from a fresh control. -/
def Outline.walk (order : Order) (visit : Visitor σ) (outline : Outline) (state : σ) :
    Control × σ :=
  match order with
  | .pre => outline.walkPre visit {} state
  | .post => outline.walkPost visit {} state

/-- A pre-order walk over a whole program. -/
def Program.walk (visit : Visitor σ) (program : Program) (state : σ) : σ :=
  (program.outline.walk .pre visit state).2

end TreeLang
