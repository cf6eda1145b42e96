import TreeLang.NodeId
import TreeLang.Table

/-!
# Scope stacks

A scope stack is a frame of names inside other frames. Lookups go from the innermost frame outward,
so an inner name hides an outer one. The outermost frame cannot be popped.
-/

namespace TreeLang

/-- The names that one scope binds, in order of first binding. -/
abbrev Frame := Table String NodeId

/-- Nested scopes: the innermost frame, and those around it from the inside out. -/
structure ScopeStack where
  inner : Frame := []
  outer : List Frame := []
  deriving DecidableEq

namespace ScopeStack

/-- One frame without names. -/
def empty : ScopeStack := {}

/-- The frames, innermost first. -/
def frames (stack : ScopeStack) : List Frame := stack.inner :: stack.outer

/-- The number of frames. -/
def depth (stack : ScopeStack) : Nat := stack.frames.length

/-- Opens a frame without names. -/
def push (stack : ScopeStack) : ScopeStack := { inner := [], outer := stack.frames }

/-- Closes the innermost frame, unless it is the outermost. -/
def pop? (stack : ScopeStack) : Option (Frame × ScopeStack) :=
  match stack.outer with
  | [] => none
  | next :: rest => some (stack.inner, { inner := next, outer := rest })

/-- The stack after closing a frame; the outermost frame stays. -/
def pop (stack : ScopeStack) : ScopeStack :=
  match stack.pop? with
  | some (_, stack) => stack
  | none => stack

/-- Binds a name in the innermost frame. -/
def set (name : String) (pattern : NodeId) (stack : ScopeStack) : ScopeStack :=
  { stack with inner := stack.inner.put name pattern }

/-- The binding of a name in the innermost frame that has one. -/
def get? (name : String) (stack : ScopeStack) : Option NodeId :=
  stack.frames.findSome? fun frame => frame.find name

/-- The visible bindings, outermost frame first; a binding that is hidden is left out. -/
def flattened (stack : ScopeStack) : List (String × NodeId) :=
  stack.frames.reverse.foldl (fun visible frame =>
    frame.foldl (fun visible entry => Table.putLast entry.1 entry.2 visible) visible) []

end ScopeStack

end TreeLang
