/-!
# Node ids

Every selectable node of a program carries a number below `2 ^ 64`, which is `0x10000000000000000`,
and every analysis result is keyed by it. `IdSupply` hands these numbers out in increasing order; at
the largest one it stays.
-/

namespace TreeLang

/-- The identity of a node: a number of 64 bits. -/
structure NodeId where
  value : Nat
  value_lt : value < 0x10000000000000000 := by decide
  deriving DecidableEq

namespace NodeId

/-- The largest id. -/
def last : NodeId := ⟨0x10000000000000000 - 1, by decide⟩

/-- The id with number `n`, when `n` has at most 64 bits. -/
def ofNat? (n : Nat) : Option NodeId :=
  if h : n < 0x10000000000000000 then some ⟨n, h⟩ else none

/-- The id with number `n`, the largest id when `n` has more than 64 bits. -/
def ofNat (n : Nat) : NodeId := (ofNat? n).getD last

/-- The id after `id`; the largest id is its own successor. -/
def next (id : NodeId) : NodeId :=
  if h : id.value + 1 < 0x10000000000000000 then ⟨id.value + 1, h⟩ else id

/-- The larger of two ids. -/
def max (a b : NodeId) : NodeId := if a.value ≤ b.value then b else a

/-- The written form of an id: its number after a hash sign. -/
def text (id : NodeId) : String := "#" ++ toString id.value

end NodeId

/-- A sequential allocator of ids, known by the id it hands out next. -/
structure IdSupply where
  peek : NodeId
  deriving DecidableEq

namespace IdSupply

/-- The supply that starts at id zero. -/
def start : IdSupply := ⟨⟨0, by decide⟩⟩

/-- The supply that continues after `latest`; there is none after the largest id. -/
def after? : Option NodeId → Option IdSupply
  | none => some start
  | some latest => (NodeId.ofNat? (latest.value + 1)).map IdSupply.mk

/-- Hands out the next id. -/
def fresh (ids : IdSupply) : NodeId × IdSupply := (ids.peek, ⟨ids.peek.next⟩)

/-- How many ids are handed out before the largest one is reached. -/
def remaining (ids : IdSupply) : Nat := NodeId.last.value - ids.peek.value

end IdSupply

end TreeLang
