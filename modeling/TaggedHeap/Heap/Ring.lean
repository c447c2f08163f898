import TaggedHeap.Block.Link
import TaggedHeap.Heap.Basic

/-!
# The list of free blocks

The free blocks form a doubly linked list that starts at the head sentinel and ends at the tail
sentinel, so every block in it has a neighbour on either side.  A block enters the list right
after the head sentinel, in front of those that have been free for longer.
-/

namespace TaggedHeap

namespace Heap

variable (h : Heap)

/-- The word of a link of the block at `block`. -/
def linkWord (block : Nat) (l : Link) : Except Fault UInt32 := do
  h.arena.word (← Address.add block l.slot)

/-- The block that a link leads to, if there is one. -/
def neighbour? (block : Nat) (l : Link) : Except Fault (Option Nat) := do
  let w ← h.linkWord block l
  return if w = 0 then none else some (Link.resolve block w)

/-- The block that a link leads to, where there must be one. -/
def neighbour (block : Nat) (l : Link) : Except Fault Nat := do
  return Link.resolve block (← h.linkWord block l)

/-- Makes a link of the block at `block` lead to `target`. -/
def setLink (block : Nat) (l : Link) (target : Nat) : Except Fault Heap := do
  let pos ← Address.add block l.slot
  if h.exactLinks ∧ ¬ Link.Exact block target then throw .inexactLink
  h.setWord pos (Link.encode block target)

/-- Makes a link of the block at `block` lead nowhere. -/
def clearLink (block : Nat) (l : Link) : Except Fault Heap := do
  h.setWord (← Address.add block l.slot) 0

/-- Makes two blocks neighbours in the list; whatever was between them drops out. -/
def splice (before after : Nat) : Except Fault Heap := do
  let h ← h.setLink before .next after
  h.setLink after .prev before

/-- Takes a block out of the list. -/
def unlink (block : Nat) : Except Fault Heap := do
  let before ← h.neighbour block .prev
  let after ← h.neighbour block .next
  h.splice before after

/-- Puts a block at the front of the list. -/
def pushFront (block : Nat) : Except Fault Heap := do
  let first ← h.neighbour h.head .next
  let h ← h.splice block first
  h.splice h.head block

end Heap

end TaggedHeap
