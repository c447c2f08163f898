import TaggedHeap.Heap.Ring

/-!
# The chain of blocks

The blocks of a heap follow each other without gaps, from the tail sentinel to the topmost
block.  The header of a block leads to the next one, and the footer just below it to the one
before (`nextBlock?`, `prevBlock?`).

A `Block` is what its header says of it.  `blocks` lists the chain by address and `freeBlocks`
the free blocks in the order of their list.  Where metadata is damaged these walks need not
end, so each lists a limited number of blocks.
-/

namespace TaggedHeap

/-- Whether a block is in use; a free block has neighbours in the list of free blocks. -/
inductive BlockState
  | used
  | free (next prev : Option Nat)
deriving DecidableEq, Repr

/-- A block of a heap. -/
structure Block where
  /-- The offset of its header. -/
  offset : Nat
  /-- Its size, header and footer included. -/
  size : Nat
  /-- Its state. -/
  state : BlockState
deriving DecidableEq, Repr

namespace Block

/-- The block is free. -/
def isFree (b : Block) : Bool :=
  match b.state with
  | .used => false
  | .free _ _ => true

/-- The pointer that the user of the block holds, or would hold. -/
def pointer (b : Block) : Pointer := .ofHeader b.offset

end Block

namespace Heap

variable (h : Heap)

/-- The block above the one at `block`, unless that is the topmost one. -/
def nextBlock? (block : Nat) : Except Fault (Option Nat) := do
  if block = h.top then return none
  let t ← h.tag block
  return some (← Address.add block t.size)

/-- The block below the one at `block`; the head sentinel has none. -/
def prevBlock? (block : Nat) : Except Fault (Option Nat) := do
  if block = h.head then return none
  let t ← h.tag (← Address.sub block wordBytes)
  return some (← Address.sub block t.size)

/-- The given block, if there is one and it is free. -/
def onlyFree : Option Nat → Except Fault (Option Nat)
  | none => return none
  | some block => do
    let t ← h.tag block
    return if t.isFree then some block else none

/-- What the header at `block` says. -/
def block (block : Nat) : Except Fault Block := do
  let t ← h.tag block
  let state ←
    if t.isUsed then pure .used
    else pure (.free (← h.neighbour? block .next) (← h.neighbour? block .prev))
  return { offset := block, size := t.size, state }

/-- At most `limit` blocks by address, from the given one on. -/
def blocksFrom : (limit : Nat) → Option Nat → Except Fault (List Block)
  | 0, _ => return []
  | _, none => return []
  | limit + 1, some block => do
    let next ← h.nextBlock? block
    let b ← h.block block
    return b :: (← blocksFrom limit next)

/-- The blocks by address, sentinels excluded: at most `limit` of them, by default as many as
the arena could hold. -/
def blocks (limit : Nat := h.arena.size) : Except Fault (List Block) := do
  h.blocksFrom limit (← h.nextBlock? h.tail)

/-- At most `limit` blocks in the order of the list, from the given one on to the tail
sentinel. -/
def freeBlocksFrom : (limit : Nat) → Option Nat → Except Fault (List Block)
  | 0, _ => return []
  | _, none => return []
  | limit + 1, some block => do
    if block = h.tail then return []
    let next ← h.neighbour? block .next
    let b ← h.block block
    return b :: (← freeBlocksFrom limit next)

/-- The free blocks, most recently listed first: at most `limit` of them, by default as many as
the arena could hold. -/
def freeBlocks (limit : Nat := h.arena.size) : Except Fault (List Block) := do
  h.freeBlocksFrom limit (← h.neighbour? h.head .next)

end Heap

end TaggedHeap
