import TaggedHeap.Heap.Chain

/-!
# Merging and splitting blocks

`merge` lists a block that has just become free.  A neighbour that is free too is taken out of
the list first and joined with it, so that no two free blocks are ever next to each other.  The
joint block starts at the lowest of its parts and goes to the front of the list.

`carve` is the opposite: it turns the front of a free stretch into a block in use.  What remains
becomes a free block in the same place of the list, unless it is too small to be a block.
-/

namespace TaggedHeap

/-- What a merge came to. -/
structure Merge where
  /-- The header of the merged block. -/
  block : Nat
  /-- Its size. -/
  size : Nat
  /-- The block below was free. -/
  withPrev : Bool
  /-- The block above was free. -/
  withNext : Bool
deriving DecidableEq, Repr

/-- What a carving came to. -/
inductive Carving
  /-- The front of the stretch is in use, and `size` bytes at `rest` are free. -/
  | split (rest size : Nat)
  /-- All of the stretch is in use. -/
  | whole
deriving DecidableEq, Repr

namespace Heap

variable (h : Heap)

/-- The heap with `target` as its topmost block, if `block` was it. -/
def moveTop (block target : Nat) : Heap := if h.top = block then { h with top := target } else h

/-- Makes `size` bytes at `block` a free block at the front of the list. -/
def listFree (block size : Nat) : Except Fault Heap := do
  let h ← h.setTags block size false
  h.pushFront block

/-- Lists the free block at `block` after joining it with the given free neighbours.  Answers
where the joint block starts. -/
def join (block size : Nat) : Option Nat → Option Nat → Except Fault (Nat × Heap)
  | none, none => do
    return (block, ← h.pushFront block)
  | none, some next => do
    let total ← Address.add size (← h.tag next).size
    let h ← h.unlink next
    let h ← h.listFree block total
    return (block, h.moveTop next block)
  | some prev, none => do
    let total ← Address.add size (← h.tag prev).size
    let h ← h.unlink prev
    let h ← h.listFree prev total
    return (prev, h.moveTop block prev)
  | some prev, some next => do
    let total ← Address.add size (← h.tag prev).size
    let total ← Address.add total (← h.tag next).size
    let h ← h.unlink prev
    let h ← h.unlink next
    let h ← h.listFree prev total
    return (prev, h.moveTop next prev)

/-- Lists a free block that is not in the list yet, joined with its free neighbours. -/
def merge (block : Nat) : Except Fault (Merge × Heap) := do
  let size := (← h.tag block).size
  let prev ← h.onlyFree (← h.prevBlock? block)
  let next ← h.onlyFree (← h.nextBlock? block)
  let (merged, h) ← h.join block size prev next
  return ({ block := merged, size := (← h.tag merged).size, withPrev := prev.isSome,
            withNext := next.isSome }, h)

/-- Makes `need` bytes at `block` a block in use, out of the `total` bytes there that end with
the space of the listed free block `node`.  A remainder that is large enough takes the place of
`node` in the list. -/
def carve (block total need node : Nat) : Except Fault (Carving × Heap) := do
  let before ← h.neighbour node .prev
  let after ← h.neighbour node .next
  let restSize ← Address.sub total need
  if h.layout.minBlock ≤ restSize then
    let h ← h.setTags block need true
    let rest ← Address.add block need
    let h ← h.setTags rest restSize false
    let h ← h.splice before rest
    let h ← h.splice rest after
    return (.split rest restSize, h.moveTop node rest)
  else
    let h ← h.splice before after
    let h ← h.setTags block total true
    return (.whole, h.moveTop node block)

end Heap

end TaggedHeap
