import TaggedHeap.Heap.BestFit
import TaggedHeap.Session.Basic

/-!
# Requests

The users of a heap allocate, release and resize blocks.

* `allocate` answers a pointer to a block with room for the bytes asked for: the best fit among
  the free blocks, or a block at the end of the arena, which then grows.
* `release` makes a block free and merges it with its free neighbours.
* `resize` changes the size of a block in place if it can, and moves it otherwise.
* `zeroAllocate` allocates room for a number of elements and clears it.

No bytes at all are a request for no block: the answer is no pointer.  A request that cannot be
served ends with `HeapError.outOfMemory` and leaves the heap as it was.
-/

namespace TaggedHeap

open SessionM

/-- Lists a block that has just become free, joined with its free neighbours.  Answers where
the joint block starts. -/
def mergeBlock (block : Nat) : SessionM Nat := do
  let result ← edit (·.merge block)
  note (.merged block result)
  return result.block

/-- Makes `need` bytes at `block` a block in use, out of `total` bytes that end with the listed
free block `node`. -/
def carveBlock (block total need node : Nat) : SessionM Unit := do
  let result ← edit (·.carve block total need node)
  note (.carved block total need result)

/-- Makes `need` bytes of the listed free block at `block` a block in use. -/
def occupy (block need : Nat) : SessionM Unit := do
  let t ← ask (·.tag block)
  carveBlock block t.size need block

/-! ### Growing the heap -/

/-- What the arena has to grow by for a block of `need` bytes, if it may become that large. -/
def growthFor? (h : Heap) (need : Nat) : Option Nat :=
  (roundUp? need h.layout.alignment).filter fun size =>
    decide (h.arena.size + size < Address.space ∧ h.arena.size + size ≤ maxTagged)

/-- Makes the last `size` bytes of the arena a free block on top of the others.  Its header is
the last word of the arena before these bytes, which start at `offset`. -/
def addTopBlock (offset size : Nat) (h : Heap) : Except Fault (Nat × Heap) := do
  let block ← Address.sub offset wordBytes
  let h ← h.setTags block size false
  return (block, { h with top := block })

/-- Grows the arena so that a block of `need` bytes fits at its end, and answers the free block
there, which includes the topmost block if that was free. -/
def growFor (need : Nat) : SessionM Nat := do
  match growthFor? (← get).heap need with
  | none => fail (.outOfMemory need)
  | some size =>
    let offset ← noteError (growArena size) (.growthFailed size)
    let block ← edit (addTopBlock offset size)
    note (.heapGrown size block)
    mergeBlock block

/-! ### Requests -/

/-- The size of a block for `size` bytes of payload, if a tag can hold it. -/
def blockSize (size : Nat) : SessionM Nat := do
  match (← get).heap.layout.blockSizeFor? size with
  | none => fail (.outOfMemory size)
  | some need => if need ≤ maxTagged then return need else fail (.outOfMemory size)

/-- Allocates at least `size` bytes. -/
def allocate (size : Nat) : SessionM (Option Pointer) := do
  if size = 0 then return none
  let need ← blockSize size
  match ← ask (·.bestFit? need) with
  | some block =>
    occupy block need
    note (.allocated size block .reused)
    return some (.ofHeader block)
  | none =>
    let block ← noteError (growFor need) fun _ => .allocationFailed size
    occupy block need
    note (.allocated size block .grown)
    return some (.ofHeader block)

/-- Gives a block back. -/
def releaseBlock (p : Pointer) : SessionM Unit := do
  let block ← calculate p.header
  let t ← ask (·.tag block)
  alter (·.setTags block t.size false)
  let _ ← mergeBlock block
  note (.released block t.size)

/-- Gives the block of a pointer back, if there is one. -/
def release : Option Pointer → SessionM Unit
  | none => return
  | some p => releaseBlock p

/-- Cuts a block down to `need` bytes and lists the bytes that are left as a free block. -/
def cutDown (block size need : Nat) (h : Heap) : Except Fault (Nat × Heap) := do
  let rest ← Address.add block need
  let restSize ← Address.sub size need
  let h ← h.setTags block need true
  let h ← h.setTags rest restSize false
  return (rest, h.moveTop block rest)

/-- Resizes a block that is large enough already.  Less than a whole block is not cut off. -/
def shrink (block oldSize need size : Nat) : SessionM Unit := do
  if (← get).heap.layout.minBlock ≤ oldSize - need then
    let rest ← edit (cutDown block oldSize need)
    let _ ← mergeBlock rest
  note (.shrunk block size)

/-- The free block above the given one, if both together have `need` bytes. -/
def roomAbove? (block oldSize need : Nat) (h : Heap) : Except Fault (Option (Nat × Nat)) := do
  match ← h.onlyFree (← h.nextBlock? block) with
  | none => return none
  | some next =>
    let total ← Address.add oldSize (← h.tag next).size
    return if need ≤ total then some (next, total) else none

/-- Copies `count` bytes of the arena. -/
def copyBytes (start target count : Nat) (h : Heap) : Except Fault Heap := do
  let bytes ← h.arena.slice start (← Address.add start count)
  h.write target bytes

/-- Moves the content of a block to a new one with room for `size` bytes. -/
def moveBlock (p : Pointer) (block oldSize size : Nat) : SessionM (Option Pointer) := do
  match ← allocate size with
  | none => return none
  | some q =>
    let room ← calculate (Address.sub oldSize overhead)
    alter (copyBytes p.offset q.offset (min room size))
    releaseBlock p
    note (.moved block size (← calculate q.header))
    return some q

/-- Changes the size of a block to hold `size` bytes, which are not none. -/
def resizeBlock (p : Pointer) (size : Nat) : SessionM (Option Pointer) := do
  let need ← blockSize size
  let block ← calculate p.header
  let oldSize := (← ask (·.tag block)).size
  if need = oldSize then return some p
  if need < oldSize then
    shrink block oldSize need size
    return some p
  match ← ask (roomAbove? block oldSize need) with
  | some (next, total) =>
    carveBlock block total need next
    note (.grewInto block size next)
    return some p
  | none => moveBlock p block oldSize size

/-- Changes the size of the block of a pointer.  Without a pointer this allocates, and a size of
no bytes gives the block back. -/
def resize (p : Option Pointer) (size : Nat) : SessionM (Option Pointer) := do
  if size = 0 then
    release p
    return none
  match p with
  | none => allocate size
  | some p => resizeBlock p size

/-- Allocates room for `count` elements of `size` bytes each and clears it.  A product beyond
the address space is taken modulo it, with a warning. -/
def zeroAllocate (count size : Nat) : SessionM (Option Pointer) := do
  if Address.space ≤ count * size then note (.productWrapped count size)
  let bytes := count * size % Address.space
  match ← allocate bytes with
  | none => return none
  | some p =>
    alter (·.setPayload p bytes fun _ => 0)
    return some p

/-! ### Audits -/

/-- Audits the heap; with `verbose`, everything that passed is logged. -/
def auditHeap (verbose : Bool) : SessionM Report := do
  let (spans, verdict) := (← get).heap.audit
  if verbose then spans.forM fun span => note (.passed span)
  match verdict with
  | .error e => throw e
  | .ok report =>
    if verbose then note (.audited report)
    return report

end TaggedHeap
