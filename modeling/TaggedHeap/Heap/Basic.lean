import TaggedHeap.Block.Tag
import TaggedHeap.Memory.Arena

/-!
# Heaps

A heap divides the end of an arena into blocks.  Two sentinels come first, then the blocks that
users ask for; `M` is the size of the smallest block, `A` the alignment of payloads:

```text
        head            head + M         head + 2 M
          |                 |                |
  ........+-----------------+----------------+--------------------------+---- - -
   unused | head sentinel   | tail sentinel  | tag | payload ...  | tag | tag
  ........+-----------------+----------------+--------------------------+---- - -
                                                   |
                                                   head + 2 M + 4, a multiple of A
```

A block lies between two equal boundary tags, its header and its footer.  The sentinels are
blocks that are always in use; they bound the list of free blocks.  Everything a heap knows is
in its arena, apart from where the head sentinel and the topmost block lie.

Blocks are named by the offset of their header.  The user of a block holds a `Pointer`, the
offset of its payload.
-/

namespace TaggedHeap

/-- What a user of the heap holds: the offset of the first byte of a payload. -/
structure Pointer where
  /-- The offset in the arena. -/
  offset : Nat
deriving DecidableEq, Repr

namespace Pointer

/-- The pointer to the payload of the block with the given header. -/
def ofHeader (block : Nat) : Pointer := ⟨block + wordBytes⟩

/-- The header of the block that the pointer belongs to. -/
def header (p : Pointer) : Except Fault Nat := Address.sub p.offset wordBytes

end Pointer

/-- A heap and the arena it owns. -/
structure Heap where
  /-- The bytes of the heap. -/
  arena : Arena
  /-- The parameters it was built with. -/
  layout : Layout
  /-- The parameters are admissible. -/
  valid : layout.Valid
  /-- The header of the head sentinel. -/
  head : Nat
  /-- The header of the topmost block. -/
  top : Nat
  /-- Links that are not exact are faults, instead of being stored as they come out. -/
  exactLinks : Bool := false

namespace Heap

variable (h : Heap)

/-- The header of the tail sentinel. -/
def tail : Nat := h.head + h.layout.minBlock

/-- The offset just past the sentinels, where the first block starts. -/
def firstBlock : Nat := h.tail + h.layout.minBlock

/-- Puts `xs` in place from `start` on. -/
def write (start : Nat) (xs : List UInt8) : Except Fault Heap := do
  return { h with arena := ← h.arena.write start xs }

/-- Stores a word at `pos`. -/
def setWord (pos : Nat) (w : UInt32) : Except Fault Heap := do
  return { h with arena := ← h.arena.setWord pos w }

/-! ### Tags -/

/-- The tag at `pos`. -/
def tag (pos : Nat) : Except Fault Tag := do
  return ⟨← h.arena.word pos⟩

/-- Where the footer lies of a block of `size` bytes at `block`. -/
def footerOf (block size : Nat) : Except Fault Nat := do
  let stop ← Address.add block size
  Address.sub stop wordBytes

/-- Stores a tag at `pos`. -/
def setTag (pos size : Nat) (used : Bool) : Except Fault Heap := do
  let t ← Tag.pack size used
  h.setWord pos t.raw

/-- Makes the `size` bytes at `block` a block, by writing its header and its footer. -/
def setTags (block size : Nat) (used : Bool) : Except Fault Heap := do
  let h ← h.setTag block size used
  h.setTag (← footerOf block size) size used

/-! ### Payloads -/

/-- Bytes that the user of a block may use, which may be more than were asked for. -/
def usableSize (p : Pointer) : Except Fault Nat := do
  let t ← h.tag (← p.header)
  Address.sub t.size overhead

/-- The usable bytes of a block, from the pointer on. -/
def payload (p : Pointer) : Except Fault (List UInt8) := do
  let size ← h.usableSize p
  h.arena.slice p.offset (← Address.add p.offset size)

/-- The user of a block sets its first `count` usable bytes, the `i`-th of them to `byte i`. -/
def setPayload (p : Pointer) (count : Nat) (byte : Nat → UInt8) : Except Fault Heap := do
  let size ← h.usableSize p
  let stop ← Address.add p.offset size
  if stop ≤ h.arena.size ∧ count ≤ size then
    h.write p.offset ((List.range count).map byte)
  else throw .outOfBounds

end Heap

end TaggedHeap
