import TaggedHeap.Audit
import TaggedHeap.Heap.Reshape

/-!
# Log records

What a heap does is logged in records of three levels.  Running out of memory is a warning, as is
a request whose size overflowed; all else is for debugging.  The log is that of the heap alone: what
an arena has to say about the program break is not part of it.
-/

namespace TaggedHeap

/-- How serious a record is. -/
inductive Level
  | warn
  | debug
  | trace
deriving DecidableEq, Repr

/-- The level in words. -/
def Level.text : Level → String
  | .warn => "WARN"
  | .debug => "DEBUG"
  | .trace => "TRACE"

/-- Where a new block in use came from. -/
inductive Origin
  /-- A free block. -/
  | reused
  /-- New bytes of the arena. -/
  | grown
deriving DecidableEq, Repr

/-- The origin in words. -/
def Origin.text : Origin → String
  | .reused => "reused"
  | .grown => "grown"

/-- Something that happened to a heap. -/
inductive Record
  /-- A heap was built. -/
  | created (head tail arenaBytes : Nat)
  /-- The arena was refused `size` bytes more. -/
  | growthFailed (size : Nat) (error : HeapError)
  /-- The arena grew by `size` bytes, which became the block at `block`. -/
  | heapGrown (size block : Nat)
  /-- A free block was listed. -/
  | merged (block : Nat) (result : Merge)
  /-- `need` bytes at `block` were made a block in use. -/
  | carved (block total need : Nat) (result : Carving)
  /-- A request for `size` bytes was served by the block at `block`. -/
  | allocated (size block : Nat) (origin : Origin)
  /-- A request for `size` bytes was refused. -/
  | allocationFailed (size : Nat)
  /-- A block of `size` bytes became free. -/
  | released (block size : Nat)
  /-- A block was resized to hold `size` bytes without growing. -/
  | shrunk (block size : Nat)
  /-- A block was resized to hold `size` bytes by taking space of the one above. -/
  | grewInto (block size next : Nat)
  /-- A block was resized to hold `size` bytes by moving it. -/
  | moved (block size target : Nat)
  /-- A request for `count` times `size` bytes overflowed. -/
  | productWrapped (count size : Nat)
  /-- The audit passed a block. -/
  | passed (span : Span)
  /-- The audit passed the heap. -/
  | audited (report : Report)
deriving DecidableEq, Repr

namespace Record

/-- How serious the record is. -/
def level : Record → Level
  | .growthFailed .. | .allocationFailed .. | .productWrapped .. => .warn
  | .created .. | .heapGrown .. | .passed .. | .audited .. => .debug
  | .merged .. | .carved .. | .allocated .. | .released .. | .shrunk .. | .grewInto ..
  | .moved .. => .trace

/-- What a report says, field by field. -/
def reportText (r : Report) : String :=
  "HeapReport \x7b blocks: " ++ toString r.blocks ++ ", free_blocks: " ++ toString r.freeBlocks ++
    ", free_bytes: " ++ toString r.freeBytes ++ ", used_bytes: " ++ toString r.usedBytes ++
    ", arena_bytes: " ++ toString r.arenaBytes ++ " \x7d"

/-- The record in words. -/
def text : Record → String
  | .created head tail bytes =>
    s!"heap initialised: head={hexText head} tail={hexText tail} arena={bytes} bytes"
  | .growthFailed size error => s!"heap growth by {size} bytes failed: {error.message}"
  | .heapGrown size block => s!"heap grown by {size} bytes: new block at {hexText block}"
  | .merged block r =>
    s!"coalesce {hexText block}: prev_free={r.withPrev} next_free={r.withNext} -> " ++
      s!"{hexText r.block} ({r.size} bytes)"
  | .carved block _ need (.split rest size) =>
    s!"split {hexText block}: {need} used, {size} left at {hexText rest}"
  | .carved block total need .whole =>
    s!"consumed {hexText block} whole: {total} bytes for {need}"
  | .allocated size block origin => s!"allocate({size}) -> {hexText block} ({origin.text})"
  | .allocationFailed size => s!"allocate({size}) -> out of memory"
  | .released block size => s!"release({hexText block}) {size} bytes"
  | .shrunk block size => s!"resize({hexText block}, {size}) shrank in place"
  | .grewInto block size next => s!"resize({hexText block}, {size}) grew into {hexText next}"
  | .moved block size target =>
    s!"resize({hexText block}, {size}) moved to {hexText target}"
  | .productWrapped count size =>
    s!"zero_allocate({count}, {size}): size overflows, wrapping"
  | .passed span =>
    s!"{hexText span.offset}: {span.size} bytes " ++ if span.free then "free" else "used"
  | .audited report => reportText report

/-- The line of the log that the record makes. -/
def line (r : Record) : String := r.level.text ++ " " ++ r.text

end Record

end TaggedHeap
