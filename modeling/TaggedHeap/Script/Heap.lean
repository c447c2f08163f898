import TaggedHeap.Script.Reply
import TaggedHeap.Session.Request

/-!
# Scripts for a heap

A script is a list of steps on one heap: requests of its users, looks at its blocks, and
interference from outside, which may damage it.  Steps refer to pointers by the names under
which the answers of earlier requests were stored.

Each step leaves an entry with its answer, the state of the heap and what was logged.  The
script ends early at a step that faults, and when the heap cannot be built anew.
-/

namespace TaggedHeap

/-- How a step refers to a pointer. -/
inductive Operand
  /-- What was stored under a name, no pointer if nothing was. -/
  | named (name : String)
  /-- No pointer. -/
  | null
  /-- The pointer with the given offset. -/
  | offset (n : Nat)
deriving DecidableEq, Repr

/-- A step of a script for a heap. -/
inductive HeapStep
  /-- Allocates a block and stores the pointer under a name. -/
  | allocate (size : Nat) (name : Option String)
  /-- Allocates a cleared block and stores the pointer under a name. -/
  | zeroAllocate (count size : Nat) (name : Option String)
  /-- Resizes a block and stores the pointer under a name. -/
  | resize (p : Operand) (size : Nat) (name : Option String)
  /-- Releases a block. -/
  | release (p : Operand)
  /-- Asks how many bytes of a block are usable. -/
  | usable (p : Operand)
  /-- Asks where a payload lies, counted from the first byte of the arena. -/
  | address (p : Operand)
  /-- Fills the first `count` bytes of a payload, or all, with ascending values. -/
  | fill (p : Operand) (seed : Nat) (count : Option Nat)
  /-- Reads the first `count` bytes of a payload, or all. -/
  | read (p : Operand) (count : Option Nat)
  /-- Asks for the digest of a payload. -/
  | digest (p : Operand)
  /-- Lists the blocks by address. -/
  | blocks
  /-- Lists the free blocks. -/
  | freeBlocks
  /-- Audits the heap. -/
  | audit (verbose : Bool)
  /-- Asks for the layout. -/
  | layout
  /-- Asks for the limit of the arena. -/
  | limit
  /-- Reads bytes of the arena, up to `stop` or to its end. -/
  | bytes (start : Nat) (stop : Option Nat)
  /-- Asks for the digest of the arena. -/
  | arenaDigest
  /-- Overwrites a word of the arena. -/
  | poke (pos : Nat) (word : UInt32)
  /-- Grows the arena without the heap taking part. -/
  | growArena (n : Nat)
  /-- Cuts the arena down to its first `n` bytes. -/
  | truncateArena (n : Nat)
  /-- Builds a new heap at the end of the arena, by default with the same layout. -/
  | rebuild (layout : Option Layout)
deriving DecidableEq, Repr

/-- The pointers stored so far, the latest first. -/
abbrev PointerTable := List (String × Option Pointer)

/-- The pointer that an operand refers to. -/
def Operand.resolve (table : PointerTable) : Operand → Option Pointer
  | named name => (table.lookup name).join
  | null => none
  | offset n => some ⟨n⟩

/-- How many blocks a step lists at most. -/
def listingLimit : Nat := 512

/-- How many free blocks the state of a heap lists at most. -/
def stateLimit : Nat := 40

/-- The state of a heap between two steps. -/
structure HeapState where
  /-- Bytes in the arena. -/
  size : Nat
  /-- The header of the topmost block. -/
  top : Nat
  /-- What an audit finds. -/
  verdict : Except Stop Report
  /-- The free blocks. -/
  free : Except Fault (List Block)

/-- The state of a heap. -/
def Heap.state (h : Heap) : HeapState where
  size := h.arena.size
  top := h.top
  verdict := h.check
  free := h.freeBlocks stateLimit

/-- What a step of a script for a heap left. -/
structure HeapEntry where
  /-- The answer of the step. -/
  reply : Except Stop Reply
  /-- The heap afterwards, if the script goes on. -/
  state : Option HeapState
  /-- What the step logged. -/
  log : Array Record

open SessionM

/-- Fills the first `count` bytes of a payload, or all, with ascending values. -/
def fillPayload (p : Pointer) (seed : Nat) (count : Option Nat) : SessionM Nat := do
  let count ←
    match count with
    | some count => pure count
    | none => ask (·.usableSize p)
  alter (·.setPayload p count fun i => UInt8.ofNat (seed + i))
  return count

/-- Reads the first `count` bytes of a payload, or all. -/
def readPayload (p : Pointer) (count : Option Nat) (h : Heap) : Except Fault (List UInt8) := do
  let content ← h.payload p
  match count with
  | none => return content
  | some count => if count ≤ content.length then return content.take count else throw .outOfBounds

/-- Builds a new heap at the end of the arena. -/
def rebuild (layout : Option Layout) : SessionM Unit := do
  let old := (← get).heap
  match Heap.create (layout.getD old.layout) old.arena old.exactLinks with
  | .error e => throw e
  | .ok h =>
    modify fun s => { s with heap := h }
    note (.ofCreated h)

/-- Answers a question about a payload; without a pointer there is nothing to say. -/
def onPayload (p : Option Pointer) (question : Pointer → SessionM Reply) : SessionM Reply :=
  match p with
  | none => return .nothing
  | some p => question p

namespace HeapStep

/-- Where the step stores the pointer it answers. -/
def name? : HeapStep → Option String
  | allocate _ name | zeroAllocate _ _ name | resize _ _ name => name
  | _ => none

/-- An error of the step leaves no heap to go on with. -/
def isFinal : HeapStep → Bool
  | rebuild _ => true
  | _ => false

/-- A step that answers a pointer. -/
def request? (table : PointerTable) : HeapStep → Option (SessionM (Option Pointer))
  | allocate size _ => some (TaggedHeap.allocate size)
  | zeroAllocate count size _ => some (TaggedHeap.zeroAllocate count size)
  | resize p size _ => some (TaggedHeap.resize (p.resolve table) size)
  | _ => none

/-- A step that answers anything else. -/
def act (table : PointerTable) : HeapStep → SessionM Reply
  | allocate .. | zeroAllocate .. | resize .. => return .nothing
  | release p => do
    TaggedHeap.release (p.resolve table)
    return .nothing
  | usable p => onPayload (p.resolve table) fun p => do
    return .number (← ask (·.usableSize p))
  | address p => onPayload (p.resolve table) fun p => return .number p.offset
  | fill p seed count => onPayload (p.resolve table) fun p => do
    return .number (← fillPayload p seed count)
  | read p count => onPayload (p.resolve table) fun p => do
    return .bytes (← ask (readPayload p count))
  | digest p => onPayload (p.resolve table) fun p => do
    return .digest (Digest.ofBytes (← ask (·.payload p)))
  | blocks => return .blocks (← ask (·.blocks listingLimit))
  | freeBlocks => return .blocks (← ask (·.freeBlocks listingLimit))
  | audit verbose => return .report (← auditHeap verbose)
  | layout => return .layout (← get).heap.layout
  | limit => return .ofNumber? (← get).heap.arena.limit?
  | bytes start stop => do
    let arena := (← get).heap.arena
    return .bytes (← calculate (arena.slice start (stop.getD arena.size)))
  | arenaDigest => return .digest (Digest.ofBytes (← get).heap.arena.bytes.toList)
  | poke pos word => do
    alter (·.setWord pos word)
    return .nothing
  | growArena n => return .number (← SessionM.growArena n)
  | truncateArena n => do
    modify fun s => { s with heap := { s.heap with arena := s.heap.arena.truncate n } }
    return .nothing
  | rebuild newLayout => do
    TaggedHeap.rebuild newLayout
    return .nothing

/-- Carries a step out, and answers the pointers stored afterwards as well. -/
def run (table : PointerTable) (step : HeapStep) : SessionM (Reply × PointerTable) :=
  match step.request? table with
  | none => return (← step.act table, table)
  | some request => do
    let p ← request
    let table :=
      match step.name? with
      | none => table
      | some name => (name, p) :: table
    return (.ofPointer? p, table)

/-- Carries steps out one after the other, as long as there is a heap to go on with. -/
def runAll (table : PointerTable) (h : Heap) : List HeapStep → List HeapEntry
  | [] => []
  | step :: steps =>
    match step.run table { heap := h } with
    | .ok (reply, table) s =>
      { reply := .ok reply, state := some s.heap.state, log := s.log } ::
        runAll table s.heap steps
    | .error e s =>
      match e, step.isFinal with
      | .failed _, false =>
        { reply := .error e, state := some s.heap.state, log := s.log } ::
          runAll table s.heap steps
      | _, _ => [{ reply := .error e, state := none, log := s.log }]

end HeapStep

/-! ### Whole scripts -/

/-- How the arena of a script for a heap starts out: grown by a number of bytes, which may be
set to a value. -/
structure Preparation where
  /-- Bytes to grow by. -/
  size : Nat
  /-- What to set them to. -/
  value : Option UInt8 := none
deriving DecidableEq, Repr

/-- Prepares an arena. -/
def Preparation.run (p : Preparation) (a : Arena) : Except Stop Arena :=
  match Arena.grow p.size a with
  | .error e _ => .error e
  | .ok offset a =>
    match p.value with
    | none => .ok a
    | some value => Stop.ofFault (a.write offset (List.replicate p.size value))

/-- A script for a heap. -/
structure HeapScript where
  /-- The arena to start from. -/
  arena : Arena
  /-- What is done to the arena before. -/
  preparation : Option Preparation
  /-- The layout of the heap. -/
  layout : Layout
  /-- The steps. -/
  steps : List HeapStep

/-- What a script for a heap left. -/
structure HeapTranscript where
  /-- The heap after it was built. -/
  state : HeapState
  /-- What building it logged. -/
  log : Array Record
  /-- What the steps left. -/
  entries : List HeapEntry

/-- Carries a script out, if its heap can be built. -/
def HeapScript.run (script : HeapScript) : Except Stop HeapTranscript := do
  let arena ←
    match script.preparation with
    | none => pure script.arena
    | some p => p.run script.arena
  let s ← Session.create script.layout arena
  return { state := s.heap.state, log := s.log,
           entries := HeapStep.runAll [] s.heap script.steps }

end TaggedHeap
