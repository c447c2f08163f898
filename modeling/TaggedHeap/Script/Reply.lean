import TaggedHeap.Audit

/-!
# Replies

What the steps of a script answer.  A digest names the content of a payload or an arena without
spelling it out.  It is the 64-bit FNV-1a hash: each byte is xored into the state, which is then
multiplied by a fixed prime.
-/

namespace TaggedHeap

namespace Digest

/-- The state before the first byte. -/
def seed : UInt64 := 0xcbf29ce484222325

/-- The multiplier of every step. -/
def prime : UInt64 := 0x100000001b3

/-- Takes one more byte in. -/
def step (state : UInt64) (byte : UInt8) : UInt64 := (state ^^^ byte.toUInt64) * prime

/-- The digest of a list of bytes. -/
def ofBytes (bytes : List UInt8) : UInt64 := bytes.foldl step seed

end Digest

/-- The answer of a step. -/
inductive Reply
  /-- There is nothing to say. -/
  | nothing
  /-- An offset or a size. -/
  | number (n : Nat)
  /-- Some bytes. -/
  | bytes (content : List UInt8)
  /-- The digest of some bytes. -/
  | digest (value : UInt64)
  /-- Some blocks. -/
  | blocks (list : List Block)
  /-- What an audit counted. -/
  | report (report : Report)
  /-- The layout of the heap. -/
  | layout (layout : Layout)
deriving DecidableEq, Repr

namespace Reply

/-- A number that may be missing. -/
def ofNumber? : Option Nat → Reply
  | none => nothing
  | some n => number n

/-- The pointer that a request was answered with. -/
def ofPointer? (p : Option Pointer) : Reply := ofNumber? (p.map Pointer.offset)

end Reply

end TaggedHeap
