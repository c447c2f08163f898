import TaggedHeap.Layout

/-!
# Errors

A `HeapError` is an answer: memory ran out, a layout is not valid, or the audit found damaged
metadata.  A `Stop` is either such an error or a `Fault`, and is what ends an operation early.

Offsets are written in messages as `0x` and their lower case hexadecimal digits, without leading
zeros (`hexText`).
-/

namespace TaggedHeap

/-- The digits of `n` in base sixteen, most significant first. -/
def hexDigits (n : Nat) : String := String.ofList (Nat.toDigits 16 n)

/-- An offset as messages write it. -/
def hexText (n : Nat) : String := "0x" ++ hexDigits n

/-- What the audit of a heap can find broken. -/
inductive Damage
  /-- A boundary tag does not lie inside the arena. -/
  | tagOutside
  /-- A sentinel does not carry its tags. -/
  | sentinelTag
  /-- The walk by address arrives elsewhere than at the end of the block before. -/
  | chainBroken
  /-- A block has a size that no block may have. -/
  | sizeClass
  /-- A block does not end inside the arena. -/
  | pastArena
  /-- A header differs from its footer. -/
  | tagsDisagree
  /-- Two neighbours are free. -/
  | adjacentFree
  /-- The blocks do not end where the arena does. -/
  | topNotLast
  /-- The list goes on before the head sentinel or after the tail sentinel. -/
  | sentinelLinks
  /-- The list stops before the tail sentinel. -/
  | listEnds
  /-- A link leads outside the arena. -/
  | linkOutside
  /-- A link back does not lead to where the walk came from. -/
  | backLink
  /-- The list holds something that is not a free block. -/
  | notFree
  /-- The list holds a block twice. -/
  | revisited
  /-- The list lacks a free block. -/
  | notListed
deriving DecidableEq, Repr

/-- The damage in words. -/
def Damage.text : Damage → String
  | .tagOutside => "boundary tag outside the arena"
  | .sentinelTag => "sentinel tag overwritten"
  | .chainBroken => "topmost pointer does not match the block chain"
  | .sizeClass => "block size is not a valid size class"
  | .pastArena => "block extends past the arena"
  | .tagsDisagree => "header and footer disagree"
  | .adjacentFree => "adjacent free blocks"
  | .topNotLast => "topmost block does not end the arena"
  | .sentinelLinks => "sentinel links overwritten"
  | .listEnds => "free list ends before the tail sentinel"
  | .linkOutside => "free list link outside the arena"
  | .backLink => "free list back link mismatch"
  | .notFree => "listed block is not a free block"
  | .revisited => "free list revisits a block"
  | .notListed => "free block missing from the free list"

/-- An error that a heap or an arena answers. -/
inductive HeapError
  /-- The arena could not supply `requested` bytes; the heap is as it was. -/
  | outOfMemory (requested : Nat)
  /-- A heap cannot be built with the layout. -/
  | invalidLayout (flaw : LayoutFlaw)
  /-- The metadata of the block at `offset` is broken. -/
  | corrupted (offset : Nat) (damage : Damage)
deriving DecidableEq, Repr

namespace HeapError

/-- The message when `requested` bytes cannot be had. -/
def outOfMemoryText (requested : Nat) : String :=
  "out of memory: requested " ++ toString requested ++ " bytes"

/-- The message for a layout that violates the constraint `reason`. -/
def invalidLayoutText (reason : String) : String := "invalid heap configuration: " ++ reason

/-- The message for metadata at `offset` that breaks the rule `reason`. -/
def corruptedText (offset : Nat) (reason : String) : String :=
  "heap corrupted at offset " ++ hexText offset ++ ": " ++ reason

/-- The error in words. -/
def message : HeapError → String
  | .outOfMemory requested => outOfMemoryText requested
  | .invalidLayout flaw => invalidLayoutText flaw.text
  | .corrupted offset damage => corruptedText offset damage.text

end HeapError

/-- What ends an operation before it has an answer. -/
inductive Stop
  /-- The operation cannot be carried out. -/
  | fault (fault : Fault)
  /-- The operation answers an error. -/
  | failed (error : HeapError)
deriving DecidableEq, Repr

/-- A computation that can fault, as one that can also answer an error. -/
def Stop.ofFault {α : Type} : Except Fault α → Except Stop α
  | .ok a => .ok a
  | .error f => .error (.fault f)

end TaggedHeap
