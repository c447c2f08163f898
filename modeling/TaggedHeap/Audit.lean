import TaggedHeap.Heap.Chain

/-!
# Auditing a heap

The audit walks the blocks by address and the list of free blocks by its links, and answers the
first broken rule it finds, or a `Report` that counts the blocks.  It does not rely on the
metadata it reads: a header is only read once it is known to lie inside the arena, and the walk
along the list ends at the latest when every free block has been met.

`Heap.audit` also answers the blocks that passed, whatever came after them.
-/

namespace TaggedHeap

/-- What a heap that passes the audit holds. -/
structure Report where
  /-- Blocks, sentinels excluded. -/
  blocks : Nat
  /-- Blocks that are free. -/
  freeBlocks : Nat
  /-- Bytes in free blocks. -/
  freeBytes : Nat
  /-- Bytes in blocks in use. -/
  usedBytes : Nat
  /-- Bytes in the arena. -/
  arenaBytes : Nat
deriving DecidableEq, Repr

/-- A block that passed the walk by address. -/
structure Span where
  /-- The offset of its header. -/
  offset : Nat
  /-- Its size. -/
  size : Nat
  /-- It is free. -/
  free : Bool
deriving DecidableEq, Repr

/-- The verdict that the metadata at `offset` is damaged. -/
def Damage.found {α : Type} (damage : Damage) (offset : Nat) : Except Stop α :=
  .error (.failed (.corrupted offset damage))

/-- Bytes of the given blocks. -/
def Span.totalSize (spans : List Span) : Nat := spans.foldr (fun x total => x.size + total) 0

namespace Heap

variable (h : Heap)

/-- The tag at `block`, if it lies inside the arena. -/
def checkedTag (block : Nat) : Except Stop Tag := do
  let stop ← Stop.ofFault (Address.add block wordBytes)
  if h.arena.size < stop then Damage.tagOutside.found block
  Stop.ofFault (h.tag block)

/-- Passes the sentinel at `block` if it carries its tags. -/
def checkSentinel (block : Nat) : Except Stop Unit := do
  let t ← h.checkedTag block
  if t ≠ (← Stop.ofFault (Tag.pack h.layout.minBlock true)) then Damage.sentinelTag.found block
  let footer ← Stop.ofFault (footerOf block t.size)
  if (← Stop.ofFault (h.tag footer)) ≠ t then Damage.sentinelTag.found block

/-! ### The walk by address -/

/-- Passes the block at `block`, which should start at `start`; `afterFree` says that the block
below is free. -/
def checkBlock (block start : Nat) (afterFree : Bool) : Except Stop Span := do
  if block ≠ start then Damage.chainBroken.found block
  let t ← h.checkedTag block
  if t.size < h.layout.minBlock ∨ t.size % h.layout.alignment ≠ 0 then
    Damage.sizeClass.found block
  let stop ← Stop.ofFault (Address.add block t.size)
  if h.arena.size < (← Stop.ofFault (Address.add stop wordBytes)) then
    Damage.pastArena.found block
  if (← Stop.ofFault (h.tag (← Stop.ofFault (Address.sub stop wordBytes)))) ≠ t then
    Damage.tagsDisagree.found block
  if t.isFree ∧ afterFree then Damage.adjacentFree.found block
  return { offset := block, size := t.size, free := t.isFree }

/-- Walks the blocks from the given one on, which should start at `start`.  Answers the blocks
that passed and where the last one ends. -/
def checkChain : (limit : Nat) → Option Nat → (start : Nat) → (afterFree : Bool) →
    List Span × Except Stop Nat
  | _, none, start, _ => ([], .ok start)
  | 0, some _, _, _ => ([], .error (.fault .endless))
  | limit + 1, some block, start, afterFree =>
    match h.checkBlock block start afterFree with
    | .error e => ([], .error e)
    | .ok span =>
      match h.nextBlock? block with
      | .error f => ([span], .error (.fault f))
      | .ok next =>
        let (spans, stop) := checkChain limit next (block + span.size) span.free
        (span :: spans, stop)

/-! ### The walk along the list -/

/-- Passes the block that the list holds after `before`, which should be one of `free` or the
tail sentinel. -/
def checkListed (free : List Nat) (before : Nat) : Except Stop Nat := do
  match ← Stop.ofFault (h.neighbour? before .next) with
  | none => Damage.listEnds.found before
  | some block =>
    if h.arena.size < block + 3 * wordBytes ∨ Address.space ≤ block + 3 * wordBytes then
      Damage.linkOutside.found before
    if (← Stop.ofFault (h.neighbour? block .prev)) ≠ some before then
      Damage.backLink.found block
    if block ≠ h.tail ∧ block ∉ free then Damage.notFree.found block
    return block

/-- Walks the list after `before` up to the tail sentinel; `unmet` of the blocks in `free` have
not been met yet. -/
def checkList (free : List Nat) : (unmet : Nat) → (before : Nat) → Except Stop Unit
  | 0, before => do
    let block ← h.checkListed free before
    if block ≠ h.tail then Damage.revisited.found block
  | unmet + 1, before => do
    let block ← h.checkListed free before
    if block = h.tail then Damage.notListed.found h.head
    checkList free unmet block

/-- Passes the list if it holds each of the blocks in `free` once and nothing else. -/
def checkRing (free : List Nat) : Except Stop Unit := do
  if (← Stop.ofFault (h.neighbour? h.head .prev)).isSome then
    Damage.sentinelLinks.found h.head
  if (← Stop.ofFault (h.neighbour? h.tail .next)).isSome then
    Damage.sentinelLinks.found h.head
  h.checkList free free.length h.head

/-! ### The audit -/

/-- What is left to check when the blocks that passed end at `stop`. -/
def concludeAudit (spans : List Span) (stop : Nat) : Except Stop Report := do
  if (← Stop.ofFault (Address.add stop wordBytes)) ≠ h.arena.size then
    Damage.topNotLast.found h.top
  let free := spans.filter Span.free
  let used := spans.filter (!·.free)
  h.checkRing (free.map Span.offset)
  return { blocks := spans.length, freeBlocks := free.length, freeBytes := Span.totalSize free,
           usedBytes := Span.totalSize used, arenaBytes := h.arena.size }

/-- What is checked before the walk by address: the sentinels.  Answers the first block. -/
def beginAudit : Except Stop (Option Nat) := do
  h.checkSentinel h.head
  h.checkSentinel h.tail
  Stop.ofFault (h.nextBlock? h.tail)

/-- Audits the heap.  Answers the blocks that passed the walk by address, and the verdict. -/
def audit : List Span × Except Stop Report :=
  match h.beginAudit with
  | .error e => ([], .error e)
  | .ok first =>
    match h.checkChain (h.arena.size + 1) first h.firstBlock false with
    | (spans, .error e) => (spans, .error e)
    | (spans, .ok stop) => (spans, h.concludeAudit spans stop)

/-- The verdict of the audit. -/
def check : Except Stop Report := h.audit.2

end Heap

end TaggedHeap
