import TaggedHeap.Heap.Ring

/-!
# Building a heap

A heap is built at the end of an arena, whatever the arena holds already.  The arena grows once,
by the padding that aligns the first payload and by the two sentinels, which start out as each
other's neighbours in the list of free blocks.
-/

namespace TaggedHeap

namespace Heap

/-- The two sentinels of a heap that has just been given the room for them. -/
def writeSentinels (h : Heap) : Except Fault Heap := do
  let h ← h.setTags h.head h.layout.minBlock true
  let h ← h.setTags h.tail h.layout.minBlock true
  let h ← h.splice h.head h.tail
  let h ← h.clearLink h.head .prev
  h.clearLink h.tail .next

/-- Builds a heap with a valid layout at the end of an arena. -/
def createValid (layout : Layout) (valid : layout.Valid) (arena : Arena) (exactLinks : Bool) :
    Except Stop Heap := do
  let start := arena.size
  let aligned ← Stop.ofFault (roundUp start layout.alignment)
  let pad ← Stop.ofFault (Address.sub aligned start)
  let bytes ← Stop.ofFault (Address.add pad layout.prologueBytes)
  if maxTagged < start + bytes then throw (.failed (.outOfMemory bytes))
  match Arena.grow bytes arena with
  | .error e _ => throw e
  | .ok offset arena =>
    let base ← Stop.ofFault (Address.add offset pad)
    let payload ← Stop.ofFault (Address.add base layout.alignment)
    let head ← Stop.ofFault (Address.sub payload wordBytes)
    let tail ← Stop.ofFault (Address.add head layout.minBlock)
    Stop.ofFault { arena, layout, valid, head, top := tail, exactLinks : Heap }.writeSentinels

/-- Builds a heap at the end of an arena, if the layout admits one. -/
def create (layout : Layout) (arena : Arena) (exactLinks : Bool := false) : Except Stop Heap :=
  match valid : layout.flaw? with
  | some flaw => .error (.failed (.invalidLayout flaw))
  | none => createValid layout (Layout.flaw?_eq_none_iff.1 valid) arena exactLinks

end Heap

end TaggedHeap
