import TaggedHeap.Heap.Prologue
import TaggedHeap.Session.Record

/-!
# Sessions

A session is a heap together with the log of what happened to it.  Computations in `SessionM`
work on a session.  One that ends early, by a `Stop`, leaves what it did to the heap and what it
logged until then.
-/

namespace TaggedHeap

/-- A heap and its log. -/
structure Session where
  /-- The heap. -/
  heap : Heap
  /-- The records so far, oldest first. -/
  log : Array Record := #[]

/-- A computation on a session. -/
abbrev SessionM := EStateM Stop Session

/-- What is logged when a heap has been built. -/
def Record.ofCreated (h : Heap) : Record := .created h.head h.tail h.arena.size

/-- Builds a heap at the end of an arena and begins a session with it. -/
def Session.create (layout : Layout) (arena : Arena) (exactLinks : Bool := false) :
    Except Stop Session := do
  let h ← Heap.create layout arena exactLinks
  return { heap := h, log := #[.ofCreated h] }

namespace SessionM

variable {α : Type}

/-- Logs a record. -/
def note (r : Record) : SessionM Unit := modify fun s => { s with log := s.log.push r }

/-- Ends with an error. -/
def fail (e : HeapError) : SessionM α := throw (.failed e)

/-- Looks something up in the heap. -/
def ask (query : Heap → Except Fault α) : SessionM α := fun s =>
  match query s.heap with
  | .ok a => .ok a s
  | .error f => .error (.fault f) s

/-- Carries out a calculation. -/
def calculate (result : Except Fault α) : SessionM α := ask fun _ => result

/-- Changes the heap, and answers what came of it. -/
def edit (change : Heap → Except Fault (α × Heap)) : SessionM α := fun s =>
  match change s.heap with
  | .ok (a, heap) => .ok a { s with heap }
  | .error f => .error (.fault f) s

/-- Changes the heap. -/
def alter (change : Heap → Except Fault Heap) : SessionM Unit :=
  edit fun h => return ((), ← change h)

/-- Grows the arena by `n` bytes and answers the offset of the first of them. -/
def growArena (n : Nat) : SessionM Nat := fun s =>
  match Arena.grow n s.heap.arena with
  | .ok offset arena => .ok offset { s with heap := { s.heap with arena } }
  | .error e arena => .error e { s with heap := { s.heap with arena } }

/-- Logs a record if the computation ends with an error, which stands. -/
def noteError (act : SessionM α) (record : HeapError → Record) : SessionM α := fun s =>
  match act s with
  | .error (.failed e) s => .error (.failed e) { s with log := s.log.push (record e) }
  | result => result

end SessionM

end TaggedHeap
