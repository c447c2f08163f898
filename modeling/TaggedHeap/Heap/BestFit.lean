import TaggedHeap.Heap.Chain

/-!
# Best fit

A request is served from the smallest free block that is large enough, the first one in the
list among several of that size (`bestFit?`).  The search walks the list and stops early at a
block of exactly the size asked for.
-/

namespace TaggedHeap

/-- A free block that the search may settle for. -/
structure Candidate where
  /-- Its header. -/
  block : Nat
  /-- Its size. -/
  size : Nat
deriving DecidableEq, Repr

namespace Heap

variable (h : Heap)

/-- The tagged block at `block` is free, holds `need` bytes and is smaller than `best`. -/
def improves (need : Nat) (t : Tag) (best : Option Candidate) : Bool :=
  t.isFree && decide (need ≤ t.size) && best.all fun c => decide (t.size < c.size)

/-- The best of `best` and the blocks of the list from the given one on, of which at most
`limit` are looked at. -/
def bestFitFrom (need : Nat) :
    (limit : Nat) → (best : Option Candidate) → Option Nat → Except Fault (Option Candidate)
  | _, best, none => return best
  | 0, _, some _ => throw .endless
  | limit + 1, best, some block => do
    let t ← h.tag block
    if improves need t best then
      if t.size = need then return some ⟨block, t.size⟩
      bestFitFrom need limit (some ⟨block, t.size⟩) (← h.neighbour? block .next)
    else
      bestFitFrom need limit best (← h.neighbour? block .next)

/-- The smallest free block of at least `need` bytes.  A list of more blocks than the arena has
bytes runs in a circle. -/
def bestFit? (need : Nat) : Except Fault (Option Nat) := do
  let best ← h.bestFitFrom need (h.arena.size + 1) none (← h.neighbour? h.head .next)
  return best.map Candidate.block

end Heap

end TaggedHeap
