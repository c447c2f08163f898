/-!
# Offsets, sizes and faults

Offsets into an arena and sizes of blocks are natural numbers below `Address.space`.  `add` and
`sub` leave that range by a `Fault`, and so does every access outside an arena: a fault stands
for an operation that cannot be carried out at all, as opposed to a request that is refused.
-/

namespace TaggedHeap

/-- Why an operation cannot be carried out. -/
inductive Fault
  /-- A sum does not fit the address space. -/
  | overflow
  /-- A difference is below zero. -/
  | underflow
  /-- An access reaches outside the arena. -/
  | outOfBounds
  /-- A size is odd or too large for a boundary tag. -/
  | untaggable
  /-- A link is not a whole number of words that fits its slot. -/
  | inexactLink
  /-- A buffer would outgrow what one allocation can hold. -/
  | capacity
  /-- A walk visits more blocks than the arena can hold, so it would never end. -/
  | endless
deriving DecidableEq, Repr

namespace Address

/-- One past the largest offset or size, which fit 64 bits. -/
def space : Nat := 0x1_0000_0000_0000_0000

/-- The sum of two offsets or sizes. -/
def add (a b : Nat) : Except Fault Nat :=
  if a + b < space then .ok (a + b) else .error .overflow

/-- The difference of two offsets or sizes. -/
def sub (a b : Nat) : Except Fault Nat :=
  if b ≤ a then .ok (a - b) else .error .underflow

/-- An offset read as a signed number: the upper half of the space stands for negative ones. -/
def signed (a : Nat) : Int :=
  if 2 * a < space then a else a - space

/-- The offset `distance` bytes away from `a`, around the end of the space if need be. -/
def wrappingOffset (a : Nat) (distance : Int) : Nat :=
  ((a + distance) % space).toNat

theorem add_eq_ok_iff {a b c : Nat} : add a b = .ok c ↔ a + b < space ∧ c = a + b := by
  unfold add
  split <;> simp [*, eq_comm]

theorem sub_eq_ok_iff {a b c : Nat} : sub a b = .ok c ↔ b ≤ a ∧ c = a - b := by
  unfold sub
  split <;> simp [*, eq_comm]

end Address

end TaggedHeap
