import TaggedHeap.Layout
import TaggedHeap.Memory.Word

/-!
# Free-list links

The list of free blocks is threaded through the first two payload words of its blocks.  Each
link is the distance from the header it belongs to, in words, to the header it leads to; zero
means that there is no such block.  Distances are relative, so a heap may lie anywhere in its
arena.

A distance that is not a whole number of words, or that does not fit a signed word, is not
`Exact`: what is stored for it leads elsewhere.
-/

namespace TaggedHeap

/-- The two directions of the list. -/
inductive Link
  | next
  | prev
deriving DecidableEq, Repr

namespace Link

/-- Where a link lies, counted from the header of its block. -/
def slot : Link → Nat
  | next => wordBytes
  | prev => 2 * wordBytes

/-- Bytes from the header at `block` to the one at `target`, negative when it lies below. -/
def distance (block target : Nat) : Int := Address.signed target - Address.signed block

/-- The distance is a whole number of words and fits a signed word. -/
def Exact (block target : Nat) : Prop :=
  distance block target % wordBytes = 0 ∧
    -0x8000_0000 ≤ distance block target / wordBytes ∧
    distance block target / wordBytes < 0x8000_0000

instance (block target : Nat) : Decidable (Exact block target) := by
  unfold Exact
  infer_instance

/-- The word that leads from the header at `block` to the one at `target`. -/
def encode (block target : Nat) : UInt32 :=
  Word.ofSigned ((distance block target).tdiv wordBytes)

/-- Where a link of the block at `block` leads, taken as the block itself when it is zero. -/
def resolve (block : Nat) (link : UInt32) : Nat :=
  Address.wrappingOffset block (Word.signed link * wordBytes)

end Link

end TaggedHeap
