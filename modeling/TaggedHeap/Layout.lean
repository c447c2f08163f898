import TaggedHeap.Address.Rounding

/-!
# Heap layouts

A layout fixes the alignment of payloads and the smallest block of a heap.  Every block size is
a multiple of the alignment (`blockSizeFor?`), and no block is smaller than the smallest one,
which is also the least remainder that is split off a block.

`Layout.flaw?` names the first constraint a layout violates; `Layout.Valid` states that there is
none (`flaw?_eq_none_iff`).
-/

namespace TaggedHeap

/-- Bytes in a word: a boundary tag or a free-list link. -/
abbrev wordBytes : Nat := 4

/-- Bytes of every block that are not payload: its header and its footer. -/
abbrev overhead : Nat := 2 * wordBytes

/-- The largest size a boundary tag can hold, and the largest arena a heap grows to. -/
abbrev maxTagged : Nat := 0xFFFF_FFFF

/-- The parameters of a heap, fixed for its lifetime. -/
structure Layout where
  /-- Payload offsets and block sizes are multiples of this many bytes. -/
  alignment : Nat := 16
  /-- Bytes of the smallest block. -/
  minBlock : Nat := 4 * wordBytes
deriving DecidableEq, Repr, Inhabited

/-- A constraint on layouts. -/
inductive LayoutFlaw
  | alignment
  | blockTooSmall
  | blockUnaligned
  | blockTooLarge
deriving DecidableEq, Repr

/-- The constraint in words. -/
def LayoutFlaw.text : LayoutFlaw → String
  | .alignment => "alignment must be a power of two of at least two words"
  | .blockTooSmall => "minimum block size must hold a header, two links and a footer"
  | .blockUnaligned => "minimum block size must be a multiple of the alignment"
  | .blockTooLarge => "minimum block size does not fit in a boundary tag"

namespace Layout

/-- A layout that a heap can be built with. -/
structure Valid (l : Layout) : Prop where
  /-- The alignment is a power of two. -/
  isPowerOfTwo : 1 <<< l.alignment.log2 = l.alignment
  /-- The alignment is at least two words. -/
  two_words_le : 2 * wordBytes ≤ l.alignment
  /-- The smallest block holds a header, two links and a footer. -/
  four_words_le : 4 * wordBytes ≤ l.minBlock
  /-- The smallest block is a multiple of the alignment. -/
  minBlock_mod : l.minBlock % l.alignment = 0
  /-- The size of the smallest block fits a tag. -/
  minBlock_le : l.minBlock ≤ maxTagged

/-- The first constraint that the layout violates. -/
def flaw? (l : Layout) : Option LayoutFlaw :=
  if ¬ (1 <<< l.alignment.log2 = l.alignment ∧ 2 * wordBytes ≤ l.alignment) then some .alignment
  else if l.minBlock < 4 * wordBytes then some .blockTooSmall
  else if l.minBlock % l.alignment ≠ 0 then some .blockUnaligned
  else if maxTagged < l.minBlock then some .blockTooLarge
  else none

theorem flaw?_eq_none_iff {l : Layout} : l.flaw? = none ↔ l.Valid := by
  constructor
  · intro h
    unfold flaw? at h
    split at h <;> rename_i h1
    · cases h
    split at h <;> rename_i h2
    · cases h
    split at h <;> rename_i h3
    · cases h
    split at h <;> rename_i h4
    · cases h
    have ⟨h5, h6⟩ := Decidable.not_not.1 h1
    exact ⟨h5, h6, Nat.not_lt.1 h2, Decidable.not_not.1 h3, Nat.not_lt.1 h4⟩
  · rintro ⟨h1, h2, h3, h4, h5⟩
    simp only [flaw?, h1, h2, h4, Nat.not_lt.2 h3, Nat.not_lt.2 h5, and_self, not_true_eq_false,
      ne_eq, if_false]

instance (l : Layout) : Decidable l.Valid := decidable_of_iff _ flaw?_eq_none_iff

/-- The largest payload that a block of the smallest size has room for. -/
def smallPayload (l : Layout) : Nat := l.minBlock - overhead

/-- The size of a block for `size` bytes of payload, if the rounded size fits the address
space. -/
def blockSizeFor? (l : Layout) (size : Nat) : Option Nat :=
  if size ≤ l.smallPayload then some l.minBlock
  else if size + overhead < Address.space then roundUp? (size + overhead) l.alignment
  else none

/-- Bytes in front of the first block: room to align it, and the two sentinels. -/
def prologueBytes (l : Layout) : Nat := l.alignment + 2 * l.minBlock

end Layout

end TaggedHeap
