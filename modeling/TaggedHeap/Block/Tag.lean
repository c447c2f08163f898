import TaggedHeap.Layout

/-!
# Boundary tags

Every block starts and ends with a word that packs its size and whether it is in use.  Sizes
are even, so the lowest bit is free to hold the flag.  `Tag.pack` refuses sizes that a tag
cannot hold; for the others reading gives back what was packed (`size_of_pack`,
`isUsed_of_pack`).
-/

namespace TaggedHeap

/-- A boundary tag. -/
structure Tag where
  /-- The word in memory. -/
  raw : UInt32
deriving DecidableEq, Repr

namespace Tag

/-- Bytes of the tagged block, header and footer included. -/
def size (t : Tag) : Nat := t.raw.toNat / 2 * 2

/-- The tagged block is in use. -/
def isUsed (t : Tag) : Bool := t.raw.toNat % 2 = 1

/-- The tagged block is free. -/
def isFree (t : Tag) : Bool := !t.isUsed

/-- The tag of a block of `size` bytes; a fault if no tag holds the size. -/
def pack (size : Nat) (used : Bool) : Except Fault Tag :=
  if size % 2 = 0 ∧ size ≤ maxTagged then .ok ⟨UInt32.ofNat (size + used.toNat)⟩
  else .error .untaggable

theorem pack_eq_ok_iff {size : Nat} {used : Bool} {t : Tag} :
    pack size used = .ok t ↔ size % 2 = 0 ∧ size ≤ maxTagged ∧
      t = ⟨UInt32.ofNat (size + used.toNat)⟩ := by
  unfold pack
  split
  · rename_i h
    simp [h, eq_comm]
  · rename_i h
    simp only [reduceCtorEq, false_iff]
    exact fun ⟨h₁, h₂, _⟩ => h ⟨h₁, h₂⟩

theorem size_of_pack {size : Nat} {used : Bool} {t : Tag} (h : pack size used = .ok t) :
    t.size = size := by
  obtain ⟨h₁, h₂, rfl⟩ := pack_eq_ok_iff.1 h
  have : used.toNat ≤ 1 := Bool.toNat_le used
  simp only [Tag.size, UInt32.toNat_ofNat', maxTagged] at *
  omega

theorem isUsed_of_pack {size : Nat} {used : Bool} {t : Tag} (h : pack size used = .ok t) :
    t.isUsed = used := by
  obtain ⟨h₁, h₂, rfl⟩ := pack_eq_ok_iff.1 h
  simp only [Tag.isUsed, UInt32.toNat_ofNat', maxTagged] at *
  cases used <;> simp <;> omega

end Tag

end TaggedHeap
