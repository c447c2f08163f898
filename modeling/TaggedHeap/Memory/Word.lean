/-!
# Words

Memory is read and written in words of four bytes, least significant byte first.  A word is
taken as a number below `2 ^ 32`, or as a signed number in two's complement.

`Word.ofBytes_toBytes` and `Word.signed_ofSigned` say that neither reading loses anything.
-/

namespace TaggedHeap

namespace Word

/-- The bytes of a word, least significant first. -/
def toBytes (w : UInt32) : List UInt8 :=
  [UInt8.ofNat w.toNat, UInt8.ofNat (w.toNat / 0x100), UInt8.ofNat (w.toNat / 0x1_0000),
    UInt8.ofNat (w.toNat / 0x100_0000)]

/-- The word with the given bytes, least significant first. -/
def ofBytes (b₀ b₁ b₂ b₃ : UInt8) : UInt32 :=
  UInt32.ofNat (b₀.toNat + 0x100 * b₁.toNat + 0x1_0000 * b₂.toNat + 0x100_0000 * b₃.toNat)

/-- A word as a signed number. -/
def signed (w : UInt32) : Int :=
  if w.toNat < 0x8000_0000 then w.toNat else w.toNat - 0x1_0000_0000

/-- The word that stands for a signed number, its low bits if it does not fit. -/
def ofSigned (d : Int) : UInt32 := UInt32.ofNat (d % 0x1_0000_0000).toNat

@[simp] theorem length_toBytes (w : UInt32) : (toBytes w).length = 4 := rfl

theorem ofBytes_toBytes (w : UInt32) :
    ofBytes (UInt8.ofNat w.toNat) (UInt8.ofNat (w.toNat / 0x100))
      (UInt8.ofNat (w.toNat / 0x1_0000)) (UInt8.ofNat (w.toNat / 0x100_0000)) = w := by
  have h := w.toNat_lt
  apply UInt32.toNat.inj
  simp only [ofBytes, UInt8.toNat_ofNat', UInt32.toNat_ofNat']
  omega

theorem signed_ofSigned {d : Int} (hlo : -0x8000_0000 ≤ d) (hhi : d < 0x8000_0000) :
    signed (ofSigned d) = d := by
  simp only [signed, ofSigned, UInt32.toNat_ofNat']
  split <;> omega

theorem signed_eq_zero_iff {w : UInt32} : signed w = 0 ↔ w = 0 := by
  have h := w.toNat_lt
  rw [← UInt32.toNat_inj, UInt32.toNat_zero, signed]
  split <;> omega

end Word

end TaggedHeap
