import TaggedHeap.Memory.Arena

/-!
# Reading what was written

Bytes and words of an arena are read and written without fault exactly inside the arena
(`word_eq_ok_iff`, `write_eq_ok_iff`).  A word that was stored is read back
(`word_of_setWord`), and bytes that lie elsewhere are as before (`byte_of_write`).
-/

namespace TaggedHeap

namespace Arena

variable {a b : Arena}

theorem size_lt_space (a : Arena) : a.size < Address.space := by
  have h := a.size_le
  simp only [size, maxContiguous, Address.space] at *
  omega

theorem word_eq_ok_iff {pos : Nat} {w : UInt32} :
    a.word pos = .ok w ↔ pos + wordBytes ≤ a.size ∧ w = a.peek pos := by
  have hs := a.size_lt_space
  simp only [word, Address.add]
  by_cases h : pos + wordBytes < Address.space
  · rw [if_pos h]
    change (if pos + wordBytes ≤ a.size then Except.ok (a.peek pos)
      else Except.error Fault.outOfBounds) = .ok w ↔ _
    by_cases hle : pos + wordBytes ≤ a.size
    · rw [if_pos hle, Except.ok.injEq, eq_comm]
      exact ⟨fun e => ⟨hle, e⟩, And.right⟩
    · rw [if_neg hle]
      exact ⟨nofun, fun e => absurd e.1 hle⟩
  · rw [if_neg h]
    exact ⟨nofun, fun e => absurd (Nat.lt_of_le_of_lt e.1 hs) h⟩

theorem write_eq_ok_iff {start : Nat} {xs : List UInt8} :
    a.write start xs = .ok b ↔ start + xs.length ≤ a.size ∧
      b.bytes = overwrite a.bytes start xs ∧ b.source = a.source := by
  have hs := a.size_lt_space
  by_cases hle : start + xs.length ≤ a.size
  · have h : start + xs.length < Address.space := Nat.lt_of_le_of_lt hle hs
    simp only [write, Address.add, if_pos h, bind, Except.bind, if_pos hle]
    obtain ⟨bytes, source, size_le⟩ := b
    simp only [pure, Except.pure, Except.ok.injEq, mk.injEq, hle, true_and]
    exact and_congr eq_comm eq_comm
  · simp only [hle, false_and, iff_false]
    intro e
    simp only [write, Address.add] at e
    split at e
    · simp only [bind, Except.bind, if_neg hle] at e
      cases e
    · cases e

theorem size_of_write {start : Nat} {xs : List UInt8} (h : a.write start xs = .ok b) :
    b.size = a.size := by
  rw [size, (write_eq_ok_iff.1 h).2.1, size_overwrite, size]

/-- Bytes inside the range written are those given, and all others are what they were. -/
theorem byte_of_write {start : Nat} {xs : List UInt8} (h : a.write start xs = .ok b) (i : Nat) :
    b.byte i = if start ≤ i ∧ i < start + xs.length then xs.getD (i - start) 0 else a.byte i := by
  obtain ⟨hle, hb, -⟩ := write_eq_ok_iff.1 h
  rw [byte, hb, getElem?_overwrite _ _ _ _ hle]
  split
  · rw [List.getD_eq_getElem?_getD]
  · rfl

/-- A word just stored is read back. -/
theorem word_of_setWord {pos : Nat} {w : UInt32} (h : a.setWord pos w = .ok b) :
    b.word pos = .ok w := by
  have hle := (write_eq_ok_iff.1 h).1
  have hlen := Word.length_toBytes w
  have hbyte : ∀ k < 4, b.byte (pos + k) = (Word.toBytes w).getD k 0 := fun k hk => by
    rw [byte_of_write h, if_pos (by omega), Nat.add_sub_cancel_left]
  rw [word_eq_ok_iff, size_of_write h]
  refine ⟨hle, ?_⟩
  rw [peek, ← Nat.add_zero pos, hbyte 0 (by omega), Nat.add_zero, hbyte 1 (by omega),
    hbyte 2 (by omega), hbyte 3 (by omega)]
  exact (Word.ofBytes_toBytes w).symm

end Arena

end TaggedHeap
