import TaggedHeap.Heap.Ring
import TaggedHeap.Memory.Access
import Mathlib.Order.Interval.Set.Defs
import Mathlib.Data.Set.Basic

/-!
# Edits of an arena

Everything that happens inside a heap is a sequence of words stored in its arena.  Such an
operation takes an arena `a` to an arena `b` of the same size and source, and changes bytes at
certain offsets only: `a.Edit b touched`.  Edits compose (`Arena.Edit.trans`).  What matters of
an edit in the end is which bytes it keeps, `a.Keeps b kept`: a word that lies among these is
read as before (`Arena.Keeps.peek_eq`), even if the arena has grown.

Operations on a heap are specified by the arena that they leave.  For the basic ones, those that
store a word (`Heap.setWord_spec`) or the two tags of a block (`Heap.setTags_spec`), this
file says which arena that is.
-/

namespace TaggedHeap

/-! ### Computations that can fault -/

@[simp] theorem ok_bind {ε α β : Type} (a : α) (f : α → Except ε β) :
    (Except.ok a >>= f) = f a := rfl

theorem bind_of_ok {ε α β : Type} {r : Except ε α} {a : α} {f : α → Except ε β} (h : r = .ok a) :
    (r >>= f) = f a := h ▸ rfl

theorem exists_of_bind_ok {ε α β : Type} {x : Except ε α} {f : α → Except ε β} {b : β}
    (h : (x >>= f) = .ok b) : ∃ a, x = .ok a ∧ f a = .ok b := by
  cases x with
  | ok a => exact ⟨a, rfl, h⟩
  | error e => cases h

theorem bind_ok_mono {ε α β γ : Type} {x : Except ε α} {f : α → Except ε β} {g : α → Except ε γ}
    {b : β} {c : γ} (h : (x >>= f) = .ok b) (hfg : ∀ a, f a = .ok b → g a = .ok c) :
    (x >>= g) = .ok c := by
  obtain ⟨a, rfl, hf⟩ := exists_of_bind_ok h
  exact hfg a hf

@[simp] theorem pure_eq_ok {ε α : Type} (a : α) : (pure a : Except ε α) = .ok a := rfl

@[simp] theorem ofFault_ok {α : Type} (a : α) : Stop.ofFault (.ok a) = .ok a := rfl

theorem ofFault_eq_ok {α : Type} {x : Except Fault α} {a : α} (h : Stop.ofFault x = .ok a) :
    x = .ok a := by
  cases x with
  | ok b =>
    cases h
    rfl
  | error f => cases h

namespace Address

theorem add_of_lt {a b : Nat} (h : a + b < space) : add a b = .ok (a + b) := if_pos h

theorem sub_of_le {a b : Nat} (h : b ≤ a) : sub a b = .ok (a - b) := if_pos h

end Address

theorem header_ofHeader (block : Nat) : (Pointer.ofHeader block).header = .ok block :=
  Address.sub_of_le (Nat.le_add_left _ _)

namespace Arena

variable {a b c : Arena}

theorem add_of_le {m n : Nat} (h : m + n ≤ a.size) : Address.add m n = .ok (m + n) :=
  Address.add_of_lt (Nat.lt_of_le_of_lt h a.size_lt_space)

/-- `b` has the bytes of `a` at the offsets in `kept`, and may be larger. -/
structure Keeps (a b : Arena) (kept : Set Nat) : Prop where
  /-- The arena has not become smaller. -/
  size_le : a.size ≤ b.size
  /-- These bytes are what they were. -/
  byte_eq : ∀ i ∈ kept, b.byte i = a.byte i

namespace Keeps

variable {s t : Set Nat}

theorem refl (a : Arena) (s : Set Nat) : a.Keeps a s := ⟨Nat.le_refl _, fun _ _ => rfl⟩

theorem mono (h : a.Keeps b t) (hst : s ⊆ t) : a.Keeps b s :=
  ⟨h.size_le, fun i hi => h.byte_eq i (hst hi)⟩

theorem trans (hab : a.Keeps b s) (hbc : b.Keeps c s) : a.Keeps c s :=
  ⟨hab.size_le.trans hbc.size_le, fun i hi => (hbc.byte_eq i hi).trans (hab.byte_eq i hi)⟩

/-- A word among the bytes kept is what it was. -/
theorem peek_eq (h : a.Keeps b s) {pos : Nat} (hpos : ∀ i, pos ≤ i → i < pos + 4 → i ∈ s) :
    b.peek pos = a.peek pos := by
  rw [peek, peek, h.byte_eq pos (hpos _ (by omega) (by omega)),
    h.byte_eq (pos + 1) (hpos _ (by omega) (by omega)),
    h.byte_eq (pos + 2) (hpos _ (by omega) (by omega)),
    h.byte_eq (pos + 3) (hpos _ (by omega) (by omega))]

end Keeps

/-- `b` is `a` except for bytes at the offsets in `touched`. -/
structure Edit (a b : Arena) (touched : Set Nat) : Prop where
  /-- The arena has not grown. -/
  size_eq : b.size = a.size
  /-- The arena will grow as before. -/
  source_eq : b.source = a.source
  /-- All other bytes are what they were. -/
  byte_eq : ∀ i, i ∉ touched → b.byte i = a.byte i

namespace Edit

variable {s t : Set Nat}

theorem mono (h : a.Edit b s) (hst : s ⊆ t) : a.Edit b t :=
  ⟨h.size_eq, h.source_eq, fun i hi => h.byte_eq i fun hs => hi (hst hs)⟩

theorem trans (hab : a.Edit b s) (hbc : b.Edit c t) : a.Edit c (s ∪ t) where
  size_eq := hbc.size_eq.trans hab.size_eq
  source_eq := hbc.source_eq.trans hab.source_eq
  byte_eq i hi := by
    rw [Set.mem_union, not_or] at hi
    exact (hbc.byte_eq i hi.2).trans (hab.byte_eq i hi.1)

/-- All bytes outside the offsets touched are kept. -/
theorem keeps (h : a.Edit b s) : a.Keeps b {i | i ∉ s} :=
  ⟨h.size_eq ▸ Nat.le_refl _, h.byte_eq⟩

end Edit

theorem write_spec (start : Nat) (xs : List UInt8) (h : start + xs.length ≤ a.size) :
    ∃ b, a.write start xs = .ok b ∧ a.Edit b (Set.Ico start (start + xs.length)) ∧
      ∀ i, i < xs.length → b.byte (start + i) = xs.getD i 0 := by
  have hsize : (overwrite a.bytes start xs).size ≤ maxContiguous :=
    (size_overwrite _ _ _).symm ▸ a.size_le
  have hw : a.write start xs = .ok ⟨overwrite a.bytes start xs, a.source, hsize⟩ :=
    write_eq_ok_iff.2 ⟨h, rfl, rfl⟩
  refine ⟨_, hw, ⟨size_of_write hw, rfl, fun i hi => ?_⟩, fun i hi => ?_⟩
  · rw [byte_of_write hw, if_neg (by rwa [Set.mem_Ico] at hi)]
  · rw [byte_of_write hw, if_pos (by omega), Nat.add_sub_cancel_left]

theorem setWord_spec {pos : Nat} (w : UInt32) (h : pos + 4 ≤ a.size) :
    ∃ b, a.setWord pos w = .ok b ∧ a.Edit b (Set.Ico pos (pos + 4)) ∧
      b.peek pos = w := by
  obtain ⟨b, hb, hedit, -⟩ := write_spec pos (Word.toBytes w) h
  exact ⟨b, hb, hedit, (word_eq_ok_iff.1 (word_of_setWord hb)).2.symm⟩

theorem word_of_le {pos : Nat} (h : pos + 4 ≤ a.size) : a.word pos = .ok (a.peek pos) :=
  word_eq_ok_iff.2 ⟨h, rfl⟩

/-! ### Tags -/

/-- The tag at an offset of an arena that goes on with zeros. -/
def tagAt (a : Arena) (pos : Nat) : Tag := ⟨a.peek pos⟩

end Arena

namespace Tag

theorem ext_size_isFree {t u : Tag} (hsize : t.size = u.size) (hfree : t.isFree = u.isFree) :
    t = u := by
  obtain ⟨t⟩ := t
  obtain ⟨u⟩ := u
  simp only [size, isFree, isUsed, Bool.not_eq_eq_eq_not, Bool.not_not, decide_eq_decide] at *
  rw [mk.injEq, ← UInt32.toNat_inj]
  omega

theorem size_le (t : Tag) : t.size ≤ maxTagged := by
  have := t.raw.toNat_lt
  simp only [size, maxTagged]
  omega

theorem pack_spec {size : Nat} (used : Bool) (heven : size % 2 = 0) (hle : size ≤ maxTagged) :
    ∃ t, pack size used = .ok t ∧ t.size = size ∧ t.isFree = !used := by
  have h : pack size used = .ok _ := pack_eq_ok_iff.2 ⟨heven, hle, rfl⟩
  exact ⟨_, h, size_of_pack h, by rw [isFree, isUsed_of_pack h]⟩

end Tag

namespace Heap

variable {h : Heap}

theorem setWord_spec {pos : Nat} (w : UInt32) (hpos : pos + 4 ≤ h.arena.size) :
    ∃ b, h.setWord pos w = .ok { h with arena := b } ∧
      h.arena.Edit b (Set.Ico pos (pos + 4)) ∧ b.peek pos = w := by
  obtain ⟨b, hb, hspec⟩ := Arena.setWord_spec w hpos
  exact ⟨b, by simp only [setWord, hb, ok_bind, pure_eq_ok], hspec⟩

theorem tag_of_le {pos : Nat} (hpos : pos + 4 ≤ h.arena.size) :
    h.tag pos = .ok (h.arena.tagAt pos) := by
  simp only [tag, Arena.word_of_le hpos, ok_bind, pure_eq_ok, Arena.tagAt]

theorem setTag_spec (pos : Nat) {size : Nat} (used : Bool) (heven : size % 2 = 0)
    (hle : size ≤ maxTagged) (hpos : pos + 4 ≤ h.arena.size) :
    ∃ b, h.setTag pos size used = .ok { h with arena := b } ∧
      h.arena.Edit b (Set.Ico pos (pos + 4)) ∧
      (b.tagAt pos).size = size ∧ (b.tagAt pos).isFree = !used := by
  obtain ⟨t, ht, hsize, hfree⟩ := Tag.pack_spec used heven hle
  obtain ⟨b, hb, hedit, hpeek⟩ := setWord_spec t.raw hpos
  exact ⟨b, by simp only [setTag, ht, ok_bind, hb], hedit, by rw [Arena.tagAt, hpeek, hsize],
    by rw [Arena.tagAt, hpeek, hfree]⟩

end Heap

end TaggedHeap
