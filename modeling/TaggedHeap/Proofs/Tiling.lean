import TaggedHeap.Audit
import TaggedHeap.Proofs.Edit
import Mathlib.Algebra.GroupWithZero.Nat
import Mathlib.Data.List.Nodup
import Mathlib.Data.List.Pairwise

/-!
# Blocks that tile an arena

A list of spans tiles a range of offsets when the spans follow each other without gaps and each
has a size that a block may have (`Span.Tile`).  This is plain arithmetic: which arena the spans
lie in does not matter.  It follows that the spans do not overlap (`Span.Tile.pairwise`), and
that they add up to the range (`Span.Tile.totalSize`).

A span is `Tagged` in an arena when its two boundary tags are there.  Tags are written by
`Heap.setTags_spec` and survive every edit of other bytes (`Arena.Tagged.edit`).
-/

namespace TaggedHeap

namespace Layout

variable {l : Layout}

/-- A block may have this many bytes. -/
def Admits (l : Layout) (size : Nat) : Prop := l.minBlock ≤ size ∧ size % l.alignment = 0

/-- A layout of 16 bytes throughout may be used. -/
theorem valid_default : Layout.Valid {} := by decide

theorem Valid.two_pow_log2 (hl : l.Valid) : 2 ^ l.alignment.log2 = l.alignment := by
  rw [← Nat.one_shiftLeft, hl.isPowerOfTwo]

theorem Valid.eight_dvd (hl : l.Valid) : 8 ∣ l.alignment := by
  have h8 : 2 ^ 3 ≤ 2 ^ l.alignment.log2 := by
    rw [hl.two_pow_log2]
    exact hl.two_words_le
  rw [← hl.two_pow_log2]
  exact Nat.pow_dvd_pow 2 ((Nat.pow_le_pow_iff_right (by omega)).1 h8)

theorem Valid.alignment_le (hl : l.Valid) : l.alignment ≤ l.minBlock :=
  Nat.le_of_dvd (Nat.lt_of_lt_of_le (by decide) hl.four_words_le)
    (Nat.dvd_of_mod_eq_zero hl.minBlock_mod)

theorem Valid.admits_minBlock (hl : l.Valid) : l.Admits l.minBlock := ⟨le_refl _, hl.minBlock_mod⟩

theorem Admits.le (hl : l.Valid) {size : Nat} (h : l.Admits size) : 16 ≤ size :=
  Nat.le_trans hl.four_words_le h.1

theorem Admits.mod_eight (hl : l.Valid) {size : Nat} (h : l.Admits size) : size % 8 = 0 :=
  Nat.mod_eq_zero_of_dvd (Nat.dvd_trans hl.eight_dvd (Nat.dvd_of_mod_eq_zero h.2))

end Layout

namespace Span

/-- The offset just past the block. -/
def stop (x : Span) : Nat := x.offset + x.size

/-- Offsets of the block. -/
def bytes (x : Span) : Set Nat := Set.Ico x.offset x.stop

/-- Offsets of the header and the footer of the block. -/
def tagBytes (x : Span) : Set Nat :=
  Set.Ico x.offset (x.offset + 4) ∪ Set.Ico (x.stop - 4) (x.stop - 4 + 4)

/-- Offsets of the payload of the block. -/
def inner (x : Span) : Set Nat := Set.Ico (x.offset + 4) (x.stop - 4)

/-- The blocks follow each other from `start` up to `stop`, each of a size it may have. -/
def Tile (l : Layout) : (start : Nat) → List Span → (stop : Nat) → Prop
  | start, [], stop => start = stop
  | start, x :: xs, stop => x.offset = start ∧ l.Admits x.size ∧ Tile l x.stop xs stop

theorem mem_bytes {x : Span} {i : Nat} : i ∈ x.bytes ↔ x.offset ≤ i ∧ i < x.stop := Iff.rfl

theorem mem_inner {x : Span} {i : Nat} : i ∈ x.inner ↔ x.offset + 4 ≤ i ∧ i < x.stop - 4 := Iff.rfl

theorem inner_subset (x : Span) : x.inner ⊆ x.bytes := by
  intro i hi
  rw [mem_inner] at hi
  rw [mem_bytes]
  omega

theorem Ico_subset_inner {x : Span} {count : Nat} (h : count ≤ x.size - 8) :
    Set.Ico (x.offset + 4) (x.offset + 4 + count) ⊆ x.inner := by
  intro i hi
  rw [Set.mem_Ico] at hi
  rw [mem_inner, stop]
  omega

@[simp] theorem totalSize_nil : totalSize [] = 0 := rfl

@[simp] theorem totalSize_cons (x : Span) (xs : List Span) :
    totalSize (x :: xs) = x.size + totalSize xs := rfl

theorem totalSize_append (xs ys : List Span) :
    totalSize (xs ++ ys) = totalSize xs + totalSize ys := by
  induction xs with
  | nil => simp
  | cons x xs ih => rw [List.cons_append, totalSize_cons, totalSize_cons, ih, Nat.add_assoc]

section Tile

variable {l : Layout} {x y : Span} {xs ys : List Span} {start stop : Nat}

@[simp] theorem tile_nil : Tile l start [] stop ↔ start = stop := Iff.rfl

@[simp] theorem tile_cons : Tile l start (x :: xs) stop ↔
    x.offset = start ∧ l.Admits x.size ∧ Tile l x.stop xs stop := Iff.rfl

theorem tile_append : Tile l start (xs ++ ys) stop ↔
    ∃ middle, Tile l start xs middle ∧ Tile l middle ys stop := by
  induction xs generalizing start with
  | nil => simp
  | cons x xs ih =>
    simp only [List.cons_append, tile_cons, ih]
    constructor
    · rintro ⟨hx, hadm, middle, h₁, h₂⟩
      exact ⟨middle, ⟨hx, hadm, h₁⟩, h₂⟩
    · rintro ⟨middle, ⟨hx, hadm, h₁⟩, h₂⟩
      exact ⟨hx, hadm, middle, h₁, h₂⟩

namespace Tile

theorem totalSize (h : Tile l start xs stop) : start + Span.totalSize xs = stop := by
  induction xs generalizing start with
  | nil => exact h
  | cons x xs ih =>
    obtain ⟨rfl, -, h⟩ := h
    rw [← ih h, totalSize_cons, Span.stop, Nat.add_assoc]

theorem le (h : Tile l start xs stop) : start ≤ stop := by
  have := h.totalSize
  omega

theorem admits (h : Tile l start xs stop) (hx : x ∈ xs) : l.Admits x.size := by
  obtain ⟨ys, zs, rfl⟩ := List.append_of_mem hx
  obtain ⟨_, -, h⟩ := tile_append.1 h
  exact h.2.1

theorem bounds (h : Tile l start xs stop) (hx : x ∈ xs) : start ≤ x.offset ∧ x.stop ≤ stop := by
  obtain ⟨ys, zs, rfl⟩ := List.append_of_mem hx
  obtain ⟨_, hys, rfl, -, hzs⟩ := tile_append.1 h
  exact ⟨hys.le, hzs.le⟩

theorem pairwise (h : Tile l start xs stop) : xs.Pairwise fun x y => x.stop ≤ y.offset := by
  induction xs generalizing start with
  | nil => exact .nil
  | cons x xs ih =>
    obtain ⟨-, -, h⟩ := h
    exact .cons (fun y hy => (h.bounds hy).1) (ih h)

theorem offset_mod (h : Tile l start xs stop) (hx : x ∈ xs) :
    x.offset % l.alignment = start % l.alignment := by
  induction xs generalizing start with
  | nil => cases hx
  | cons y xs ih =>
    obtain ⟨rfl, hadm, h⟩ := h
    rcases List.mem_cons.1 hx with rfl | hx
    · rfl
    · rw [ih h hx, Span.stop, Nat.add_mod, hadm.2, Nat.add_zero, Nat.mod_mod]

theorem stop_mod (h : Tile l start xs stop) : stop % l.alignment = start % l.alignment := by
  induction xs generalizing start with
  | nil => rw [tile_nil.1 h]
  | cons y xs ih =>
    obtain ⟨rfl, hadm, h⟩ := h
    rw [ih h, Span.stop, Nat.add_mod, hadm.2, Nat.add_zero, Nat.mod_mod]

/-- Two of the blocks are the same, or one lies below the other. -/
theorem eq_or_le (h : Tile l start xs stop) (hx : x ∈ xs) (hy : y ∈ xs) :
    x = y ∨ x.stop ≤ y.offset ∨ y.stop ≤ x.offset := by
  let R : Span → Span → Prop := fun x y => x.stop ≤ y.offset ∨ y.stop ≤ x.offset
  have : Std.Symm R := ⟨fun _ _ => Or.symm⟩
  have hR : xs.Pairwise R := h.pairwise.imp Or.inl
  by_cases hxy : x = y
  · exact .inl hxy
  · exact .inr (hR.forall hx hy hxy)

/-- A header belongs to one block only. -/
theorem offset_inj (hl : l.Valid) (h : Tile l start xs stop) (hx : x ∈ xs) (hy : y ∈ xs)
    (hxy : x.offset = y.offset) : x = y := by
  have hx' := (h.admits hx).le hl
  have hy' := (h.admits hy).le hl
  refine (h.eq_or_le hx hy).resolve_right fun hle => ?_
  simp only [Span.stop] at hle
  omega

theorem nodup_offsets (hl : l.Valid) (h : Tile l start xs stop) :
    (xs.map Span.offset).Nodup := by
  refine List.pairwise_map.2 (h.pairwise.imp_of_mem fun hx _ hxy => ?_)
  have := (h.admits hx).le hl
  simp only [Span.stop] at hxy
  omega

end Tile

end Tile

end Span

namespace Arena

variable {a b : Arena} {x : Span} {s : Set Nat}

/-- Both tags of the block say what `x` says. -/
structure Tagged (a : Arena) (x : Span) : Prop where
  /-- The header says how large the block is. -/
  size_eq : (a.tagAt x.offset).size = x.size
  /-- The header says whether the block is free. -/
  free_eq : (a.tagAt x.offset).isFree = x.free
  /-- The footer is the same as the header. -/
  footer_eq : a.tagAt (x.stop - 4) = a.tagAt x.offset

theorem Keeps.tagAt_eq (hab : a.Keeps b s) {pos : Nat} (h : Set.Ico pos (pos + 4) ⊆ s) :
    b.tagAt pos = a.tagAt pos := by
  rw [tagAt, tagAt, hab.peek_eq fun i h₁ h₂ => h ⟨h₁, h₂⟩]

theorem Tagged.keep (h : a.Tagged x) (hab : a.Keeps b s) (hs : x.tagBytes ⊆ s) :
    b.Tagged x := by
  have hheader := hab.tagAt_eq fun i hi => hs (.inl hi)
  have hfooter := hab.tagAt_eq fun i hi => hs (.inr hi)
  exact ⟨hheader ▸ h.size_eq, hheader ▸ h.free_eq, by rw [hfooter, hheader, h.footer_eq]⟩

theorem Tagged.edit (h : a.Tagged x) (hab : a.Edit b s) (hs : ∀ i ∈ x.tagBytes, i ∉ s) :
    b.Tagged x :=
  h.keep hab.keeps hs

end Arena

namespace Heap

variable {h : Heap} {x : Span}

theorem footerOf_of_le (hx : x.stop ≤ h.arena.size) (hle : 4 ≤ x.stop) :
    footerOf x.offset x.size = .ok (x.stop - 4) := by
  rw [footerOf, Arena.add_of_le (a := h.arena) hx, ok_bind]
  exact Address.sub_of_le hle

/-- Writing the two tags makes a range of bytes a block. -/
theorem setTags_spec (block size : Nat) (used : Bool) (hle : 8 ≤ size) (heven : size % 2 = 0)
    (hmax : size ≤ maxTagged) (hx : block + size ≤ h.arena.size) :
    ∃ b, h.setTags block size used = .ok { h with arena := b } ∧
      h.arena.Edit b (Span.mk block size (!used)).tagBytes ∧ b.Tagged ⟨block, size, !used⟩ := by
  obtain ⟨a, h₁, hedit₁, hsize₁, hfree₁⟩ :=
    setTag_spec (h := h) block used heven hmax (by omega)
  have hs := hedit₁.size_eq
  obtain ⟨b, h₂, hedit₂, hsize₂, hfree₂⟩ := setTag_spec (h := { h with arena := a })
    (block + size - 4) used heven hmax (by rw [hs]; omega)
  have hkeep : b.tagAt block = a.tagAt block := hedit₂.keeps.tagAt_eq fun i hi hi' => by
    simp only [Set.mem_Ico] at hi hi'
    omega
  refine ⟨b, ?_, hedit₁.trans hedit₂, ⟨by rw [hkeep, hsize₁], by rw [hkeep, hfree₁], ?_⟩⟩
  · rw [setTags, h₁, ok_bind, footerOf_of_le (h := h) (x := ⟨block, size, !used⟩) hx
      (show 4 ≤ block + size by omega), ok_bind]
    exact h₂
  · exact Tag.ext_size_isFree (hsize₂.trans (hkeep ▸ hsize₁).symm)
      (hfree₂.trans (hkeep ▸ hfree₁).symm)

/-- Two ranges of bytes that follow each other become a block in use and a free one. -/
theorem setTags_pair_spec (block need size : Nat) (hneed : 8 ≤ need) (heven : need % 2 = 0)
    (hsize : need + 8 ≤ size) (heven' : (size - need) % 2 = 0) (hmax : size ≤ maxTagged)
    (hx : block + size ≤ h.arena.size) :
    ∃ a b, h.setTags block need true = .ok { h with arena := a } ∧
      { h with arena := a : Heap }.setTags (block + need) (size - need) false =
        .ok { h with arena := b } ∧
      h.arena.Edit b ((Span.mk block need false).tagBytes ∪
        (Span.mk (block + need) (size - need) true).tagBytes) ∧
      b.Tagged ⟨block, need, false⟩ ∧ b.Tagged ⟨block + need, size - need, true⟩ := by
  obtain ⟨a, ha, hedit, htag⟩ := setTags_spec (h := h) block need true hneed heven
    (by omega) (by omega)
  obtain ⟨b, hb, hedit', htag'⟩ := setTags_spec (h := { h with arena := a })
    (block + need) (size - need) false (by omega) heven' (by omega)
    (by rw [hedit.size_eq]; omega)
  refine ⟨a, b, ha, hb, hedit.trans hedit', htag.edit hedit' fun i hi hi' => ?_, htag'⟩
  simp only [Span.tagBytes, Span.stop, Set.mem_union, Set.mem_Ico] at hi hi'
  omega

end Heap

end TaggedHeap
