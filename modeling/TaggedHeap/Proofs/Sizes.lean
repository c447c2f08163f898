import TaggedHeap.Proofs.Tiling
import Mathlib.Order.Bounds.Defs

/-!
# Sizes of blocks

A number rounded up to the alignment is the least multiple of it that is not below
(`Layout.Valid.roundUp?_eq_some_iff`).  So a request is given the least size that a block may
have and that leaves room for the bytes asked for and two tags
(`Layout.Valid.blockSizeFor?_eq_some_iff`), and a multiple of the alignment rounds to itself.

`Layout.sizes_exact` says this of all layouts that are accepted and all requests: there is always
a least size, and it is answered unless it leaves the address space.
-/

namespace TaggedHeap

namespace Layout

variable {l : Layout} {size need : Nat}

/-- `r` is the least multiple of the alignment that is not below `value`. -/
structure RoundsTo (l : Layout) (value r : Nat) : Prop where
  /-- It is a multiple. -/
  mod_eq : r % l.alignment = 0
  /-- It is not below. -/
  le : value ≤ r
  /-- There is no smaller one. -/
  lt : r < value + l.alignment

theorem RoundsTo.least {value r b : Nat} (hr : l.RoundsTo value r) (hb : b % l.alignment = 0)
    (hle : value ≤ b) : r ≤ b := by
  by_contra hlt
  have hmod := Nat.sub_mod_eq_zero_of_mod_eq (hr.mod_eq.trans hb.symm)
  have := Nat.le_of_dvd (by omega) (Nat.dvd_of_mod_eq_zero hmod)
  have := hr.lt
  omega

theorem RoundsTo.eq {value r s : Nat} (hr : l.RoundsTo value r) (hs : l.RoundsTo value s) :
    r = s :=
  Nat.le_antisymm (hr.least hs.mod_eq hs.le) (hs.least hr.mod_eq hr.le)

/-- `need` is the least size that a block may have and that has room for `size` bytes and two
tags. -/
structure Serves (l : Layout) (size need : Nat) : Prop where
  /-- A block may have the size. -/
  admits : l.Admits need
  /-- There is room. -/
  le : size + 8 ≤ need
  /-- There is no smaller one. -/
  least : ∀ b, l.Admits b → size + 8 ≤ b → need ≤ b

theorem Serves.eq {m n : Nat} (hm : l.Serves size m) (hn : l.Serves size n) : m = n :=
  Nat.le_antisymm (hm.least n hn.admits hn.le) (hn.least m hm.admits hm.le)

/-- More bytes are not served by smaller blocks. -/
theorem Serves.mono {size' need' : Nat} (h : l.Serves size need) (h' : l.Serves size' need')
    (hle : size ≤ size') : need ≤ need' :=
  h.least need' h'.admits ((Nat.add_le_add_right hle 8).trans h'.le)

/-- The payload of a block is served by blocks of its size. -/
theorem Admits.serves (h : l.Admits need) (hroom : overhead ≤ need) :
    l.Serves (need - overhead) need where
  admits := h
  le := (Nat.sub_add_cancel hroom).le
  least _ _ hle := (Nat.sub_add_cancel hroom).ge.trans hle

/-- The sizes that a block for `size` bytes may have. -/
def roomy (l : Layout) (size : Nat) : Set Nat :=
  {b | l.alignment ∣ b ∧ l.minBlock ≤ b ∧ size + overhead ≤ b}

theorem Serves.isLeast (h : l.Serves size need) : IsLeast (l.roomy size) need := by
  refine ⟨⟨Nat.dvd_of_mod_eq_zero h.admits.2, h.admits.1, h.le⟩, ?_⟩
  rintro b ⟨hdvd, hmin, hle⟩
  exact h.least b ⟨hmin, Nat.mod_eq_zero_of_dvd hdvd⟩ hle

namespace Valid

variable (hl : l.Valid)

include hl

theorem alignment_pos : 0 < l.alignment := Nat.lt_of_lt_of_le (by decide) hl.two_words_le

theorem roundsTo_clearBits (value : Nat) :
    l.RoundsTo value (clearBits (value + (l.alignment - 1)) (l.alignment - 1)) := by
  have hpos := hl.alignment_pos
  have heq : clearBits (value + (l.alignment - 1)) (l.alignment - 1) =
      (value + (l.alignment - 1)) / l.alignment * l.alignment := by
    rw [← hl.isPowerOfTwo, clearBits_two_pow]
  have hmod := Nat.div_add_mod (value + (l.alignment - 1)) l.alignment
  have hlt := Nat.mod_lt (value + (l.alignment - 1)) hpos
  rw [heq, Nat.mul_comm]
  exact ⟨Nat.mul_mod_right _ _, by omega, by omega⟩

theorem roundUp?_eq_some_iff {value r : Nat} : roundUp? value l.alignment = some r ↔
    l.RoundsTo value r ∧ value + (l.alignment - 1) < Address.space := by
  have hr := hl.roundsTo_clearBits value
  rw [roundUp?]
  split
  · rename_i hlt
    rw [Option.some.injEq]
    exact ⟨fun h => ⟨h ▸ hr, hlt⟩, fun h => hr.eq h.1⟩
  · rename_i hlt
    exact ⟨nofun, fun h => absurd h.2 hlt⟩

theorem roundUp_eq {value : Nat} (h : value + l.alignment < Address.space) :
    ∃ r, roundUp value l.alignment = .ok r ∧ l.RoundsTo value r := by
  have hpos := hl.alignment_pos
  refine ⟨_, ?_, hl.roundsTo_clearBits value⟩
  rw [roundUp, Address.add_of_lt h, ok_bind, Address.sub_of_le (by omega), ok_bind,
    Address.sub_of_le (by omega), ok_bind, pure_eq_ok, Nat.add_sub_assoc (by omega)]

/-- A size that a block may have is large enough already. -/
theorem roundUp?_of_admits (h : l.Admits need) (hle : need ≤ maxTagged) :
    roundUp? need l.alignment = some need := by
  have hpos := hl.alignment_pos
  have halign := hl.alignment_le.trans hl.minBlock_le
  simp only [maxTagged] at hle halign
  exact hl.roundUp?_eq_some_iff.2 ⟨⟨h.2, Nat.le_refl _, by omega⟩, by rw [Address.space]; omega⟩

theorem alignment_dvd_space : l.alignment ∣ Address.space := by
  have hle : l.alignment ≤ 2 ^ 32 := (hl.alignment_le.trans hl.minBlock_le).trans (by decide)
  rw [← hl.two_pow_log2] at hle ⊢
  have hlog := (Nat.pow_le_pow_iff_right (by decide)).1 hle
  have hspace : 2 ^ 32 ∣ Address.space := by decide
  exact Nat.dvd_trans (Nat.pow_dvd_pow 2 hlog) hspace

theorem serves_minBlock (h : size ≤ l.smallPayload) : l.Serves size l.minBlock where
  admits := hl.admits_minBlock
  le := by
    have : 16 ≤ l.minBlock := hl.four_words_le
    have : size ≤ l.minBlock - 8 := h
    omega
  least _ hb _ := hb.1

theorem serves_iff_roundsTo (h : l.smallPayload < size) :
    l.Serves size need ↔ l.RoundsTo (size + 8) need := by
  have h : l.minBlock - 8 < size := h
  constructor
  · intro hn
    refine ⟨hn.admits.2, hn.le, ?_⟩
    by_contra hlt
    have hpos := hl.alignment_pos
    have hsub : l.Admits (need - l.alignment) :=
      ⟨by omega, Nat.sub_mod_eq_zero_of_mod_eq (hn.admits.2.trans (Nat.mod_self _).symm)⟩
    have := hn.least _ hsub (by omega)
    omega
  · intro hr
    have hle := hr.le
    exact ⟨⟨by omega, hr.mod_eq⟩, hle, fun b hb hsize => hr.least hb.2 hsize⟩

/-- **A request is given the least size that serves it**, unless that leaves the address
space. -/
theorem blockSizeFor?_eq_some_iff : l.blockSizeFor? size = some need ↔
    l.Serves size need ∧ need < Address.space := by
  have hmin : l.minBlock < Address.space := Nat.lt_of_le_of_lt hl.minBlock_le (by decide)
  by_cases hsmall : size ≤ l.smallPayload
  · have hserves := hl.serves_minBlock hsmall
    rw [blockSizeFor?, if_pos hsmall, Option.some.injEq]
    exact ⟨fun h => ⟨h ▸ hserves, h ▸ hmin⟩, fun h => hserves.eq h.1⟩
  · rw [blockSizeFor?, if_neg hsmall, hl.serves_iff_roundsTo (by omega)]
    have hiff : roundUp? (size + 8) l.alignment = some need ↔ _ := hl.roundUp?_eq_some_iff
    have hpos := hl.alignment_pos
    split
    · refine hiff.trans (and_congr_right fun hr => ?_)
      have hdvd := Nat.dvd_sub hl.alignment_dvd_space (Nat.dvd_of_mod_eq_zero hr.mod_eq)
      have hle := hr.le
      have hlt := hr.lt
      constructor
      · intro h
        omega
      · intro h
        have := Nat.le_of_dvd (by omega) hdvd
        omega
    · rename_i hover
      refine ⟨nofun, fun h => absurd (Nat.lt_of_le_of_lt h.1.le h.2) hover⟩

/-- Every request is served by blocks of some size, which need not fit the address space. -/
theorem exists_serves (size : Nat) : ∃ need, l.Serves size need := by
  rcases Nat.lt_or_ge l.smallPayload size with hlt | hle
  · exact ⟨_, (hl.serves_iff_roundsTo hlt).2 (hl.roundsTo_clearBits (size + 8))⟩
  · exact ⟨_, hl.serves_minBlock hle⟩

theorem blockSizeFor?_of_serves (h : l.Serves size need) :
    l.blockSizeFor? size = if need < Address.space then some need else none := by
  split
  · rename_i hlt
    exact hl.blockSizeFor?_eq_some_iff.2 ⟨h, hlt⟩
  · rename_i hover
    refine Option.eq_none_iff_forall_ne_some.2 fun n hn => hover ?_
    obtain ⟨hn, hlt⟩ := hl.blockSizeFor?_eq_some_iff.1 hn
    rwa [h.eq hn]

end Valid

/-- **Sizes of blocks are exact.**  A request is given the least multiple of the alignment that is
not smaller than the smallest block and has room for the bytes asked for and two tags, if that fits
the address space.  So larger requests are not given smaller blocks, and asking for all bytes that
may be used of a block is asking for a block of the same size. -/
theorem sizes_exact (hl : l.flaw? = none) :
    (∀ size, ∃ need, IsLeast (l.roomy size) need ∧
      l.blockSizeFor? size = if need < Address.space then some need else none) ∧
    (∀ size size', size ≤ size' → ∀ need' ∈ l.blockSizeFor? size',
      ∃ need ∈ l.blockSizeFor? size, need ≤ need') ∧
    ∀ b, l.alignment ∣ b → l.minBlock ≤ b → b < Address.space →
      l.blockSizeFor? (b - overhead) = some b := by
  have hl := flaw?_eq_none_iff.1 hl
  refine ⟨fun size => ?_, fun size size' hle need' hneed' => ?_, fun b hdvd hmin hlt => ?_⟩
  · obtain ⟨need, hserves⟩ := hl.exists_serves size
    exact ⟨need, hserves.isLeast, hl.blockSizeFor?_of_serves hserves⟩
  · obtain ⟨hserves', hlt⟩ := hl.blockSizeFor?_eq_some_iff.1 hneed'
    obtain ⟨need, hserves⟩ := hl.exists_serves size
    have hle := hserves.mono hserves' hle
    exact ⟨need, hl.blockSizeFor?_eq_some_iff.2 ⟨hserves, hle.trans_lt hlt⟩, hle⟩
  · have hadmits : l.Admits b := ⟨hmin, Nat.mod_eq_zero_of_dvd hdvd⟩
    have h16 := hadmits.le hl
    exact hl.blockSizeFor?_eq_some_iff.2 ⟨hadmits.serves (show 8 ≤ b by omega), hlt⟩

/-- The largest block that fits the address space holds eight bytes less than its size, and there
is none for one byte more. -/
theorem sizes_exact_ofLargest :
    (Layout.mk 32 64).flaw? = none ∧
    (∃ need, IsLeast ((Layout.mk 32 64).roomy (Address.space - 39)) need ∧
      Address.space ≤ need ∧ (Layout.mk 32 64).blockSizeFor? (Address.space - 39) = none) ∧
    (∃ need ∈ (Layout.mk 32 64).blockSizeFor? 57, need ≤ Address.space - 32) ∧
    (Layout.mk 32 64).blockSizeFor? (Address.space - 32 - overhead) =
      some (Address.space - 32) := by
  have hl : (Layout.mk 32 64).flaw? = none := by decide
  obtain ⟨hleast, hmono, hself⟩ := sizes_exact hl
  have htop := hself (Address.space - 32) (by decide) (by decide) (by decide)
  obtain ⟨need, hneed, hsize⟩ := hleast (Address.space - 39)
  have hnone : (Layout.mk 32 64).blockSizeFor? (Address.space - 39) = none := by decide
  rw [hnone] at hsize
  refine ⟨hl, ⟨need, hneed, ?_, hnone⟩, hmono 57 _ (by decide) _ htop, htop⟩
  by_contra hlt
  rw [if_pos (Nat.not_le.1 hlt)] at hsize
  cases hsize

end Layout

end TaggedHeap
