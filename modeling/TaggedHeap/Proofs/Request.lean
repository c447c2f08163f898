import TaggedHeap.Proofs.Resize

/-!
# What requests come to

Every request is a change of the blocks in use: `gone` is the block that is given up, `fresh` the
one that is handed out, and `rest` are those that are left alone (`Heap.Served`).  A request is
either served or refused (`allocate_served`, `zeroAllocate_served`, `resize_served`), except that
giving a block back is never refused (`release_served`).
-/

namespace TaggedHeap

open Heap SessionM

/-- The pointer to the payload of the block. -/
def Span.pointer (x : Span) : Pointer := .ofHeader x.offset

/-- What becomes of a heap when a request for `size` bytes is served. -/
structure Heap.Served (h h' : Heap) (v v' : View) (gone : Option Span) (rest : List Span)
    (fresh : Option Span) (size : Nat) : Prop where
  /-- The heap is sound. -/
  sound : h'.Sound v'
  /-- The blocks in use before. -/
  before : (Span.used v.spans).Perm (gone.toList ++ rest)
  /-- The blocks in use afterwards. -/
  after : (Span.used v'.spans).Perm (fresh.toList ++ rest)
  /-- Blocks that are left alone keep their bytes. -/
  evolves : h.Evolves h' (h.safe rest)
  /-- The block handed out has room for the bytes asked for. -/
  suits : ∀ y ∈ fresh, y.Suits h.layout size
  /-- Its payload begins with what was in the block given up. -/
  content : ∀ x ∈ gone, ∀ y ∈ fresh, ∀ i, i < x.size - 8 → i < size →
    h'.arena.byte (y.offset + 4 + i) = h.arena.byte (x.offset + 4 + i)

variable {s : Session} {v : View} {gone : Option Span} {rest : List Span} {size : Nat}
  (hv : s.heap.Sound v) (hsize : s.heap.arena.size ≤ maxTagged)

include hv hsize

theorem allocate_served (size : Nat) :
    Answers (allocate size) s fun r h' => ∃ v' fresh, r = fresh.map Span.pointer ∧
      s.heap.Served h' v v' none (Span.used v.spans) fresh size := by
  by_cases hpos : size = 0
  · refine .inl ⟨none, s.heap, s.log, by rw [allocate, if_pos hpos]; rfl, v, none, rfl, ?_⟩
    exact ⟨hv, .refl _, .refl _, .refl hsize _, by simp, by simp⟩
  · refine (allocate_spec hv hsize hpos).mono ?_
    rintro _ h' ⟨v', x, rfl, hv', hsuits, hused, he⟩
    exact ⟨v', some x, rfl, hv', .refl _, hused, he, by simpa using hsuits, by simp⟩

theorem release_served (size : Nat) (hgone : (Span.used v.spans).Perm (gone.toList ++ rest)) :
    ∃ h' log v', release (gone.map Span.pointer) s = .ok () ⟨h', log⟩ ∧
      s.heap.Served h' v v' gone rest none size := by
  cases gone with
  | none =>
    refine ⟨s.heap, s.log, v, rfl, hv, hgone, hgone, .refl hsize _, by simp, by simp⟩
  | some x =>
    obtain ⟨h', log, v', hrun, hv', hused, he⟩ := releaseBlock_spec hv hsize hgone
    exact ⟨h', log, v', hrun, hv', hgone, hused, he, by simp, by simp⟩

theorem resize_served (size : Nat) (hgone : (Span.used v.spans).Perm (gone.toList ++ rest)) :
    Answers (resize (gone.map Span.pointer) size) s fun r h' => ∃ v' fresh,
      r = fresh.map Span.pointer ∧ s.heap.Served h' v v' gone rest fresh size := by
  by_cases hpos : size = 0
  · obtain ⟨h', log, v', hrun, hserved⟩ := release_served hv hsize size hgone
    refine .inl ⟨none, h', log, ?_, v', none, rfl, hserved⟩
    rw [resize.eq_def, if_pos hpos, bind_ok hrun]
    rfl
  · rw [resize.eq_def, if_neg hpos]
    cases gone with
    | none =>
      refine (allocate_served hv hsize size).mono ?_
      rintro r h' ⟨v', fresh, rfl, hserved⟩
      exact ⟨v', fresh, rfl, hserved.sound, hgone, hserved.after.trans (hgone.append_left _),
        hserved.evolves.mono (safe_mono hgone.symm.subset), hserved.suits, by simp⟩
    | some x =>
      refine (resizeBlock_spec hv hsize hpos hgone).mono ?_
      rintro _ h' ⟨v', y, rfl, hr⟩
      refine ⟨v', some y, rfl, hr.sound, hgone, hr.used, hr.evolves, by simpa using hr.suits, ?_⟩
      rintro _ ⟨⟩ _ ⟨⟩
      exact hr.content

/-- Memory that is cleared is allocated first. -/
theorem zeroAllocate_served (count size : Nat) :
    Answers (zeroAllocate count size) s fun r h' => ∃ v' fresh, r = fresh.map Span.pointer ∧
      s.heap.Served h' v v' none (Span.used v.spans) fresh (count * size % Address.space) := by
  obtain ⟨log, hlog⟩ := zeroAllocate_eq count size s
  rw [Answers, hlog]
  refine (allocate_served (s := ⟨s.heap, log⟩) hv hsize _).bind ?_
  rintro _ h' log' ⟨v', fresh, rfl, hserved⟩
  cases fresh with
  | none => exact ⟨none, h', log', rfl, v', none, rfl, hserved⟩
  | some x =>
    have hused : (Span.used v'.spans).Perm (x :: Span.used v.spans) := hserved.after
    have hx : x ∈ v'.spans := (Span.mem_used.1 (hused.mem_iff.2 (by simp))).1
    have hsuits := hserved.suits x rfl
    have hroom := hsuits.le
    have hcount : count * size % Address.space ≤ x.size - 8 := by omega
    obtain ⟨b, hclear, hedit, -⟩ :=
      hserved.sound.holds.setPayload_spec (mem_chain_of_mem hx) hcount fun _ => 0
    have hinner := Span.Ico_subset_inner hcount
    have he := hserved.sound.evolves_inner hserved.evolves.size_le hused hedit hinner
    rw [hserved.evolves.safe_eq] at he
    refine ⟨_, { h' with arena := b }, log', (bind_ok (alter_ok hclear)).trans rfl, v', some x, rfl,
      hserved.sound.edit_inner hx hsuits.used hedit hinner, hserved.before, hused,
      hserved.evolves.trans he, hserved.suits, by simp⟩

end TaggedHeap
