import TaggedHeap.Proofs.Listing
import TaggedHeap.Proofs.ReleaseOrder

/-!
# What giving a block back does

A block that is given back is joined with those of its two neighbours that are free.  The joint
block takes their place among the blocks and goes to the front of the list, which is otherwise as
before (`Client.Reachable.release_merges`).
-/

namespace TaggedHeap

namespace Span

variable {left right : Option Span} {x : Span}

theorem merged_offset (left : Option Span) (x : Span) (right : Option Span) :
    (merged left x right).offset = (left.getD x).offset := by
  cases left <;> rfl

theorem merged_freed (left : Option Span) (x : Span) (right : Option Span) :
    merged left x.freed right = merged left x right := by
  cases left <;> cases right <;> rfl

theorem merged_stop {l : Layout} {start stop : Nat}
    (ht : Tile l start (left.toList ++ x :: right.toList) stop) :
    (merged left x right).stop = (right.getD x).stop := by
  have hend : (right.getD x).stop = stop := by
    obtain ⟨_, -, -, -, ht⟩ := tile_append.1 ht
    cases right with
    | none => exact tile_nil.1 ht
    | some y => exact tile_nil.1 ht.2.2
  have hstart : (merged left x right).offset = start := by
    rw [merged_offset]
    cases left with
    | none => exact ht.1
    | some y => exact ht.1
  rw [hend, Span.stop, hstart]
  exact ht.totalSize

end Span

namespace Heap

variable {h h' : Heap} {xs ys : List Span} {x : Span}

theorem lastOf_append (hne : ys ≠ []) : h.lastOf (xs ++ ys) = h.lastOf ys := by
  rw [lastOf, lastOf, List.getLast?_append_of_ne_nil _ hne]

theorem lastOf_mem (hne : ys ≠ []) : h.lastOf ys ∈ ys.map Span.offset := by
  rw [lastOf, List.getLast?_eq_some_getLast hne]
  exact List.mem_map_of_mem (List.getLast_mem hne)

theorem lastOf_replace {pre pre' mid post : List Span} (m : Span) (hne : mid ≠ [])
    (hnodup : ((pre ++ mid ++ post).map Span.offset).Nodup) :
    h.lastOf (pre' ++ [m] ++ post) =
      if h.lastOf (pre ++ mid ++ post) ∈ mid.map Span.offset then m.offset
      else h.lastOf (pre ++ mid ++ post) := by
  by_cases hpost : post = []
  · subst hpost
    rw [List.append_nil, List.append_nil, lastOf_append_singleton, lastOf_append hne,
      if_pos (lastOf_mem hne)]
  · rw [lastOf_append hpost, lastOf_append hpost, if_neg]
    -- the topmost block lies above the ones replaced
    rw [List.map_append, List.map_append, List.nodup_append] at hnodup
    exact fun hmem => hnodup.2.2 _ (List.mem_append_right _ hmem) _ (lastOf_mem hpost) rfl

theorem lastOf_eq_of_evolves {s : Set Nat} (he : h.Evolves h' s) (xs : List Span) :
    h'.lastOf xs = h.lastOf xs := by
  rw [lastOf, lastOf, tail, tail, he.head_eq, he.layout_eq]

end Heap

namespace Client

open Heap

variable {c : Client} {layout : Layout} {arena : Arena} {v : View} {p : Pointer}

/-- **Giving a block back** puts one free block in the place of the block and of those of its
neighbours that are free.  It starts where the first of them did and ends where the last of them
did.  The list is that block followed by the old list without the neighbours.  The topmost block is
the joint one if it was the one given back or the one above.  All else stays: the size of the arena,
the other blocks, and the payloads of the pointers still held. -/
theorem Reachable.release_merges (hc : Reachable layout arena c) (hp : p ∈ c.pointers) :
    ∃ pre left x right post free m c',
      c.heap.Lists (pre ++ left.toList ++ x :: right.toList ++ post) free ∧
      x.pointer = p ∧ x.free = false ∧
      left = Span.freeBelow (pre ++ left.toList) ∧ right = Span.freeAbove (right.toList ++ post) ∧
      c.act (.release (some p)) = .ok (.ok none, c') ∧
      m.free ∧ m.offset = (left.getD x).offset ∧ m.stop = (right.getD x).stop ∧
      c'.heap.Lists (pre ++ [m] ++ post)
        (m :: free.filter fun y => y ∉ left.toList ++ right.toList) ∧
      c'.heap.top = (if c.heap.top ∈ (x :: right.toList).map Span.offset then m.offset
        else c.heap.top) ∧
      c'.heap.arena.size = c.heap.arena.size ∧
      ∀ q, (q ∈ c'.pointers ↔ q ∈ c.pointers ∧ q ≠ p) ∧
        (q ∈ c'.pointers → ∃ bytes, c.heap.payload q = .ok bytes ∧
          c'.heap.payload q = .ok bytes) := by
  obtain ⟨v, hv⟩ := hc.consistent
  obtain ⟨x, hx, rfl⟩ := hv.exists_of_held hp
  obtain ⟨c', w, hact, hreleased⟩ := hv.released_one hp
  obtain ⟨hmem, hused⟩ := Span.mem_used.1 hx
  obtain ⟨lo, hi, ring, rfl⟩ := View.exists_split hmem
  obtain ⟨hlo, hhi⟩ := hv.sound.separated.sides
  obtain ⟨pre, left, right, post, hn⟩ := Span.exists_around hlo hhi
  have hspans : lo ++ [x] ++ hi = pre ++ left.toList ++ x :: right.toList ++ post := by
    simp [hn.lo_eq, hn.hi_eq]
  have hsound : c.heap.Sound ⟨pre ++ left.toList ++ x :: right.toList ++ post, ring⟩ :=
    hspans ▸ hv.sound
  obtain ⟨h', log, hrun, hv', he, -⟩ :=
    releaseBlock_merged hv.sound hused hv.anchored.placed.size_le hn
  obtain rfl : c'.heap = h' := by
    have hrun' : Action.perform (.release (some x.pointer)) c.session = .ok none ⟨h', log⟩ :=
      SessionM.bind_ok hrun
    rw [Client.act, hrun'] at hact
    cases hact
    rfl
  rw [Span.merged_freed] at hv'
  obtain ⟨free, hl⟩ := hsound.exists_listed
  have hstop : (Span.merged left x right).stop = (right.getD x).stop := by
    have htiles := hsound.holds
    rw [List.append_assoc pre] at htiles
    obtain ⟨start, stop, hmid, -⟩ := htiles.tiles_mid
    exact Span.merged_stop hmid
  have htop : c'.heap.top = if c.heap.top ∈ (x :: right.toList).map Span.offset then
      (Span.merged left x right).offset else c.heap.top := by
    rw [hv'.top_eq, hsound.top_eq, lastOf_eq_of_evolves he]
    exact lastOf_replace _ (List.cons_ne_nil _ _) hsound.holds.nodup_offsets
  refine ⟨pre, left, x, right, post, free, Span.merged left x right, c', hl.lists, rfl, hused,
    hn.lo_eq ▸ hn.freeBelow_eq.symm, hn.hi_eq ▸ hn.freeAbove_eq.symm, hact, rfl,
    Span.merged_offset .., hstop, ?_, htop, hreleased.size_eq,
    fun q => ⟨?_, hreleased.payload_eq hv⟩⟩
  · refine hl.lists_front (left.toList ++ right.toList) (fun y hy => ?_) hv' (by simp)
      fun y hy hyfree hfar => ?_
    · simp only [List.mem_append, List.mem_cons] at hy ⊢
      tauto
    · have hne : y ≠ x := by
        rintro rfl
        simp [hused] at hyfree
      simp only [List.mem_append, List.mem_cons] at hy hfar ⊢
      tauto
  · rw [hreleased.mem_pointers hv, List.mem_singleton]

/-- Both neighbours are free, and another free block stays in the list. -/
theorem Reachable.release_merges_ofThree : ∃ c pre left x right post free m c',
    Reachable {} (.ofLimit 400) c ∧ ⟨96⟩ ∈ c.pointers ∧
    c.heap.Lists (pre ++ left.toList ++ x :: right.toList ++ post) free ∧
    x.pointer = ⟨96⟩ ∧ x.free = false ∧
    left = Span.freeBelow (pre ++ left.toList) ∧ right = Span.freeAbove (right.toList ++ post) ∧
    c.act (.release (some ⟨96⟩)) = .ok (.ok none, c') ∧
    c'.heap.Lists (pre ++ [m] ++ post)
      (m :: free.filter fun y => y ∉ left.toList ++ right.toList) ∧
    pre ++ [m] ++ post =
      [⟨44, 16, true⟩, ⟨60, 16, false⟩, ⟨76, 64, true⟩, ⟨140, 16, false⟩] ∧
    (m :: free.filter fun y => y ∉ left.toList ++ right.toList) =
      [⟨76, 64, true⟩, ⟨44, 16, true⟩] := by
  obtain ⟨c, hc, hsees⟩ := exists_reachable {} (.ofLimit 400)
    [.allocate 8, .allocate 8, .allocate 8, .allocate 24, .allocate 8, .allocate 8,
      .release (some ⟨80⟩), .release (some ⟨128⟩), .release (some ⟨48⟩)]
    (fun c => ⟨96⟩ ∈ c.pointers ∧ (c.act (.release (some ⟨96⟩))).toOption.any fun step =>
      (step.2.heap.blocks.map (List.map Block.span)).toOption = some
        [⟨44, 16, true⟩, ⟨60, 16, false⟩, ⟨76, 64, true⟩, ⟨140, 16, false⟩] ∧
      (step.2.heap.freeBlocks.map (List.map Block.span)).toOption =
        some [⟨76, 64, true⟩, ⟨44, 16, true⟩])
    (by decide +kernel)
  obtain ⟨hp, hact⟩ := of_decide_eq_true hsees
  obtain ⟨⟨r, d⟩, hact, hshows⟩ := (Option.any_eq_true _ _).1 hact
  obtain ⟨hblocks, hfree⟩ := of_decide_eq_true hshows
  obtain ⟨pre, left, x, right, post, free, m, c', hlists, hx, hused, hleft, hright, hact', -, -, -,
    hlists', -⟩ := Reachable.release_merges hc hp
  cases hact'.symm.trans (ok_of_toOption hact)
  exact ⟨c, pre, left, x, right, post, free, m, _, hc, hp, hlists, hx, hused, hleft, hright, hact',
    hlists', Except.ok.inj (hlists'.blocks_eq.symm.trans (ok_of_toOption hblocks)),
    Except.ok.inj (hlists'.free_eq.symm.trans (ok_of_toOption hfree))⟩

end Client

end TaggedHeap
