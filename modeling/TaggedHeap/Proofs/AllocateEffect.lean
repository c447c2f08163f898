import TaggedHeap.Proofs.Flush
import TaggedHeap.Proofs.Listing
import Mathlib.Data.List.MinMax

/-!
# What allocating does

A request takes the smallest free block that is large enough, the first one in the list among
those.  What it does not need stays where it was, in the list as well.  Only if there is no such
block the arena grows, by the size of the new block exactly.  `Heap.Allocation` says what this does
to the listings of a heap, case by case, and `Client.Reachable.allocate_places` that nothing else
happens.

The search stops early at a block of exactly the size asked for.  This makes no difference
(`Span.pick_eq`), since no block that is large enough is smaller.
-/

namespace TaggedHeap

namespace Span

/-- The block as something the search may settle for. -/
def candidate (x : Span) : Candidate := ⟨x.offset, x.size⟩

/-- The smallest of the blocks that are large enough, the first one among several of its size. -/
def bestFit (need : Nat) (xs : List Span) : Option Span :=
  (xs.filter fun x => need ≤ x.size).argmin Span.size

variable {need : Nat} {xs : List Span} {x : Span}

theorem bestFit_eq_some (h : bestFit need xs = some x) : x ∈ xs ∧ need ≤ x.size := by
  have := List.mem_filter.1 (List.argmin_mem h)
  exact ⟨this.1, of_decide_eq_true this.2⟩

theorem foldl_argAux_of_le (h : ∀ y ∈ xs, x.size ≤ y.size) :
    xs.foldl (List.argAux fun b c => b.size < c.size) (some x) = some x := by
  induction xs with
  | nil => rfl
  | cons y ys ih =>
    obtain ⟨hy, hys⟩ := List.forall_mem_cons.1 h
    have hkeep : List.argAux (fun b c : Span => b.size < c.size) (some x) y = some x :=
      if_neg (Nat.not_lt.2 hy)
    rw [List.foldl_cons, hkeep, ih hys]

theorem pick_eq_foldl (need : Nat) (best : Option Span) (xs : List Span) :
    pick need (best.map candidate) xs =
      ((xs.filter fun x => need ≤ x.size).foldl (List.argAux fun b c => b.size < c.size)
        best).map candidate := by
  induction xs generalizing best with
  | nil => rfl
  | cons x xs ih =>
    rw [pick]
    by_cases hle : need ≤ x.size
    · rw [List.filter_cons_of_pos (by simpa using hle), List.foldl_cons]
      by_cases himproves : ∀ c ∈ best.map candidate, x.size < c.size
      · have htake : List.argAux (fun b c : Span => b.size < c.size) best x = some x := by
          cases best with
          | none => rfl
          | some b => exact if_pos (himproves b.candidate rfl)
        rw [if_pos ⟨hle, himproves⟩, htake]
        by_cases hexact : x.size = need
        · rw [if_pos hexact, foldl_argAux_of_le fun y hy => ?_]
          · rfl
          · rw [hexact]
            exact of_decide_eq_true (List.mem_filter.1 hy).2
        · rw [if_neg hexact]
          exact ih (some x)
      · have hkeep : List.argAux (fun b c : Span => b.size < c.size) best x = best := by
          cases best with
          | none => exact absurd (by simp) himproves
          | some b => exact if_neg fun hlt => himproves fun c hc => Option.some.inj hc ▸ hlt
        rw [if_neg fun h => himproves h.2, hkeep, ih]
    · rw [List.filter_cons_of_neg (by simpa using hle), if_neg fun h => hle h.1, ih]

/-- **The search settles for the best fit.** -/
theorem pick_eq (need : Nat) (xs : List Span) :
    pick need none xs = (bestFit need xs).map candidate :=
  pick_eq_foldl need none xs

end Span

/-- What a request for `size` bytes, which are not none, comes to on a heap that lists `blocks` and
`free`: the answer, and the heap afterwards. -/
inductive Heap.Allocation (h : Heap) (size : Nat) (blocks free : List Span) :
    Except HeapError (Option Pointer) → Heap → Prop
  /-- No block can be large enough.  The error names the bytes asked for. -/
  | oversized : h.layout.Oversized size →
    Allocation h size blocks free (.error (.outOfMemory size)) h
  /-- A block of `need` bytes is cut from the best fit.  What is left of that takes its place in the
  list, unless it is too small to be a block; then the block is handed out as it is. -/
  | reused {need : Nat} {x : Span} {pre post before after : List Span} {h' : Heap} :
    h.layout.blockSizeFor? size = some need → need ≤ maxTagged →
    Span.bestFit need free = some x →
    blocks = pre ++ x :: post → free = before ++ x :: after →
    h'.arena.size = h.arena.size →
    h'.Lists (pre ++ Span.carved h.layout x x.size need ++ post)
      (before ++ (Span.carved h.layout x x.size need).filter Span.free ++ after) →
    Allocation h size blocks free (.ok (some x.pointer)) h'
  /-- The arena grows by `need` bytes, which become the topmost block, since the one below is in
  use. -/
  | grown {need : Nat} {h' : Heap} :
    h.layout.blockSizeFor? size = some need → need ≤ maxTagged →
    Span.bestFit need free = none →
    h.arena.size + need ≤ maxTagged → h.arena.Gives need →
    Span.freeBelow blocks = none →
    h'.arena.size = h.arena.size + need →
    h'.Lists (blocks ++ [⟨h.arena.size - wordBytes, need, false⟩]) free →
    Allocation h size blocks free (.ok (some (.ofHeader (h.arena.size - wordBytes)))) h'
  /-- The arena grows by `need` bytes.  The block starts where the topmost one did, which was free
  and moves up by `need` bytes, and to the front of the list. -/
  | pushed {need : Nat} {x : Span} {pre : List Span} {h' : Heap} :
    h.layout.blockSizeFor? size = some need → need ≤ maxTagged →
    Span.bestFit need free = none →
    h.arena.size + need ≤ maxTagged → h.arena.Gives need →
    blocks = pre ++ [x] → x.free →
    h'.arena.size = h.arena.size + need →
    h'.Lists (pre ++ [⟨x.offset, need, false⟩, ⟨x.offset + need, x.size, true⟩])
      (⟨x.offset + need, x.size, true⟩ :: free.filter fun y => y ≠ x) →
    Allocation h size blocks free (.ok (some x.pointer)) h'
  /-- The heap may not become that large, or its arena is not given the bytes.  The error names the
  bytes of the block. -/
  | refused {need : Nat} {h' : Heap} :
    h.layout.blockSizeFor? size = some need → need ≤ maxTagged →
    Span.bestFit need free = none →
    ¬ (h.arena.size + need ≤ maxTagged ∧ h.arena.Gives need) →
    h.Stays h' →
    Allocation h size blocks free (.error (.outOfMemory need)) h'

open Heap SessionM

variable {s s' : Session} {v : View} {size need : Nat} {blocks free : List Span} {e : HeapError}

theorem Heap.Listed.bestFit?_eq {h : Heap} (hl : h.Listed v free) (need : Nat) :
    h.bestFit? need = .ok ((Span.bestFit need free).map Span.offset) := by
  rw [hl.sound.bestFit?_eq need hl.perm hl.ring_eq, Span.pick_eq, Option.map_map]
  rfl

theorem Heap.Listed.bestFit?_eq_some {h : Heap} {x : Span} (hl : h.Listed v free)
    (hfit : Span.bestFit need free = some x) : h.bestFit? need = .ok (some x.offset) := by
  rw [hl.bestFit?_eq, hfit, Option.map_some]

theorem Heap.Listed.bestFit?_eq_none {h : Heap} (hl : h.Listed v free)
    (hfit : Span.bestFit need free = none) : h.bestFit? need = .ok none := by
  rw [hl.bestFit?_eq, hfit, Option.map_none]

theorem blockSize_of_blockSizeFor? (hfor : s.heap.layout.blockSizeFor? size = some need)
    (hle : need ≤ maxTagged) : blockSize size s = .ok need s := by
  rw [blockSize, get_bind, hfor]
  simp only [if_pos hle]
  rfl

section Placing

variable (hl : s.heap.Listed v free) (hpos : size ≠ 0)
  (hfor : s.heap.layout.blockSizeFor? size = some need) (hle : need ≤ maxTagged)

include hl hpos hfor hle

theorem allocate_reuses {x : Span} (hsize : s.heap.arena.size ≤ maxTagged)
    (hfit : Span.bestFit need free = some x) :
    ∃ h' log, allocate size s = .ok (some x.pointer) ⟨h', log⟩ ∧
      s.heap.Allocation size v.spans free (.ok (some x.pointer)) h' := by
  have hserves := (s.heap.valid.blockSizeFor?_eq_some_iff.1 hfor).1
  obtain ⟨hxfree, hxle⟩ := Span.bestFit_eq_some hfit
  have hsearch := hl.bestFit?_eq_some hfit
  obtain ⟨before, after, rfl⟩ := List.append_of_mem hxfree
  obtain ⟨pre, post, ring, rfl⟩ := View.exists_split (hl.mem hxfree).1
  obtain rfl : before.map Span.offset ++ x.offset :: after.map Span.offset = ring := by
    simpa using hl.ring_eq
  obtain ⟨h', log, hrun, hv', -, hsame⟩ := allocate_reused hl.sound hsize hpos
    (blockSize_of_blockSizeFor? hfor hle) hserves hsearch hxle
  exact ⟨h', log, hrun, .reused hfor hle hfit (List.append_assoc pre [x] post) rfl hsame
    (hl.lists_replace [] (by simp) hv')⟩

variable (hfit : Span.bestFit need free = none)

include hfit

/-- Without a fit the request comes down to growing the heap. -/
theorem allocate_eq_grow : allocate size s = (do
    let block ← noteError (growFor need) fun _ => .allocationFailed size
    occupy block need
    note (.allocated size block .grown)
    return some (Pointer.ofHeader block) : SessionM _) s := by
  rw [allocate, if_neg hpos, bind_ok (blockSize_of_blockSizeFor? hfor hle),
    bind_ok (ask_ok (hl.bestFit?_eq_none hfit))]

theorem allocate_denied (hroot : s.heap.arena.source.Rooted)
    (hdenied : ¬ (s.heap.arena.size + need ≤ maxTagged ∧ s.heap.arena.Gives need)) :
    ∃ h' log, allocate size s = .error (.failed (.outOfMemory need)) ⟨h', log⟩ ∧
      s.heap.Allocation size v.spans free (.error (.outOfMemory need)) h' := by
  have hadmits := (s.heap.valid.blockSizeFor?_eq_some_iff.1 hfor).1.admits
  obtain ⟨s₁, hgrow⟩ : ∃ s₁, growFor need s = .error (.failed (.outOfMemory need)) s₁ := by
    by_cases hcap : s.heap.arena.size + need ≤ maxTagged
    · rcases Arena.grow_cases hcap with ⟨source, fits, hgrow, -⟩ | ⟨source, m, hgrow, -⟩
      · exact absurd ⟨hcap, _, _, hgrow⟩ hdenied
      · rw [(hroot.refused hgrow).1] at hgrow
        exact ⟨_, growFor_refused hadmits hle hcap hgrow⟩
    · exact ⟨_, growFor_beyond hadmits hle hcap⟩
  have hrun := (allocate_eq_grow hl hpos hfor hle hfit).trans
    (bind_error (noteError_failed hgrow))
  exact ⟨_, _, hrun, .refused hfor hle hfit hdenied (atomic_allocate size _ _ _ hrun).2⟩

variable (hcap : s.heap.arena.size + need ≤ maxTagged) (hgives : s.heap.arena.Gives need)

include hcap hgives

theorem allocate_unrefused : allocate size s ≠ .error (.failed e) s' := by
  have hadmits := (s.heap.valid.blockSizeFor?_eq_some_iff.1 hfor).1.admits
  obtain ⟨offset, b, hgrow⟩ := hgives
  rw [allocate_eq_grow hl hpos hfor hle hfit]
  intro hrun
  rcases failed_of_bind hrun with hrun | ⟨block, s₁, -, hrun⟩
  · obtain ⟨log, hrun⟩ := failed_of_noteError hrun
    rw [growFor_granted hadmits hle hcap hgrow] at hrun
    exact unfailing_afterGrowth _ _ _ _ _ hrun
  · exact ((unfailing_occupy block need).bind fun _ => (Unfailing.note _).bind fun _ => .pure _)
      _ _ _ hrun

theorem allocate_grows : ∃ p h' log, allocate size s = .ok p ⟨h', log⟩ ∧
    s.heap.Allocation size v.spans free (.ok p) h' := by
  have hserves := (s.heap.valid.blockSizeFor?_eq_some_iff.1 hfor).1
  have hmin : 16 ≤ s.heap.layout.minBlock := s.heap.valid.four_words_le
  obtain ⟨lo, left, haround⟩ := Span.exists_around_end hl.sound.separated
  have hspans := haround.lo_eq
  have hleft := haround.left_free
  obtain ⟨p, h', log, hrun, rfl, hv', -, hgrown⟩ | ⟨m, h', log, hrun, -⟩ :=
    allocate_grown (hspans ▸ hl.sound : s.heap.Sound ⟨lo ++ left.toList, v.ring⟩) hleft
      haround.below hpos (blockSize_of_blockSizeFor? hfor hle) hserves hle
      (hl.bestFit?_eq_none hfit) rfl
  case inr =>
    exact absurd hrun (allocate_unrefused hl hpos hfor hle hfit hcap hgives)
  refine ⟨_, h', log, hrun, ?_⟩
  cases left with
  | none =>
    -- all of the new block is asked for
    have hcarved : Span.carved s.heap.layout ⟨s.heap.arena.size - 4, need, true⟩ need need =
        [⟨s.heap.arena.size - 4, need, false⟩] := if_neg (by omega)
    have hspans : v.spans = lo := by simpa using hspans
    have hv' : h'.Sound ⟨lo ++ Span.carved s.heap.layout ⟨s.heap.arena.size - 4, need, true⟩ need
        need, Span.freeHeaders (Span.carved s.heap.layout ⟨s.heap.arena.size - 4, need, true⟩ need
        need) ++ v.ring⟩ := hv'
    rw [hcarved] at hv'
    refine .grown hfor hle hfit hcap hgives haround.freeBelow_eq hgrown ?_
    exact hspans ▸ hv'.lists (fun y hy => by simp [← hspans, (hl.mem hy).1]) hl.ring_eq
  | some t =>
    -- what is left has the size of the block that was topmost
    have htmem : t ∈ v.spans := by simp [hspans]
    have htsize := (hl.sound.tiles.admits (mem_chain_of_mem htmem)).1
    have hcarved : Span.carved s.heap.layout ⟨t.offset, t.size + need, true⟩ (t.size + need) need =
        [⟨t.offset, need, false⟩, ⟨t.offset + need, t.size, true⟩] := by
      rw [Span.carved, Nat.add_sub_cancel, if_pos htsize]
    have hv' : h'.Sound ⟨lo ++ Span.carved s.heap.layout ⟨t.offset, t.size + need, true⟩
        (t.size + need) need, Span.freeHeaders (Span.carved s.heap.layout
        ⟨t.offset, t.size + need, true⟩ (t.size + need) need) ++ v.ring.diff [t.offset]⟩ := hv'
    rw [hcarved] at hv'
    refine .pushed (x := t) hfor hle hfit hcap hgives hspans (hleft t rfl) hgrown ?_
    have hlists := hl.lists_front [t] (x := ⟨t.offset + need, t.size, true⟩)
      (by simpa using htmem) hv' (by simp) fun y hy _ hne => by
        rw [hspans] at hy
        simp only [Option.toList_some, List.mem_append, List.mem_singleton] at hy hne ⊢
        tauto
    simpa using hlists

end Placing

namespace Client

variable {c : Client} {layout : Layout} {arena : Arena}

/-- **What allocating does.**  A request for some bytes is answered in every state that is reached,
and what it does to the listings of the heap is given by `Heap.Allocation`. -/
theorem Reachable.allocate_places (hc : Reachable layout arena c) (hpos : size ≠ 0) :
    ∃ blocks free r c', c.heap.layout = layout ∧ c.heap.Lists blocks free ∧
      c.act (.allocate size) = .ok (r, c') ∧
      c.heap.Allocation size blocks free r c'.heap := by
  obtain ⟨v, hv⟩ := hc.consistent
  obtain ⟨free, hl⟩ := hv.sound.exists_listed
  by_cases hover : c.heap.layout.Oversized size
  · exact ⟨_, free, _, _, hv.anchored.layout_eq, hl.lists,
      act_failed (allocate_oversized (s := c.session) hover), .oversized hover⟩
  obtain ⟨need, hfor, hle⟩ : ∃ need, c.heap.layout.blockSizeFor? size = some need ∧
      need ≤ maxTagged := by
    simpa [Layout.Oversized, hpos] using hover
  cases hfit : Span.bestFit need free with
  | some x =>
    obtain ⟨h', log, hrun, hplaced⟩ :=
      allocate_reuses (s := c.session) hl hpos hfor hle hv.anchored.placed.size_le hfit
    exact ⟨_, free, _, _, hv.anchored.layout_eq, hl.lists, act_ok hrun, hplaced⟩
  | none =>
    by_cases hgrow : c.heap.arena.size + need ≤ maxTagged ∧ c.heap.arena.Gives need
    · obtain ⟨p, h', log, hrun, hplaced⟩ :=
        allocate_grows (s := c.session) hl hpos hfor hle hfit hgrow.1 hgrow.2
      exact ⟨_, free, _, _, hv.anchored.layout_eq, hl.lists, act_ok hrun, hplaced⟩
    · obtain ⟨h', log, hrun, hplaced⟩ :=
        allocate_denied (s := c.session) hl hpos hfor hle hfit hc.rooted hgrow
      exact ⟨_, free, _, _, hv.anchored.layout_eq, hl.lists, act_failed hrun, hplaced⟩

/-- Two free blocks fit equally well.  The one that comes first in the list is used, and what is
left of it stays between the others. -/
theorem Reachable.allocate_places_ofTwoFits : ∃ c blocks free c',
    Reachable {} (.ofLimit 400) c ∧ c.heap.Lists blocks free ∧
    free = [⟨140, 64, true⟩, ⟨92, 32, true⟩, ⟨44, 32, true⟩] ∧
    c.act (.allocate 4) = .ok (.ok (some ⟨96⟩), c') ∧
    c.heap.Allocation 4 blocks free (.ok (some ⟨96⟩)) c'.heap ∧
    c'.heap.freeBlocks.map (List.map Block.span) =
      .ok [⟨140, 64, true⟩, ⟨108, 16, true⟩, ⟨44, 32, true⟩] := by
  obtain ⟨c, hc, hsees⟩ := exists_reachable {} (.ofLimit 400)
    [.allocate 24, .allocate 8, .allocate 24, .allocate 8, .allocate 56, .allocate 8,
      .release (some ⟨48⟩), .release (some ⟨96⟩), .release (some ⟨144⟩)]
    (fun c => (c.heap.freeBlocks.map (List.map Block.span)).toOption =
        some [⟨140, 64, true⟩, ⟨92, 32, true⟩, ⟨44, 32, true⟩] ∧
      (c.act (.allocate 4)).toOption.any fun step => step.1.toOption = some (some ⟨96⟩) ∧
        (step.2.heap.freeBlocks.map (List.map Block.span)).toOption =
          some [⟨140, 64, true⟩, ⟨108, 16, true⟩, ⟨44, 32, true⟩])
    (by decide +kernel)
  obtain ⟨hfree, hact⟩ := of_decide_eq_true hsees
  obtain ⟨⟨r, d⟩, hact, hshows⟩ := (Option.any_eq_true _ _).1 hact
  obtain ⟨hr, hfree'⟩ := of_decide_eq_true hshows
  obtain rfl : r = .ok (some ⟨96⟩) := ok_of_toOption hr
  obtain ⟨blocks, free, r, c', -, hlists, hact', hplaced⟩ :=
    Reachable.allocate_places hc (show 4 ≠ 0 by decide)
  cases hact'.symm.trans (ok_of_toOption hact)
  exact ⟨c, blocks, free, _, hc, hlists,
    Except.ok.inj (hlists.free_eq.symm.trans (ok_of_toOption hfree)), hact', hplaced,
    ok_of_toOption hfree'⟩

end Client

end TaggedHeap
