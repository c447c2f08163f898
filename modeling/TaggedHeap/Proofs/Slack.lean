import TaggedHeap.Proofs.ResizeEffect

/-!
# Slack

A block may be larger than what it was asked for needs, since less than a smallest block is not cut
off.  It is never larger than that by a whole smallest block (`Client.Consistent.slack`), however
it came by its size, and what is done to other blocks does not change it
(`Client.Consistent.after`).  So asking for the same bytes again, in place of the block, comes to
nothing (`Client.Consistent.resize_same`).
-/

namespace TaggedHeap

open Heap SessionM

/-! ### Pointers are not handed out for no bytes -/

theorem allocate_ne_zero {size : Nat} {p : Pointer} {s s' : Session}
    (h : allocate size s = .ok (some p) s') : size ≠ 0 := by
  rintro rfl
  rw [allocate, if_pos rfl] at h
  cases h

theorem Action.requested_ne_zero {a : Action} {p : Pointer} {s s' : Session}
    (h : a.perform s = .ok (some p) s') : a.requested ≠ 0 := by
  cases a with
  | allocate size => exact allocate_ne_zero h
  | zeroAllocate count size =>
    obtain ⟨log, hrun⟩ := zeroAllocate_eq count size s
    obtain ⟨r, s₁, hrun, hclear⟩ := ok_of_bind (hrun.symm.trans h)
    cases r with
    | none => cases hclear
    | some q => exact allocate_ne_zero hrun
  | resize q size =>
    rintro rfl
    rw [perform, TaggedHeap.resize.eq_def, if_pos rfl] at h
    obtain ⟨_, s₁, -, hnone⟩ := ok_of_bind h
    cases hnone
  | release q => cases Client.answer_of_release h
  | write q count byte =>
    obtain ⟨_, s₁, -, hnone⟩ := ok_of_bind h
    cases hnone
  | raiseBreak n => cases h

namespace Client

variable {c c' d : Client} {layout : Layout} {arena : Arena} {v : View} {a : Action} {x : Span}
  {l : Lease} {r : Except HeapError (Option Pointer)} {need : Nat}

theorem mem_live_of_act (hact : c.act a = .ok (r, c')) (hl : l ∈ c.live)
    (hne : a.returned ≠ some l.pointer) : l ∈ c'.live := by
  cases r with
  | error e => exact (error_of_act hact).2 ▸ hl
  | ok p =>
    rw [(live_of_act hact).2, Action.settle]
    exact List.mem_append_right _ (List.mem_filter.2 ⟨hl, decide_eq_true hne⟩)

theorem Reachable.requested_ne_zero (hc : Reachable layout arena c) :
    ∀ l ∈ c.live, l.requested ≠ 0 := by
  induction hc with
  | create => simp
  | @act c c' a r _ _ hact ih =>
    intro l hl
    cases r with
    | error e => exact ih l ((error_of_act hact).2 ▸ hl)
    | ok p =>
      obtain ⟨hrun, hlive⟩ := live_of_act hact
      rw [hlive, Action.settle] at hl
      rcases List.mem_append.1 hl with hl | hl
      · obtain ⟨q, rfl, rfl⟩ : ∃ q, p = some q ∧ (⟨q, a.requested⟩ : Lease) = l := by
          simpa using hl
        exact Action.requested_ne_zero hrun
      · exact ih l (List.mem_of_mem_filter hl)

namespace Consistent

/-- **The block of a pointer is large enough**, and not by a whole smallest block larger than
that. -/
theorem slack (hc : c.Consistent layout arena v) (hl : l ∈ c.live) :
    ∃ need, ∃ x ∈ Span.used v.spans, x.pointer = l.pointer ∧
      layout.blockSizeFor? l.requested = some need ∧ need ≤ maxTagged ∧
      need ≤ x.size ∧ x.size < need + layout.minBlock := by
  obtain ⟨x, hx, hxl⟩ := hc.exists_of_held (List.mem_map_of_mem hl)
  obtain ⟨-, need, hserves, hle, hlt⟩ := hc.suits l hl x hx hxl.symm
  have hvalid : layout.Valid := hc.anchored.layout_eq ▸ c.heap.valid
  have hb := hc.sound.holds.bounds (mem_chain_of_mem (Span.mem_used.1 hx).1)
  have hmax := hc.anchored.placed.size_le
  have hneed : need ≤ maxTagged := by omega
  exact ⟨need, x, hx, hxl, hvalid.blockSizeFor?_eq_some_iff.2
    ⟨hserves, Nat.lt_of_le_of_lt hneed (by decide)⟩, hneed, hle, hlt⟩

theorem mem_used_of_act (hc : c.Consistent layout arena v) (ha : c.Allows a)
    (hact : c.act a = .ok (r, c')) (hx : x ∈ Span.used v.spans)
    (hne : a.returned ≠ some x.pointer) :
    ∃ v', c'.Consistent layout arena v' ∧ x ∈ Span.used v'.spans := by
  by_cases hsubject : a.subject = a.returned
  · obtain ⟨_, _, v', hact', hc', heffect⟩ := hc.act ha
    cases hact.symm.trans hact'
    exact ⟨v', hc', (heffect.frame x hx fun he => absurd (hsubject ▸ he) hne).1⟩
  · -- the payload may be written, which leaves all blocks as they are
    cases a with
    | write p count byte =>
      obtain ⟨h', hrun, hc', -⟩ := hc.written byte ha
      cases hact.symm.trans (act_ok hrun)
      have hlive : (Action.write p count byte).settle none c.live = c.live := by
        simp [Action.settle, Action.returned]
      exact ⟨v, hlive.symm ▸ hc', hx⟩
    | _ => exact absurd rfl hsubject

/-- **Whatever is done to other blocks**, a block stays as it is, and so does what was asked for. -/
theorem after (hc : c.Consistent layout arena v) {as : List Action} (hafter : c.after as = some d)
    (hx : x ∈ Span.used v.spans) (hl : l ∈ c.live) (hxl : x.pointer = l.pointer)
    (hothers : ∀ a ∈ as, a.returned ≠ some l.pointer) :
    l ∈ d.live ∧ ∃ w, d.Consistent layout arena w ∧ x ∈ Span.used w.spans := by
  induction as generalizing c v with
  | nil =>
    obtain rfl := Option.some.inj hafter
    exact ⟨hl, v, hc, hx⟩
  | cons a as ih =>
    obtain ⟨hne, hothers⟩ := List.forall_mem_cons.1 hothers
    rw [Client.after] at hafter
    split at hafter
    · rename_i ha
      split at hafter
      · rename_i hact
        obtain ⟨v', hc', hx'⟩ := hc.mem_used_of_act ha hact hx (hxl ▸ hne)
        exact ih hc' hafter hx' (mem_live_of_act hact hl hne) hothers
      · cases hafter
    · cases hafter

theorem resize_same (hc : c.Consistent layout arena v) (hx : x ∈ Span.used v.spans)
    {size : Nat} (hpos : size ≠ 0) (hfor : layout.blockSizeFor? size = some need)
    (hmax : need ≤ maxTagged) (hle : need ≤ x.size) (hlt : x.size < need + layout.minBlock) :
    ∃ c', c.act (.resize (some x.pointer) size) = .ok (.ok (some x.pointer), c') ∧
      c'.heap = c.heap := by
  obtain ⟨lo, hi, ring, rfl⟩ := View.exists_split (Span.mem_used.1 hx).1
  rw [← hc.anchored.layout_eq] at hfor hlt
  obtain ⟨log, hrun⟩ := resizeBlock_keep (s := c.session) hc.sound
    (blockSize_of_blockSizeFor? hfor hmax) hle hlt
  exact ⟨_, act_ok ((Action.perform_resize hpos x.pointer c.session).trans hrun), rfl⟩

end Consistent

/-- **The slack of a block is bounded.**  The block of a pointer has at least the size that the
bytes last asked for need, and by less than the smallest block more.  It keeps its size, whatever is
done to others.  To ask for the same bytes again changes nothing in the heap: no byte of the arena,
not the topmost block, and not the list. -/
theorem Reachable.slack_bounded (hc : Reachable layout arena c) (hl : l ∈ c.live) :
    ∃ need blocks free, ∃ x ∈ blocks, layout.blockSizeFor? l.requested = some need ∧
      c.heap.Lists blocks free ∧ x.pointer = l.pointer ∧ x.free = false ∧
      need ≤ x.size ∧ x.size < need + layout.minBlock ∧
      (∀ as d, (∀ a ∈ as, a.returned ≠ some l.pointer) → c.after as = some d →
        l ∈ d.live ∧ ∃ blocks' free', d.heap.Lists blocks' free' ∧ x ∈ blocks') ∧
      ∃ c', c.act (.resize (some l.pointer) l.requested) = .ok (.ok (some l.pointer), c') ∧
        c'.heap = c.heap := by
  obtain ⟨v, hv⟩ := hc.consistent
  obtain ⟨need, x, hx, hxl, hfor, hmax, hle, hlt⟩ := hv.slack hl
  obtain ⟨hmem, hused⟩ := Span.mem_used.1 hx
  obtain ⟨free, hlisted⟩ := hv.sound.exists_listed
  refine ⟨need, v.spans, free, x, hmem, hfor, hlisted.lists, hxl, hused, hle, hlt,
    fun as d hothers hafter => ?_, ?_⟩
  · obtain ⟨hheld, w, hw, hxw⟩ := hv.after hafter hx hl hxl hothers
    obtain ⟨free', hlisted'⟩ := hw.sound.exists_listed
    exact ⟨hheld, w.spans, free', hlisted'.lists, (Span.mem_used.1 hxw).1⟩
  · rw [← hxl]
    exact hv.resize_same hx (hc.requested_ne_zero l hl) hfor hmax hle hlt

/-- A block that was made for 100 bytes is used for 60, since what it does not need is too small to
be a block. -/
theorem Reachable.slack_bounded_ofReused : ∃ c d c', Reachable ⟨16, 64⟩ (.ofLimit 600) c ∧
    ⟨⟨144⟩, 60⟩ ∈ c.live ∧ (Layout.mk 16 64).blockSizeFor? 60 = some 80 ∧
    (∃ blocks free, c.heap.Lists blocks free ∧ ⟨140, 112, false⟩ ∈ blocks ∧ 112 < 80 + 64) ∧
    c.after [.release (some ⟨256⟩), .allocate 8] = some d ∧ ⟨⟨144⟩, 60⟩ ∈ d.live ∧
    (∃ blocks free, d.heap.Lists blocks free ∧ ⟨140, 112, false⟩ ∈ blocks) ∧
    c.act (.resize (some ⟨144⟩) 60) = .ok (.ok (some ⟨144⟩), c') ∧ c'.heap = c.heap := by
  obtain ⟨c, hc, hsees⟩ := exists_reachable ⟨16, 64⟩ (.ofLimit 600)
    [.allocate 100, .allocate 8, .release (some ⟨144⟩), .allocate 60]
    (fun c => ⟨⟨144⟩, 60⟩ ∈ c.live ∧
      (c.heap.blocks.map (List.map Block.span)).toOption =
        some [⟨140, 112, false⟩, ⟨252, 64, false⟩] ∧
      (c.after [.release (some ⟨256⟩), .allocate 8]).isSome)
    (by decide +kernel)
  obtain ⟨hl, hblocks, hafter⟩ := of_decide_eq_true hsees
  obtain ⟨d, hafter⟩ := Option.isSome_iff_exists.1 hafter
  obtain ⟨need, blocks, free, x, hx, hfor, hlists, hxl, -, -, hlt, hothers, c', hact, hsame⟩ :=
    Reachable.slack_bounded hc hl
  obtain rfl : need = 80 := Option.some.inj (hfor.symm.trans (by decide))
  obtain rfl := Except.ok.inj (hlists.blocks_eq.symm.trans (ok_of_toOption hblocks))
  obtain rfl : x = ⟨140, 112, false⟩ := by
    refine (List.mem_pair.1 hx).resolve_right ?_
    rintro rfl
    exact absurd hxl (by decide)
  obtain ⟨hheld, blocks', free', hlists', hx'⟩ := hothers _ d (by decide) hafter
  exact ⟨c, d, c', hc, hl, hfor, ⟨_, free, hlists, hx, hlt⟩, hafter, hheld,
    ⟨blocks', free', hlists', hx'⟩, hact, hsame⟩

end Client

end TaggedHeap
