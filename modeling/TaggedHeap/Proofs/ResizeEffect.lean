import TaggedHeap.Proofs.AllocateEffect
import TaggedHeap.Proofs.Independence
import TaggedHeap.Proofs.ReleaseEffect

/-!
# What resizing does

A block that is large enough stays where it is, and what it does not need any more is cut off if
that makes a block.  One that is too small takes what it lacks from the block above, if that is free
and the two together are large enough.  In any other case the request comes to allocating a block
and giving the old one back (`moveBlock_twins`).  `Client.Resizing` says what becomes of the heap in
each case, and `Client.Reachable.resize_places` that there are no others.
-/

namespace TaggedHeap

theorem Span.merged_cut_stop {x : Span} {need : Nat} (hle : need ≤ x.size) (right : Option Span) :
    (merged none ⟨x.offset + need, x.size - need, true⟩ right).stop =
      (merged none x right).stop := by
  simp only [merged, stop, Option.getD_none, Option.toList_none, List.nil_append, totalSize_cons]
  omega

open Heap SessionM

variable {s t : Session} {v : View} {lo hi post free : List Span} {x y : Span} {ring : List Nat}
  {size need : Nat}

section InPlace

variable (hl : s.heap.Listed ⟨lo ++ [x] ++ hi, ring⟩ free)
  (hfor : s.heap.layout.blockSizeFor? size = some need) (hle : need ≤ maxTagged)

include hl hfor hle

theorem resizeBlock_cuts (hused : x.free = false) (hsize : s.heap.arena.size ≤ maxTagged)
    (hrest : need + s.heap.layout.minBlock ≤ x.size) :
    ∃ h' log post m, resizeBlock x.pointer size s = .ok (some x.pointer) ⟨h', log⟩ ∧
      hi = (Span.freeAbove hi).toList ++ post ∧ m.free ∧ m.offset = x.offset + need ∧
      m.stop = ((Span.freeAbove hi).getD x).stop ∧ h'.arena.size = s.heap.arena.size ∧
      h'.Lists (lo ++ [⟨x.offset, need, false⟩, m] ++ post)
        (m :: free.filter fun y => y ∉ (Span.freeAbove hi).toList) := by
  have hserves := (s.heap.valid.blockSizeFor?_eq_some_iff.1 hfor).1
  have hmin : 16 ≤ s.heap.layout.minBlock := s.heap.valid.four_words_le
  obtain ⟨hlo, hhi⟩ := hl.sound.separated.sides
  obtain ⟨right, post, hn⟩ := Span.exists_around_cut hlo hhi x.offset need
  obtain ⟨h', log, hrun, hv', -, hsame⟩ :=
    shrink_cut size hl.sound hused hsize hserves.admits hrest hn
  rw [hn.freeAbove_eq]
  refine ⟨h', log, post, .merged none ⟨x.offset + need, x.size - need, true⟩ right, ?_, hn.hi_eq,
    rfl, rfl, ?_, hsame, ?_⟩
  · refine (resizeBlock_eq hl.sound (blockSize_of_blockSizeFor? hfor hle)).trans ?_
    rw [if_neg (by omega), if_pos (by omega)]
    exact bind_ok hrun
  · have hspans : lo ++ [x] ++ hi = lo ++ (x :: right.toList) ++ post := by simp [hn.hi_eq]
    have htiles := hl.sound.holds
    rw [hspans] at htiles
    obtain ⟨start, stop, hmid, -⟩ := htiles.tiles_mid
    have hstop : (Span.merged none x right).stop = (right.getD x).stop := Span.merged_stop hmid
    exact (Span.merged_cut_stop (by omega) right).trans hstop
  · have hv' : h'.Sound ⟨lo ++ [⟨x.offset, need, false⟩,
        Span.merged none ⟨x.offset + need, x.size - need, true⟩ right] ++ post,
        (x.offset + need) :: ring.diff (right.toList.map Span.offset)⟩ := by
      simpa using hv'
    refine hl.lists_front right.toList (fun y hy => ?_) hv' (by simp) fun y hy hyfree hfar => ?_
    · simp only [hn.hi_eq, List.mem_append]
      tauto
    · have hne : y ≠ x := by
        rintro rfl
        simp [hused] at hyfree
      simp only [hn.hi_eq, List.mem_append, List.mem_singleton] at hy ⊢
      tauto

variable (hlt : x.size < need)

include hlt

theorem resizeBlock_extends (hused : x.free = false) (hsize : s.heap.arena.size ≤ maxTagged)
    (hhi : hi = y :: post) (hfree : y.free) (hroom : need ≤ x.size + y.size) :
    ∃ h' log before after, resizeBlock x.pointer size s = .ok (some x.pointer) ⟨h', log⟩ ∧
      free = before ++ y :: after ∧ h'.arena.size = s.heap.arena.size ∧
      h'.Lists (lo ++ Span.carved s.heap.layout x (x.size + y.size) need ++ post)
        (before ++ (Span.carved s.heap.layout x (x.size + y.size) need).filter Span.free ++
          after) := by
  subst hhi
  have hserves := (s.heap.valid.blockSizeFor?_eq_some_iff.1 hfor).1
  have hspans : lo ++ [x] ++ y :: post = lo ++ ([x] ++ [y]) ++ post := by simp
  obtain ⟨hlo, hhi⟩ := hl.sound.separated.sides
  obtain ⟨pre, left, right, post', hn⟩ := Span.exists_around hlo hhi
  have habove : Span.freeAbove (y :: post) = some y := by simp [Span.freeAbove, hfree]
  have hasked := hl.sound.roomAbove?_eq need hn
  rw [← hn.freeAbove_eq, habove, Option.bind_some, if_pos hroom] at hasked
  obtain ⟨before, after, rfl⟩ := List.append_of_mem (hl.mem_of_free (by simp) hfree)
  obtain rfl : before.map Span.offset ++ y.offset :: after.map Span.offset = ring := by
    simpa using hl.ring_eq
  rw [hspans] at hl
  have hc : s.heap.Carvable lo [x] y post (before.map Span.offset) (after.map Span.offset) :=
    ⟨hl.sound, by simpa using hused⟩
  obtain ⟨h', log, hrun, hv', -, hsame⟩ := carveBlock_spec hc hsize rfl
    (show _ = x.size + y.size by simp) hserves.admits hroom
  refine ⟨h', log.push (.grewInto x.offset size y.offset), before, after, ?_, rfl, hsame,
    hl.lists_replace [x] (by simpa using hused) hv'⟩
  refine (resizeBlock_eq (hspans ▸ hl.sound) (blockSize_of_blockSizeFor? hfor hle)).trans ?_
  rw [if_neg (by omega), if_neg (by omega), bind_ok (ask_ok hasked)]
  exact (bind_ok hrun).trans rfl

theorem resizeBlock_moves (hroom : ∀ y ∈ Span.freeAbove hi, x.size + y.size < need) :
    resizeBlock x.pointer size s = moveBlock x.pointer x.offset x.size size s := by
  obtain ⟨hlo, hhi⟩ := hl.sound.separated.sides
  obtain ⟨pre, left, right, post, hn⟩ := Span.exists_around hlo hhi
  rw [hn.freeAbove_eq] at hroom
  have hasked : roomAbove? x.offset x.size need s.heap = .ok none := by
    rw [hl.sound.roomAbove?_eq need hn,
      Option.bind_eq_none_iff.2 fun y hy => if_neg (Nat.not_le.2 (hroom y hy))]
  refine (resizeBlock_eq hl.sound (blockSize_of_blockSizeFor? hfor hle)).trans ?_
  rw [if_neg (by omega), if_neg (by omega), bind_ok (ask_ok hasked)]
  rfl

end InPlace

/-- **Moving a block** comes to allocating one and giving the old one back.  What is copied in
between is the only difference. -/
theorem moveBlock_twins (hv : s.heap.Sound v) (hsize : s.heap.arena.size ≤ maxTagged)
    (hpos : size ≠ 0) (hx : x ∈ Span.used v.spans) {q : Pointer}
    (hrun : allocate size s = .ok (some q) t) :
    ∃ s' t', moveBlock x.pointer x.offset x.size size s = .ok (some q) s' ∧
      releaseBlock x.pointer t = .ok () t' ∧ t'.heap.Twins s'.heap ∧
      ∀ i, i < x.size - 8 → i < size →
        s'.heap.arena.byte (q.offset + i) = s.heap.arena.byte (x.pointer.offset + i) := by
  obtain ⟨v₁, y, hq, hv₁, hsuits, hperm, he⟩ := (allocate_spec hv hsize hpos).of_ok hrun
  obtain rfl : q = y.pointer := Option.some.inj hq
  have hy : y ∈ Span.used v₁.spans := hperm.mem_iff.2 (List.mem_cons_self ..)
  have hx₁ : x ∈ Span.used v₁.spans := hperm.mem_iff.2 (List.mem_cons_of_mem _ hx)
  have hmx := (Span.mem_used.1 hx₁).1
  have hmy := (Span.mem_used.1 hy).1
  have hbx := hv₁.holds.bounds (mem_chain_of_mem hmx)
  -- the content is copied
  obtain ⟨b, hcopy, hedit, -⟩ := hv₁.holds.copyBytes_spec hmx hmy hsuits.le
  have ht : t.heap.Twins { t.heap with arena := b } :=
    ⟨rfl, rfl, hedit.size_eq, he.size_le, hedit.source_eq, v₁, hv₁,
      hv₁.edit_inner hmy hsuits.used hedit subset_rfl⟩
  rcases lockstep_releaseBlock (t := ⟨_, t.log⟩) ht hv₁ hx₁ with
    ⟨_, t', s', hfreed, hfreed', htwins⟩ | ⟨e, t', s', hfailed, -, -⟩
  case inr => exact absurd hfailed (unfailing_releaseBlock _ _ _ _)
  have hsub : Address.sub x.size overhead = .ok (x.size - 8) :=
    Address.sub_of_le (show 8 ≤ x.size by omega)
  have hlogged : calculate y.pointer.header s' = .ok y.offset s' := ask_ok (header_ofHeader _)
  have hmove : moveBlock x.pointer x.offset x.size size s =
      .ok (some y.pointer) ⟨s'.heap, s'.log.push (.moved x.offset size y.offset)⟩ := by
    rw [moveBlock, bind_ok hrun]
    exact (bind_ok (ask_ok hsub)).trans ((bind_ok (alter_ok hcopy)).trans
      ((bind_ok hfreed').trans ((bind_ok hlogged).trans rfl)))
  refine ⟨_, t', hmove, hfreed, htwins, ?_⟩
  obtain ⟨v', z, hz, hr⟩ :=
    (moveBlock_spec hv hsize hpos (List.perm_cons_erase hx)).of_ok hmove
  have hyz : y.offset = z.offset := Span.pointer_inj.1 (Option.some.inj hz)
  intro i hi hi'
  exact (congrArg (fun n => Arena.byte _ (n + 4 + i)) hyz).trans (hr.content i hi hi')

theorem Action.perform_resize (hpos : size ≠ 0) (p : Pointer) (s : Session) :
    Action.perform (.resize (some p) size) s = resizeBlock p size s := by
  rw [perform, TaggedHeap.resize, if_neg hpos]

namespace Client

variable {c : Client} {layout : Layout} {arena : Arena} {p : Pointer}

/-- What a request comes to that asks for `size` bytes in place of the block `x`, with the blocks
`lo` below it and `hi` above it: the answer, and the client afterwards.  For that many bytes blocks
of `need` bytes are made. -/
inductive Resizing (c : Client) (size need : Nat) (lo : List Span) (x : Span)
    (hi free : List Span) : Except HeapError (Option Pointer) → Client → Prop
  /-- The block is large enough, and too small to be two.  Nothing happens to the heap. -/
  | kept {c' : Client} : need ≤ x.size → x.size < need + c.heap.layout.minBlock →
    c'.heap = c.heap →
    Resizing c size need lo x hi free (.ok (some x.pointer)) c'
  /-- The block keeps what it needs.  The rest becomes a free block, which includes the one above
  if that was free, and goes to the front of the list. -/
  | cut {m : Span} {post : List Span} {c' : Client} : need + c.heap.layout.minBlock ≤ x.size →
    hi = (Span.freeAbove hi).toList ++ post →
    m.free → m.offset = x.offset + need → m.stop = ((Span.freeAbove hi).getD x).stop →
    c'.heap.arena.size = c.heap.arena.size →
    c'.heap.Lists (lo ++ [⟨x.offset, need, false⟩, m] ++ post)
      (m :: free.filter fun y => y ∉ (Span.freeAbove hi).toList) →
    Resizing c size need lo x hi free (.ok (some x.pointer)) c'
  /-- The block is cut from itself and the free one above.  What is left of the two takes the place
  of the latter in the list, unless it is too small to be a block; then the block gets all of it. -/
  | extended {y : Span} {post before after : List Span} {c' : Client} : x.size < need →
    hi = y :: post → y.free → need ≤ x.size + y.size →
    free = before ++ y :: after →
    c'.heap.arena.size = c.heap.arena.size →
    c'.heap.Lists (lo ++ Span.carved c.heap.layout x (x.size + y.size) need ++ post)
      (before ++ (Span.carved c.heap.layout x (x.size + y.size) need).filter Span.free ++ after) →
    Resizing c size need lo x hi free (.ok (some x.pointer)) c'
  /-- The heap ends up as if another block had been allocated and then this one given back, except
  for the payload of the new block, which begins as that of the old one did. -/
  | moved {q : Pointer} {c₁ c₂ c' : Client} : x.size < need →
    (∀ y ∈ Span.freeAbove hi, x.size + y.size < need) →
    c.act (.allocate size) = .ok (.ok (some q), c₁) →
    c₁.act (.release (some x.pointer)) = .ok (.ok none, c₂) →
    c'.heap.survey = c₂.heap.survey →
    (∀ i, i < x.size - overhead → i < size →
      c'.heap.arena.byte (q.offset + i) = c.heap.arena.byte (x.pointer.offset + i)) →
    Resizing c size need lo x hi free (.ok (some q)) c'
  /-- No other block can be allocated.  This is the only thing that happens. -/
  | refused {e : HeapError} {c₁ c' : Client} : x.size < need →
    (∀ y ∈ Span.freeAbove hi, x.size + y.size < need) →
    c.act (.allocate size) = .ok (.error e, c₁) →
    c'.heap = c₁.heap →
    Resizing c size need lo x hi free (.error e) c'

theorem Consistent.resizing_moved {v : View} (hc : c.Consistent layout arena v)
    (hx : x ∈ Span.used v.spans) (hpos : size ≠ 0) (hlt : x.size < need)
    (hroom : ∀ y ∈ Span.freeAbove hi, x.size + y.size < need)
    (hmove : resizeBlock x.pointer size c.session =
      moveBlock x.pointer x.offset x.size size c.session) :
    ∃ r c', c.act (.resize (some x.pointer) size) = .ok (r, c') ∧
      Resizing c size need lo x hi free r c' := by
  have hmove := (Action.perform_resize hpos x.pointer c.session).trans hmove
  have hspec := allocate_spec hc.sound hc.anchored.placed.size_le hpos
  rcases hspec with ⟨r, h₁, log, hrun, v₁, y, rfl, -⟩ | ⟨m, h₁, log, hrun, -⟩
  · obtain ⟨s', t', hmoved, hfreed, htwins, hcontent⟩ :=
      moveBlock_twins hc.sound hc.anchored.placed.size_le hpos hx hrun
    exact ⟨_, _, act_ok (hmove.trans hmoved),
      .moved hlt hroom (act_ok (a := .allocate size) hrun)
        (act_ok (a := .release (some x.pointer)) (bind_ok hfreed)) htwins.survey_eq hcontent⟩
  · have hrefused : moveBlock x.pointer x.offset x.size size c.session =
        .error (.failed (.outOfMemory m)) ⟨h₁, log⟩ := bind_error hrun
    exact ⟨_, _, act_failed (hmove.trans hrefused),
      .refused hlt hroom (act_failed (a := .allocate size) hrun) rfl⟩

/-- **What resizing does.**  A request for some bytes in place of a block in use is answered in
every state that is reached, and what it does is given by `Client.Resizing`. -/
theorem Reachable.resize_places (hc : Reachable layout arena c) (hp : p ∈ c.pointers)
    (hpos : size ≠ 0) (hfor : layout.blockSizeFor? size = some need) (hle : need ≤ maxTagged) :
    ∃ lo x hi free r c', c.heap.layout = layout ∧ c.heap.Lists (lo ++ x :: hi) free ∧
      x.pointer = p ∧ x.free = false ∧
      c.act (.resize (some p) size) = .ok (r, c') ∧
      Resizing c size need lo x hi free r c' := by
  obtain ⟨v, hv⟩ := hc.consistent
  obtain ⟨x, hx, rfl⟩ := hv.exists_of_held hp
  obtain ⟨hmem, hused⟩ := Span.mem_used.1 hx
  obtain ⟨lo, hi, ring, rfl⟩ := View.exists_split hmem
  obtain ⟨free, hl⟩ := hv.sound.exists_listed
  have hsize := hv.anchored.placed.size_le
  have hlayout := hv.anchored.layout_eq
  have hfor' : c.heap.layout.blockSizeFor? size = some need := hlayout.symm ▸ hfor
  have hlists : c.heap.Lists (lo ++ x :: hi) free := by simpa using hl.lists
  have hperform := Action.perform_resize hpos x.pointer c.session
  refine ⟨lo, x, hi, free, ?_⟩
  by_cases hlt : x.size < need
  · by_cases hroom : ∀ y ∈ Span.freeAbove hi, x.size + y.size < need
    · obtain ⟨r, c', hact, hplaced⟩ := hv.resizing_moved hx hpos hlt hroom
        (resizeBlock_moves (s := c.session) hl hfor' hle hlt hroom)
      exact ⟨r, c', hlayout, hlists, rfl, hused, hact, hplaced⟩
    · obtain ⟨y, hy, hle'⟩ : ∃ y ∈ Span.freeAbove hi, need ≤ x.size + y.size := by
        simpa using hroom
      obtain ⟨hhead, hfree⟩ := Option.mem_filter_iff.1 hy
      obtain ⟨post, rfl⟩ := List.head?_eq_some_iff.1 hhead
      obtain ⟨h', log, before, after, hrun, hlisted, hsame, hlists'⟩ :=
        resizeBlock_extends (s := c.session) hl hfor' hle hlt hused hsize rfl hfree hle'
      exact ⟨_, _, hlayout, hlists, rfl, hused, act_ok (hperform.trans hrun),
        .extended hlt rfl hfree hle' hlisted hsame hlists'⟩
  · by_cases hcut : need + c.heap.layout.minBlock ≤ x.size
    · obtain ⟨h', log, post, m, hrun, habove, hm, hstart, hstop, hsame, hlists'⟩ :=
        resizeBlock_cuts (s := c.session) hl hfor' hle hused hsize hcut
      exact ⟨_, _, hlayout, hlists, rfl, hused, act_ok (hperform.trans hrun),
        .cut hcut habove hm hstart hstop hsame hlists'⟩
    · obtain ⟨log, hrun⟩ := resizeBlock_keep (s := c.session) hl.sound
        (blockSize_of_blockSizeFor? hfor' hle) (Nat.not_lt.1 hlt) (Nat.not_le.1 hcut)
      exact ⟨_, _, hlayout, hlists, rfl, hused, act_ok (hperform.trans hrun),
        .kept (Nat.not_lt.1 hlt) (Nat.not_le.1 hcut) rfl⟩

/-- The block above is free but too small.  It makes way for the new block, which takes its place
while the old one is still in use. -/
theorem Reachable.resize_places_ofTooSmall : ∃ c lo x hi free c',
    Reachable {} (.ofLimit 400) c ∧ ⟨48⟩ ∈ c.pointers ∧
    ({} : Layout).blockSizeFor? 60 = some 80 ∧ 80 ≤ maxTagged ∧
    c.heap.Lists (lo ++ x :: hi) free ∧ x.pointer = ⟨48⟩ ∧ x.free = false ∧
    free = [⟨76, 16, true⟩] ∧
    c.act (.resize (some ⟨48⟩) 60) = .ok (.ok (some ⟨80⟩), c') ∧
    Resizing c 60 80 lo x hi free (.ok (some ⟨80⟩)) c' ∧
    c'.heap.freeBlocks.map (List.map Block.span) = .ok [⟨44, 32, true⟩, ⟨156, 16, true⟩] := by
  have hfor : ({} : Layout).blockSizeFor? 60 = some 80 := by decide
  have hle : 80 ≤ maxTagged := by decide
  obtain ⟨c, hc, hsees⟩ := exists_reachable {} (.ofLimit 400)
    [.allocate 24, .allocate 8, .release (some ⟨80⟩)]
    (fun c => ⟨48⟩ ∈ c.pointers ∧
      (c.heap.freeBlocks.map (List.map Block.span)).toOption = some [⟨76, 16, true⟩] ∧
      (c.act (.resize (some ⟨48⟩) 60)).toOption.any fun step =>
        step.1.toOption = some (some ⟨80⟩) ∧
        (step.2.heap.freeBlocks.map (List.map Block.span)).toOption =
          some [⟨44, 32, true⟩, ⟨156, 16, true⟩])
    (by decide +kernel)
  obtain ⟨hp, hfree, hact⟩ := of_decide_eq_true hsees
  obtain ⟨⟨r, d⟩, hact, hshows⟩ := (Option.any_eq_true _ _).1 hact
  obtain ⟨hr, hfree'⟩ := of_decide_eq_true hshows
  obtain rfl : r = .ok (some ⟨80⟩) := ok_of_toOption hr
  obtain ⟨lo, x, hi, free, r, c', -, hlists, hx, hused, hact', hplaced⟩ :=
    Reachable.resize_places hc hp (show 60 ≠ 0 by decide) hfor hle
  cases hact'.symm.trans (ok_of_toOption hact)
  exact ⟨c, lo, x, hi, free, _, hc, hp, hfor, hle, hlists, hx, hused,
    Except.ok.inj (hlists.free_eq.symm.trans (ok_of_toOption hfree)), hact', hplaced,
    ok_of_toOption hfree'⟩

end Client

end TaggedHeap
