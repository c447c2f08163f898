import TaggedHeap.Proofs.Slack

/-!
# Allocating, giving back, and allocating again

However a request is served, its block is carved from a free one that fits best (`Span.Tight`,
`allocate_carves`): either one that was listed, or the one that the new bytes of the arena become
part of.  Giving the block back restores the free one and puts it in front of the list
(`releaseBlock_restores`), where it is found again by the next request for as many bytes
(`allocate_restored`).  `Client.Reachable.allocate_round_trip` puts the three together.
-/

namespace TaggedHeap

namespace Span

variable {l : Layout} {pre post xs : List Span} {x : Span} {need : Nat}

theorem bestFit_le (h : bestFit need xs = some x) : ∀ y ∈ xs, need ≤ y.size → x.size ≤ y.size :=
  fun _ hy hle => List.le_of_mem_argmin (List.mem_filter.2 ⟨hy, decide_eq_true hle⟩) h

theorem bestFit_eq_none (h : bestFit need xs = none) : ∀ y ∈ xs, y.size < need := by
  have hnone := List.argmin_eq_none.1 h
  exact fun y hy => by simpa using List.filter_eq_nil_iff.1 hnone y hy

theorem bestFit_cons (hle : need ≤ x.size) (hleast : ∀ y ∈ xs, need ≤ y.size → x.size ≤ y.size) :
    bestFit need (x :: xs) = some x := by
  rw [bestFit, List.filter_cons_of_pos (by simpa using hle)]
  refine foldl_argAux_of_le fun y hy => ?_
  obtain ⟨hy, hneed⟩ := List.mem_filter.1 hy
  exact hleast y hy (of_decide_eq_true hneed)

/-- The block between the others is free and has `need` bytes, and no other such block is
smaller. -/
structure Tight (pre : List Span) (x : Span) (post : List Span) (need : Nat) : Prop where
  /-- The block is free. -/
  free : x.free
  /-- It is large enough. -/
  le : need ≤ x.size
  /-- The other free blocks are smaller than that, or not smaller than this one. -/
  least : ∀ y ∈ pre ++ [x] ++ post, y.free → need ≤ y.size → x.size ≤ y.size
  /-- No two free blocks are next to each other. -/
  separated : Separated (pre ++ [x] ++ post)

/-- What is left of a block that is carved lies around what was taken of it.  If that is given
back, the block is what it was. -/
theorem Tight.around (hx : Tight pre x post need) (l : Layout) : ∃ hi right,
    carved l x x.size need ++ post = [taken l x x.size need] ++ hi ∧
      Around pre hi pre none right post ∧ merged none (taken l x x.size need).freed right = x := by
  obtain ⟨hlo, hpost, hhead⟩ := List.isChain_append.1 hx.separated
  obtain ⟨hpre, -, hlast⟩ := List.isChain_append.1 hlo
  have hbelow : ∀ y, Separated (pre ++ [y]) := fun y =>
    List.isChain_append.2 ⟨hpre, .singleton _, fun z hz _ _ hzw =>
      hlast z hz x rfl ⟨hzw.1, hx.free⟩⟩
  have habove : ∀ y, Separated (y :: post) := fun y =>
    List.isChain_cons.2 ⟨fun z hz hyz => hhead x (by simp) z hz ⟨hx.free, hyz.2⟩, hpost⟩
  obtain ⟨offset, size, free⟩ := x
  obtain rfl : free = true := hx.free
  have hle : need ≤ size := hx.le
  by_cases hrest : l.minBlock ≤ size - need
  · refine ⟨⟨offset + need, size - need, true⟩ :: post, some ⟨offset + need, size - need, true⟩,
      ?_, ⟨by simp, rfl, by simp, by simp, hbelow, habove⟩, ?_⟩
    · rw [carved, taken, if_pos hrest, if_pos hrest]
      rfl
    · simp [merged, freed, taken, hrest, hle]
  · refine ⟨post, none, ?_, ⟨by simp, rfl, by simp, by simp, hbelow, habove⟩, ?_⟩
    · rw [carved, taken, if_neg hrest, if_neg hrest]
    · simp [merged, freed, taken, hrest]

/-- The blocks with `size` free bytes more on top, from `start` on.  They are part of the topmost
block if that is free, and otherwise a block of their own. -/
def toppedUp (start size : Nat) (xs : List Span) : List Span :=
  match freeBelow xs with
  | some y => xs.dropLast ++ [⟨y.offset, y.size + size, true⟩]
  | none => xs ++ [⟨start, size, true⟩]

theorem toppedUp_eq {lo : List Span} {left : Option Span} (hn : Around xs [] lo left none [])
    (start size : Nat) :
    toppedUp start size xs = lo ++ [merged left ⟨start, size, true⟩ none] := by
  rw [toppedUp, hn.freeBelow_eq, hn.lo_eq]
  cases left with
  | none => simp [merged]
  | some y => simp [merged]

end Span

/-- What becomes of a heap that holds the view `v` when `need` bytes of the free block `x` are taken
for a block in use. -/
structure Heap.CarvedFrom (h h' : Heap) (v : View) (pre : List Span) (x : Span) (post : List Span)
    (need : Nat) : Prop where
  /-- The free block fits best. -/
  tight : Span.Tight pre x post need
  /-- It has been carved. -/
  sound : ∃ ring, h'.Sound ⟨pre ++ Span.carved h.layout x x.size need ++ post, ring⟩
  /-- The heap stays where it is. -/
  evolves : h.Evolves h' ∅
  /-- The free block was there before, or the arena has grown by as many bytes as are taken, which
  it includes. -/
  origin : h'.arena.size = h.arena.size ∧ v.spans = pre ++ [x] ++ post ∨
    h'.arena.size = h.arena.size + need ∧
      pre ++ [x] ++ post = Span.toppedUp (h.arena.size - wordBytes) need v.spans

open Heap SessionM

variable {s t : Session} {v : View} {l : Layout} {pre post : List Span} {x : Span} {p : Pointer}
  {ring : List Nat} {size need : Nat}

section Fit

variable {free : List Span} (hl : s.heap.Listed v free) (hpos : size ≠ 0)
  (hneed : blockSize size s = .ok need s) (hserves : s.heap.layout.Serves size need)
  (hrun : allocate size s = .ok (some p) t)

include hl hpos hneed hserves hrun

theorem allocate_carves_listed (hsize : s.heap.arena.size ≤ maxTagged)
    (hfit : Span.bestFit need free = some x) :
    p = x.pointer ∧ ∃ pre post, s.heap.CarvedFrom t.heap v pre x post need := by
  obtain ⟨hx, hle⟩ := Span.bestFit_eq_some hfit
  obtain ⟨hmem, hfree⟩ := hl.mem hx
  have hleast : ∀ y ∈ v.spans, y.free → need ≤ y.size → x.size ≤ y.size := fun y hy hyfree =>
    Span.bestFit_le hfit y (hl.mem_of_free hy hyfree)
  obtain ⟨pre, post, before, after, rfl⟩ := hl.sound.exists_of_free hmem hfree
  obtain ⟨h', log, hrun', hv', he, hsame⟩ := allocate_reused hl.sound hsize hpos hneed hserves
    (hl.bestFit?_eq_some hfit) hle
  cases hrun.symm.trans hrun'
  exact ⟨rfl, pre, post, ⟨hfree, hle, hleast, hl.sound.separated⟩, ⟨_, hv'⟩,
    he.mono (Set.empty_subset _), .inl ⟨hsame, rfl⟩⟩

theorem allocate_carves_grown (hmax : need ≤ maxTagged) (hfit : Span.bestFit need free = none) :
    ∃ pre x, p = x.pointer ∧ s.heap.CarvedFrom t.heap v pre x [] need := by
  obtain ⟨lo, left, haround⟩ := Span.exists_around_end hl.sound.separated
  have hspans := haround.lo_eq
  obtain ⟨x, hx⟩ : ∃ x, x = Span.merged left ⟨s.heap.arena.size - wordBytes, need, true⟩ none :=
    ⟨_, rfl⟩
  have hle : need ≤ x.size := hx ▸ Span.size_le_merged left ⟨_, need, true⟩ none
  have hleast : ∀ y ∈ lo ++ [x], y.free → need ≤ y.size → x.size ≤ y.size := by
    intro y hy hyfree hyle
    rcases List.mem_append.1 hy with hy | hy
    · have hmem : y ∈ v.spans := hspans ▸ List.mem_append_left _ hy
      have hlt := Span.bestFit_eq_none hfit y (hl.mem_of_free hmem hyfree)
      omega
    · rw [List.mem_singleton.1 hy]
  obtain ⟨hp, hv', he, hgrown⟩ := (allocate_grown
    (hspans ▸ hl.sound : s.heap.Sound ⟨lo ++ left.toList, v.ring⟩) haround.left_free haround.below
    hpos hneed hserves hmax (hl.bestFit?_eq_none hfit) hx).of_ok hrun
  rw [← List.append_nil (lo ++ Span.carved s.heap.layout x x.size need)] at hv'
  refine ⟨lo, x, Option.some.inj hp, ⟨hx ▸ rfl, hle, ?_, ?_⟩, ⟨_, hv'⟩,
    he.mono (Set.empty_subset _), .inr ⟨hgrown, ?_⟩⟩
  · rwa [List.append_nil]
  · rw [List.append_nil]
    exact haround.below x
  · rw [Span.toppedUp_eq haround, List.append_nil, hx]

end Fit

/-- **Requests are served from the best fit**, which may be due to new bytes of the arena. -/
theorem allocate_carves (hv : s.heap.Sound v) (hsize : s.heap.arena.size ≤ maxTagged)
    (hrun : allocate size s = .ok (some p) t) :
    ∃ need pre x post, s.heap.layout.blockSizeFor? size = some need ∧ need ≤ maxTagged ∧
      p = x.pointer ∧ s.heap.CarvedFrom t.heap v pre x post need := by
  have hpos := allocate_ne_zero hrun
  obtain ⟨need, s₁, hneed, -⟩ := ok_of_bind (by rwa [allocate, if_neg hpos] at hrun)
  obtain ⟨rfl, hfor, hmax⟩ := blockSize_ok hneed
  have hserves := (s₁.heap.valid.blockSizeFor?_eq_some_iff.1 hfor).1
  obtain ⟨free, hl⟩ := hv.exists_listed
  cases hfit : Span.bestFit need free with
  | some x =>
    obtain ⟨hp, pre, post, hcarved⟩ :=
      allocate_carves_listed hl hpos hneed hserves hrun hsize hfit
    exact ⟨need, pre, x, post, hfor, hmax, hp, hcarved⟩
  | none =>
    obtain ⟨pre, x, hp, hcarved⟩ := allocate_carves_grown hl hpos hneed hserves hrun hmax hfit
    exact ⟨need, pre, x, [], hfor, hmax, hp, hcarved⟩

/-- **Giving the block back restores the free one**, and puts it in front of the list. -/
theorem releaseBlock_restores (hx : Span.Tight pre x post need)
    (hv : t.heap.Sound ⟨pre ++ Span.carved l x x.size need ++ post, ring⟩)
    (hsize : t.heap.arena.size ≤ maxTagged) :
    ∃ h' log ring', releaseBlock x.pointer t = .ok () ⟨h', log⟩ ∧
      h'.Sound ⟨pre ++ [x] ++ post, x.offset :: ring'⟩ ∧ t.heap.Evolves h' ∅ ∧
      h'.arena.size = t.heap.arena.size := by
  obtain ⟨hi, right, hspans, haround, hmerged⟩ := hx.around l
  rw [List.append_assoc, hspans, ← List.append_assoc] at hv
  obtain ⟨h', log, hrun, hv', he, hsame⟩ := releaseBlock_merged hv rfl hsize haround
  rw [hmerged] at hv'
  exact ⟨h', log, _, hrun, hv', he.mono (Set.empty_subset _), hsame⟩

theorem allocate_restored (hx : Span.Tight pre x post need)
    (hv : s.heap.Sound ⟨pre ++ [x] ++ post, x.offset :: ring⟩)
    (hsize : s.heap.arena.size ≤ maxTagged) (hpos : size ≠ 0)
    (hfor : s.heap.layout.blockSizeFor? size = some need) (hmax : need ≤ maxTagged) :
    ∃ h' log ring', allocate size s = .ok (some x.pointer) ⟨h', log⟩ ∧
      h'.Sound ⟨pre ++ Span.carved s.heap.layout x x.size need ++ post, ring'⟩ ∧
      s.heap.Evolves h' ∅ ∧ h'.arena.size = s.heap.arena.size := by
  obtain ⟨free, hl⟩ := hv.exists_listed
  have hmem : x ∈ pre ++ [x] ++ post := by simp
  obtain ⟨y, free', rfl, hyx, -⟩ := List.map_eq_cons_iff.1 hl.ring_eq
  obtain rfl : y = x := hv.tiles.offset_inj s.heap.valid
    (mem_chain_of_mem (hl.mem List.mem_cons_self).1) (mem_chain_of_mem hmem) hyx
  have hfit : Span.bestFit need (y :: free') = some y := Span.bestFit_cons hx.le fun z hz hle =>
    hx.least z (hl.mem (List.mem_cons_of_mem _ hz)).1 (hl.mem (List.mem_cons_of_mem _ hz)).2 hle
  obtain ⟨h', log, hrun, hv', he, hsame⟩ := allocate_reused
    (show s.heap.Sound ⟨pre ++ [y] ++ post, [] ++ y.offset :: ring⟩ from hv) hsize hpos
    (blockSize_of_blockSizeFor? hfor hmax) (s.heap.valid.blockSizeFor?_eq_some_iff.1 hfor).1
    (hl.bestFit?_eq_some hfit) hx.le
  exact ⟨h', log, _, hrun, hv', he.mono (Set.empty_subset _), hsame⟩

namespace Client

variable {c c₁ : Client} {layout : Layout} {arena : Arena} {r : Option Pointer}

/-- **Allocating, giving back, and allocating again.**  Once the block of a request is given back,
the blocks are those from before the request; if the arena has grown for it, by the bytes of the
block, then these are free bytes on top of the others.  The same request is answered by the same
pointer then, without growth, and the blocks are those from before the block was given back. -/
theorem Reachable.allocate_round_trip (hc : Reachable layout arena c) (hpos : size ≠ 0)
    (hact : c.act (.allocate size) = .ok (.ok r, c₁)) :
    ∃ p need blocks free blocks₁ free₁ c₂ blocks₂ free₂ c₃ free₃,
      r = some p ∧ layout.blockSizeFor? size = some need ∧
      c.heap.Lists blocks free ∧ c₁.heap.Lists blocks₁ free₁ ∧
      c₁.act (.release (some p)) = .ok (.ok none, c₂) ∧ c₂.heap.Lists blocks₂ free₂ ∧
      c₂.heap.arena.size = c₁.heap.arena.size ∧
      (c₁.heap.arena.size = c.heap.arena.size → blocks₂ = blocks) ∧
      (c₁.heap.arena.size ≠ c.heap.arena.size →
        c₁.heap.arena.size = c.heap.arena.size + need ∧
        blocks₂ = Span.toppedUp (c.heap.arena.size - wordBytes) need blocks) ∧
      c₂.act (.allocate size) = .ok (.ok (some p), c₃) ∧
      c₃.heap.arena.size = c₂.heap.arena.size ∧
      c₃.heap.Lists blocks₁ free₃ ∧ c₃.heap.top = c₁.heap.top := by
  obtain ⟨v, hv⟩ := hc.consistent
  have hsize := hv.anchored.placed.size_le
  obtain ⟨hrun, -⟩ := live_of_act hact
  obtain ⟨v', y, rfl, -⟩ := (allocate_spec (s := c.session) hv.sound hsize hpos).of_ok hrun
  obtain ⟨need, pre, x, post, hfor, hmax, hyx, htight, ⟨ring₁, hv₁⟩, he₁, horigin⟩ :=
    allocate_carves (s := c.session) hv.sound hsize hrun
  obtain ⟨h₂, log₂, ring₂, hrun₂, hv₂, he₂, hsize₂⟩ :=
    releaseBlock_restores (t := c₁.session) htight hv₁ he₁.size_le
  have hfor₂ : h₂.layout.blockSizeFor? size = some need := by
    rwa [he₂.layout_eq, he₁.layout_eq]
  obtain ⟨h₃, log₃, ring₃, hrun₃, hv₃, he₃, hsize₃⟩ :=
    allocate_restored (s := ⟨h₂, log₂⟩) htight hv₂ he₂.size_le hpos hfor₂ hmax
  rw [he₂.layout_eq, he₁.layout_eq] at hv₃
  have hneed := (c.heap.valid.blockSizeFor?_eq_some_iff.1 hfor).1.admits.le c.heap.valid
  obtain ⟨free, hl⟩ := hv.sound.exists_listed
  obtain ⟨free₁, hl₁⟩ := hv₁.exists_listed
  obtain ⟨free₂, hl₂⟩ := hv₂.exists_listed
  obtain ⟨free₃, hl₃⟩ := hv₃.exists_listed
  rw [hyx]
  refine ⟨x.pointer, need, _, free, _, free₁, _, _, free₂, _, free₃, rfl,
    hv.anchored.layout_eq ▸ hfor, hl.lists, hl₁.lists, act_ok (bind_ok hrun₂), hl₂.lists, hsize₂,
    fun hsame => ?_, fun hgrown => ?_, act_ok hrun₃, hsize₃, hl₃.lists, ?_⟩
  · rcases horigin with ⟨-, hspans⟩ | ⟨hgrown, -⟩
    · exact hspans.symm
    · have : c₁.heap.arena.size = c.heap.arena.size + need := hgrown
      omega
  · rcases horigin with ⟨hsame, -⟩ | horigin
    · exact absurd hsame hgrown
    · exact horigin
  · have htop₁ := hv₁.top_eq
    have htop₃ := hv₃.top_eq
    rw [lastOf_eq_of_evolves he₃, lastOf_eq_of_evolves he₂] at htop₃
    exact htop₃.trans htop₁.symm

/-- The topmost block is free, but too small.  The block that the arena grows for starts where it
did, and so does the one that both come to when that is given back. -/
theorem Reachable.allocate_round_trip_ofPushed : ∃ c c₁ c₂ c₃ blocks free blocks₁ free₁ free₂ free₃,
    Reachable {} (.ofLimit 400) c ∧ c.heap.Lists blocks free ∧
    blocks = [⟨44, 32, false⟩, ⟨76, 32, true⟩] ∧
    c.act (.allocate 56) = .ok (.ok (some ⟨80⟩), c₁) ∧ c₁.heap.Lists blocks₁ free₁ ∧
    blocks₁ = [⟨44, 32, false⟩, ⟨76, 64, false⟩, ⟨140, 32, true⟩] ∧
    c₁.act (.release (some ⟨80⟩)) = .ok (.ok none, c₂) ∧
    c₂.heap.Lists [⟨44, 32, false⟩, ⟨76, 96, true⟩] free₂ ∧
    c₂.act (.allocate 56) = .ok (.ok (some ⟨80⟩), c₃) ∧ c₃.heap.Lists blocks₁ free₃ ∧
    c₃.heap.top = c₁.heap.top := by
  obtain ⟨c, hc, hsees⟩ := exists_reachable {} (.ofLimit 400)
    [.allocate 24, .allocate 24, .release (some ⟨80⟩)]
    (fun c => (c.heap.blocks.map (List.map Block.span)).toOption =
        some [⟨44, 32, false⟩, ⟨76, 32, true⟩] ∧ c.heap.arena.size = 112 ∧
      (c.act (.allocate 56)).toOption.any fun step => step.1.toOption = some (some ⟨80⟩) ∧
        (step.2.heap.blocks.map (List.map Block.span)).toOption =
          some [⟨44, 32, false⟩, ⟨76, 64, false⟩, ⟨140, 32, true⟩] ∧
        step.2.heap.arena.size = 176)
    (by decide +kernel)
  obtain ⟨hblocks, hsize, hact⟩ := of_decide_eq_true hsees
  obtain ⟨⟨r, c₁⟩, hact, hshows⟩ := (Option.any_eq_true _ _).1 hact
  obtain ⟨hr, hblocks₁, hsize₁⟩ := of_decide_eq_true hshows
  obtain rfl : r = .ok (some ⟨80⟩) := ok_of_toOption hr
  have hact : c.act (.allocate 56) = .ok (.ok (some ⟨80⟩), c₁) := ok_of_toOption hact
  obtain ⟨p, need, blocks, free, blocks₁, free₁, c₂, blocks₂, free₂, c₃, free₃, hp, hfor, hlists,
    hlists₁, hact₂, hlists₂, -, -, hgrown, hact₃, -, hlists₃, htop⟩ :=
    Reachable.allocate_round_trip hc (show 56 ≠ 0 by decide) hact
  obtain rfl : ⟨80⟩ = p := Option.some.inj hp
  obtain rfl : need = 64 := Option.some.inj (hfor.symm.trans (by decide))
  obtain rfl := Except.ok.inj (hlists.blocks_eq.symm.trans (ok_of_toOption hblocks))
  obtain rfl := Except.ok.inj (hlists₁.blocks_eq.symm.trans (ok_of_toOption hblocks₁))
  obtain ⟨-, rfl⟩ := hgrown (by rw [show c₁.heap.arena.size = 176 from hsize₁, hsize]; decide)
  rw [hsize] at hlists₂
  exact ⟨c, c₁, c₂, c₃, _, free, _, free₁, free₂, free₃, hc, hlists, rfl, hact, hlists₁, rfl, hact₂,
    hlists₂, hact₃, hlists₃, htop⟩

end Client

end TaggedHeap
