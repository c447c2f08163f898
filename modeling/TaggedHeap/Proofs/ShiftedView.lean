import TaggedHeap.Proofs.Independence
import TaggedHeap.Proofs.Shift

/-!
# What heaps that lie apart hold

The blocks of two heaps that lie `d` bytes apart do so too, by address and in the list
(`Heap.Shifted.sound`).  So whatever the heaps answer about their blocks is the same but for the
offsets, those of neighbours in the list included (`Heap.Shifted.survey_eq`).
-/

namespace TaggedHeap

open Address

variable {d : Nat}

/-! ### Blocks -/

namespace Span

/-- The block `d` bytes further up. -/
def shift (d : Nat) (x : Span) : Span := { x with offset := x.offset + d }

theorem stop_shift (d : Nat) (x : Span) : (x.shift d).stop = x.stop + d := Nat.add_right_comm ..

theorem Tile.shift {l : Layout} {start stop : Nat} {xs : List Span} (h : Tile l start xs stop)
    (d : Nat) : Tile l (start + d) (xs.map (Span.shift d)) (stop + d) := by
  induction xs generalizing start with
  | nil => exact congrArg (· + d) h
  | cons x xs ih =>
    obtain ⟨rfl, hadm, h⟩ := h
    refine ⟨rfl, hadm, ?_⟩
    rw [stop_shift]
    exact ih h

theorem freeHeaders_shift (d : Nat) (xs : List Span) :
    freeHeaders (xs.map (Span.shift d)) = (freeHeaders xs).map (· + d) := by
  rw [freeHeaders, freeHeaders, List.filter_map, List.map_map, List.map_map]
  rfl

theorem totalSize_shift (d : Nat) (xs : List Span) :
    totalSize (xs.map (Span.shift d)) = totalSize xs := List.foldr_map ..

end Span

/-- The neighbours in the list are `d` bytes further up. -/
def BlockState.shift (d : Nat) : BlockState → BlockState
  | .used => .used
  | .free next prev => .free (next.map (· + d)) (prev.map (· + d))

/-- The block, with its neighbours in the list, `d` bytes further up. -/
def Block.shift (d : Nat) (b : Block) : Block where
  offset := b.offset + d
  size := b.size
  state := b.state.shift d

/-- The same blocks in an arena that is larger by `d` bytes. -/
def Report.shift (d : Nat) (r : Report) : Report := { r with arenaBytes := r.arenaBytes + d }

/-- All offsets are `d` bytes further up. -/
def Survey.shift (d : Nat) (x : Survey) : Survey where
  arenaBytes := x.arenaBytes + d
  top := x.top + d
  blocks := x.blocks.map (List.map (Block.shift d))
  freeBlocks := x.freeBlocks.map (List.map (Block.shift d))
  verdict := x.verdict.map (Report.shift d)

/-- The view `d` bytes further up. -/
def View.shift (d : Nat) (v : View) : View where
  spans := v.spans.map (Span.shift d)
  ring := v.ring.map (· + d)

namespace Arena.Shifted

variable {a b : Arena} {x : Span} {n : Nat} {l : Link}

theorem tagAt_eq (hab : a.Shifted d b) (pos : Nat) : b.tagAt (pos + d) = a.tagAt pos :=
  congrArg Tag.mk (hab.peek_eq pos)

theorem tagged (hab : a.Shifted d b) (hx : a.Tagged x) (hstop : 4 ≤ x.stop) :
    b.Tagged (x.shift d) := by
  have hheader : b.tagAt (x.shift d).offset = a.tagAt x.offset := hab.tagAt_eq x.offset
  refine ⟨hheader ▸ hx.size_eq, hheader ▸ hx.free_eq, ?_⟩
  rw [hheader, Span.stop_shift, Nat.sub_add_comm hstop, hab.tagAt_eq, hx.footer_eq]

/-- Links lead to the same blocks, if these are where they can be. -/
theorem link?_eq (hab : a.Shifted d b) (hroom : ∀ m, a.link? n l = some m → m + d < space) :
    b.link? (n + d) l = (a.link? n l).map (· + d) := by
  rw [link?, Nat.add_right_comm, hab.peek_eq]
  rw [link?] at hroom ⊢
  split
  · rfl
  · rename_i hw
    -- the target is below the end of the space on both sides, hence no multiple of it intervenes
    have hnear := near_wrappingOffset d n (Word.signed (a.peek (n + l.slot)) * wordBytes)
    refine congrArg some (hnear.eq (hroom _ (if_neg hw)) ?_)
    have hspace : (0 : Int) < space := by decide
    have hlt := Int.emod_lt_of_pos
      (((n + d : Nat) : Int) + Word.signed (a.peek (n + l.slot)) * wordBytes) hspace
    have hpos := Int.emod_nonneg
      (((n + d : Nat) : Int) + Word.signed (a.peek (n + l.slot)) * wordBytes) hspace.ne'
    rw [wrappingOffset]
    omega

end Arena.Shifted

namespace Heap

variable {h h' : Heap} {v : View} {n m : Nat} {l : Link}

/-- Links of the list lead to blocks of the list. -/
theorem Holds.link?_mem (hv : h.Holds v) (hn : n ∈ h.nodes v.ring)
    (hl : h.arena.link? n l = some m) : m ∈ h.nodes v.ring := by
  obtain ⟨before, after, hsplit⟩ := List.append_of_mem hn
  cases l with
  | next =>
    have hnext := hv.neighbour?_next_eq hsplit
    rw [neighbour?_of_le (hv.spaced.inside n hn), hl, Except.ok.injEq] at hnext
    rw [hsplit]
    exact List.mem_append_right _ (List.mem_cons_of_mem _ (List.mem_of_mem_head? hnext.symm))
  | prev =>
    rcases List.eq_nil_or_concat before with rfl | ⟨before, k, rfl⟩
    · have hfirst := congrArg List.head? hsplit
      obtain rfl : h.head = n := Option.some.inj hfirst
      cases hv.head_prev.symm.trans hl
    · have hthr := hv.threads
      rw [hsplit, List.concat_eq_append, List.append_assoc, List.singleton_append, Arena.Threads,
        List.isChain_split, List.isChain_cons_cons] at hthr
      rw [hsplit, List.concat_eq_append, ← Option.some.inj (hthr.2.1.2.symm.trans hl)]
      simp

namespace Shifted

variable (hs : h.Shifted d h')

include hs

theorem chain_eq (spans : List Span) :
    h'.chain (spans.map (Span.shift d)) = (h.chain spans).map (Span.shift d) := by
  rw [chain, chain, sentinels, sentinels, hs.head_eq, hs.tail_eq, hs.layout_eq, List.map_append]
  rfl

theorem nodes_eq (ring : List Nat) :
    h'.nodes (ring.map (· + d)) = (h.nodes ring).map (· + d) := by
  rw [nodes, nodes, hs.head_eq, hs.tail_eq, List.map_cons, List.map_append]
  rfl

/-- The links of the list. -/
theorem link?_eq (hv : h.Holds v) (hn : n ∈ h.nodes v.ring) (l : Link) :
    h'.arena.link? (n + d) l = (h.arena.link? n l).map (· + d) := by
  refine hs.arena.link?_eq fun m hm => ?_
  have hin := hv.spaced.inside m (hv.link?_mem hn hm)
  have hsize := hs.arena.size_eq
  have hspace := h'.arena.size_lt_space
  omega

/-- **What one heap holds the other holds further up.** -/
theorem sound (hv : h.Sound v) : h'.Sound (v.shift d) := by
  have hlink := fun {n} => hs.link?_eq (n := n) hv.holds
  have hheadroom := (hv.holds.bounds (x := ⟨h.head, h.layout.minBlock, false⟩)
    (by simp [chain, sentinels])).2.2
  constructor
  case tiles =>
    rw [View.shift, hs.chain_eq, hs.layout_eq, hs.head_eq, hs.arena.size_eq,
      Nat.sub_add_comm (by omega)]
    exact hv.tiles.shift d
  case tagged =>
    rw [View.shift, hs.chain_eq]
    refine List.forall_mem_map.2 fun x hx => hs.arena.tagged (hv.tagged x hx) ?_
    have hb := hv.holds.bounds hx
    rw [Span.stop]
    omega
  case top_eq =>
    rw [hs.top_eq, hv.top_eq, lastOf, lastOf, View.shift, List.getLast?_map, hs.tail_eq]
    cases v.spans.getLast? <;> rfl
  case separated =>
    rw [View.shift, Span.Separated, List.isChain_map]
    exact hv.separated
  case listed =>
    rw [View.shift, Span.freeHeaders_shift]
    exact hv.listed.map _
  case threads =>
    rw [View.shift, hs.nodes_eq, Arena.Threads, List.isChain_map]
    refine List.IsChain.imp_of_mem_imp (fun x y hx hy hxy => ?_) hv.threads
    rw [Arena.Linked, hlink hx, hlink hy, hxy.1, hxy.2]
    exact ⟨rfl, rfl⟩
  case head_prev =>
    rw [hs.head_eq, hlink (h.head_mem_nodes _), hv.head_prev]
    rfl
  case tail_next =>
    rw [hs.tail_eq, hlink (h.tail_mem_nodes _), hv.tail_next]
    rfl

theorem blockOf_eq (hv : h.Sound v) {x : Span} (hx : x ∈ v.spans) :
    h'.blockOf (x.shift d) = (h.blockOf x).shift d := by
  cases hfree : x.free with
  | false => simp [blockOf, Span.shift, Block.shift, BlockState.shift, hfree]
  | true =>
    have hn : x.offset ∈ h.nodes v.ring := by
      have hmem := (hv.mem_ring_iff hx).2 hfree
      simp [nodes, hmem]
    simp [blockOf, Span.shift, Block.shift, BlockState.shift, hfree, hs.link?_eq hv.holds hn]

theorem map_blockOf_eq (hv : h.Sound v) {xs : List Span} (hxs : ∀ x ∈ xs, x ∈ v.spans) :
    (xs.map (Span.shift d)).map h'.blockOf = (xs.map h.blockOf).map (Block.shift d) := by
  rw [List.map_map, List.map_map]
  exact List.map_congr_left fun x hx => hs.blockOf_eq hv (hxs x hx)

theorem reportOf_eq (xs : List Span) :
    h'.reportOf (xs.map (Span.shift d)) = (h.reportOf xs).shift d := by
  rw [reportOf, List.filter_map, List.filter_map, Span.totalSize_shift, Span.totalSize_shift,
    List.length_map, List.length_map, hs.arena.size_eq]
  rfl

/-- **What the heaps answer about their blocks differs in the offsets only.** -/
theorem survey_eq (hv : h.Sound v) : h'.survey = h.survey.shift d := by
  have hv' := hs.sound hv
  obtain ⟨xs, hperm, hring⟩ := hv.exists_listing
  have hfilter : (v.shift d).spans.filter Span.free =
      (v.spans.filter Span.free).map (Span.shift d) := by
    rw [View.shift, List.filter_map]
    rfl
  have hperm' : (xs.map (Span.shift d)).Perm ((v.shift d).spans.filter Span.free) :=
    hfilter ▸ hperm.map _
  have hring' : (xs.map (Span.shift d)).map Span.offset = (v.shift d).ring := by
    rw [View.shift, ← hring, List.map_map, List.map_map]
    rfl
  rw [survey, survey, Survey.shift, hv.holds.blocks_eq hv.top_eq,
    hv'.holds.blocks_eq hv'.top_eq, hv.freeBlocks_eq hperm hring,
    hv'.freeBlocks_eq hperm' hring', hv.check_eq, hv'.check_eq, hs.arena.size_eq, hs.top_eq,
    View.shift, hs.map_blockOf_eq hv fun _ hx => hx,
    hs.map_blockOf_eq hv fun x hx => List.mem_of_mem_filter (hperm.subset hx), hs.reportOf_eq]
  rfl

end Shifted

end Heap

end TaggedHeap
