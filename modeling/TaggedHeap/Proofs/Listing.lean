import TaggedHeap.Proofs.Release
import TaggedHeap.Proofs.Walk

/-!
# What a heap lists

Users see the blocks of a heap by address, the free ones in the order of their list, and which
block is the topmost one.  `Heap.Lists` says that these are some given blocks.  A sound heap lists
the blocks of its view (`Heap.Sound.lists`), so what a request does to the view can be told from
the listings alone (`Heap.Listed.lists_front`, `Heap.Listed.lists_replace`).

The free neighbours of a block are those that it is merged with: `Span.freeBelow` and
`Span.freeAbove`.
-/

namespace TaggedHeap

/-- The block, without the neighbours that it has in the list if it is free. -/
def Block.span (b : Block) : Span := ⟨b.offset, b.size, b.isFree⟩

namespace Span

/-- The last of the blocks, if it is free. -/
def freeBelow (lo : List Span) : Option Span := lo.getLast?.filter Span.free

/-- The first of the blocks, if it is free. -/
def freeAbove (hi : List Span) : Option Span := hi.head?.filter Span.free

section Around

variable {lo hi pre post : List Span} {left right : Option Span}

theorem Around.freeBelow_eq (hn : Around lo hi pre left right post) : freeBelow lo = left := by
  cases left with
  | some y =>
    rw [freeBelow, hn.lo_eq, Option.toList_some, List.getLast?_concat, Option.filter_some,
      if_pos (hn.left_free y rfl)]
  | none =>
    rw [freeBelow, hn.lo_eq, Option.toList_none, List.append_nil, Option.filter_eq_none_iff]
    -- a free block may follow the others, so the last of them is in use
    intro y hy hfree
    exact (List.isChain_append.1 (hn.below ⟨0, 0, true⟩)).2.2 y hy _ rfl ⟨hfree, rfl⟩

theorem Around.freeAbove_eq (hn : Around lo hi pre left right post) : freeAbove hi = right := by
  cases right with
  | some y =>
    rw [freeAbove, hn.hi_eq, Option.toList_some, List.singleton_append, List.head?_cons,
      Option.filter_some, if_pos (hn.right_free y rfl)]
  | none =>
    rw [freeAbove, hn.hi_eq, Option.toList_none, List.nil_append, Option.filter_eq_none_iff]
    intro y hy hfree
    have := Separated.head?_used (hn.above ⟨0, 0, true⟩) rfl hy
    simp [hfree] at this

end Around

end Span

namespace Heap

variable {h h' : Heap} {v : View} {x : Span} {blocks free spans : List Span}

@[simp] theorem span_blockOf (h : Heap) (x : Span) : (h.blockOf x).span = x := by
  rw [Block.span, isFree_blockOf]
  rfl

theorem map_span_blockOf (h : Heap) (xs : List Span) :
    (xs.map h.blockOf).map Block.span = xs := by
  rw [List.map_map]
  exact List.map_id'' (fun x => h.span_blockOf x) xs

/-- The heap lists the given blocks by address and the given free ones in the order of the list, and
its topmost block is the last one of the former. -/
structure Lists (h : Heap) (blocks free : List Span) : Prop where
  /-- The listing by address. -/
  blocks_eq : h.blocks.map (List.map Block.span) = .ok blocks
  /-- The listing of free blocks. -/
  free_eq : h.freeBlocks.map (List.map Block.span) = .ok free
  /-- The topmost block; without blocks that is the tail sentinel. -/
  top_eq : h.top = h.lastOf blocks

/-- **A sound heap lists its blocks**, and the free ones in the order of the list. -/
theorem Sound.lists (hv : h.Sound v) (hfree : free ⊆ v.spans)
    (hring : free.map Span.offset = v.ring) : h.Lists v.spans free := by
  have hlen : free.length ≤ h.arena.size := by
    have hlisted := hv.listed.length_eq
    have hsub := (Span.freeHeaders_sublist v.spans).length_le
    have hall := hv.holds.length_le
    rw [← hring, List.length_map] at hlisted
    rw [List.length_map] at hsub
    omega
  have hnodes : h.nodes v.ring = [h.head] ++ (free.map Span.offset ++ [h.tail]) := by
    rw [nodes, hring]
    rfl
  have hwalk : h.freeBlocks = .ok (free.map h.blockOf) := by
    rw [freeBlocks, hv.holds.neighbour?_next_eq (show h.nodes v.ring =
      [] ++ h.head :: (free.map Span.offset ++ [h.tail]) from hnodes), ok_bind]
    exact hv.holds.freeBlocksFrom_eq (fun x hx => hfree hx) hnodes hlen
  refine ⟨?_, ?_, hv.top_eq⟩
  · rw [hv.holds.blocks_eq hv.top_eq]
    exact congrArg _ (h.map_span_blockOf _)
  · rw [hwalk]
    exact congrArg _ (h.map_span_blockOf _)

/-- The heap is sound, and `free` are the free blocks of its view in the order of the list. -/
structure Listed (h : Heap) (v : View) (free : List Span) : Prop where
  /-- The heap is sound. -/
  sound : h.Sound v
  /-- These are the free blocks. -/
  perm : free.Perm (v.spans.filter Span.free)
  /-- This is their order. -/
  ring_eq : free.map Span.offset = v.ring

theorem Sound.exists_listed (hv : h.Sound v) : ∃ free, h.Listed v free := by
  obtain ⟨free, hperm, hring⟩ := hv.exists_listing
  exact ⟨free, hv, hperm, hring⟩

namespace Listed

theorem mem (hl : h.Listed v free) (hx : x ∈ free) : x ∈ v.spans ∧ x.free :=
  List.mem_filter.1 (hl.perm.subset hx)

theorem mem_of_free (hl : h.Listed v free) (hx : x ∈ v.spans) (hfree : x.free) : x ∈ free :=
  hl.perm.symm.subset (List.mem_filter.2 ⟨hx, hfree⟩)

theorem nodup (hl : h.Listed v free) : free.Nodup :=
  hl.perm.nodup_iff.2 ((hl.sound.holds.nodup_offsets.of_map _).filter _)

theorem lists (hl : h.Listed v free) : h.Lists v.spans free :=
  hl.sound.lists (fun _ hx => (hl.mem hx).1) hl.ring_eq

/-- A block that goes to the front of the list goes to the front of the listing, and blocks that
leave the list leave the listing. -/
theorem lists_front (near : List Span) (hl : h.Listed v free) (hnear : near ⊆ v.spans)
    (hv' : h'.Sound ⟨spans, x.offset :: v.ring.diff (near.map Span.offset)⟩) (hx : x ∈ spans)
    (hkept : ∀ y ∈ v.spans, y.free → y ∉ near → y ∈ spans) :
    h'.Lists spans (x :: free.filter fun y => y ∉ near) := by
  refine hv'.lists (List.cons_subset.2 ⟨hx, fun y hy => ?_⟩) (congrArg (x.offset :: ·) ?_)
  · obtain ⟨hy, hfar⟩ := List.mem_filter.1 hy
    exact hkept y (hl.mem hy).1 (hl.mem hy).2 (of_decide_eq_true hfar)
  · rw [hl.sound.holds.ring_nodup.sdiff_eq_filter, ← hl.ring_eq, List.filter_map]
    refine congrArg _ (List.filter_congr fun y hy => decide_eq_decide.2 (not_congr ?_))
    -- a block is known by its header
    refine ⟨List.mem_map_of_mem, fun hmem => ?_⟩
    obtain ⟨z, hz, hzy⟩ := List.mem_map.1 hmem
    rwa [← hl.sound.tiles.offset_inj h.valid (mem_chain_of_mem (hnear hz))
      (mem_chain_of_mem (hl.mem hy).1) hzy]

/-- What takes the place of a free block, and of blocks in use below it, also does so in the
listing. -/
theorem lists_replace {pre mid post before after : List Span} {ring : List Nat} (low : List Span)
    (hl : h.Listed ⟨pre ++ (low ++ [x]) ++ post, ring⟩ (before ++ x :: after))
    (hused : ∀ y ∈ low, y.free = false)
    (hv' : h'.Sound ⟨pre ++ mid ++ post, before.map Span.offset ++ Span.freeHeaders mid ++
      after.map Span.offset⟩) :
    h'.Lists (pre ++ mid ++ post) (before ++ mid.filter Span.free ++ after) := by
  refine hv'.lists (fun y hy => ?_) (by simp [Span.freeHeaders])
  have hfresh := (List.nodup_cons.1 (List.nodup_middle.1 hl.nodup)).1
  have hother : y ∈ before ++ after → y ∈ pre ++ mid ++ post := fun hy => by
    have hne : y ≠ x := fun he => hfresh (he ▸ hy)
    have hmem : y ∈ before ++ x :: after := by
      simp only [List.mem_append, List.mem_cons] at hy ⊢
      tauto
    obtain ⟨hmem, hyfree⟩ := hl.mem hmem
    have hlow : y ∉ low := fun hlow => by simp [hused y hlow] at hyfree
    simp only [List.mem_append, List.mem_singleton] at hmem ⊢
    tauto
  rcases List.mem_append.1 hy with hy | hy
  · rcases List.mem_append.1 hy with hy | hy
    · exact hother (List.mem_append_left _ hy)
    · exact List.mem_append_left _ (List.mem_append_right _ (List.mem_of_mem_filter hy))
  · exact hother (List.mem_append_right _ hy)

end Listed

end Heap

end TaggedHeap
