import TaggedHeap.Proofs.Ring
import TaggedHeap.Proofs.Tiling
import Mathlib.Data.List.Perm.Subperm

/-!
# What a heap holds

A `View` says what a heap should hold: its blocks by address, and its free blocks in the order
of their list.  That the arena really holds it is stated in two steps.

* `Heap.Holds`: the sentinels and the blocks tile the end of the arena and carry their tags,
  and the list runs from the head sentinel through the blocks it should to the tail sentinel.
  This much is kept at every step of an operation.
* `Heap.Sound`: moreover the list holds exactly the free blocks, no two of them are next to each
  other, and the heap knows its topmost block.  This is what operations start from and end with.

Everything a heap looks up while it works follows from these: the blocks above and below a block
(`Heap.nextBlock?_eq`, `Heap.prevBlock?_eq`), and both listings of blocks.
-/

namespace TaggedHeap

/-- What a heap should hold. -/
structure View where
  /-- The blocks by address, sentinels excluded. -/
  spans : List Span
  /-- The headers of the free blocks in the order of the list. -/
  ring : List Nat

theorem View.exists_split {v : View} {x : Span} (hx : x ∈ v.spans) :
    ∃ lo hi ring, v = ⟨lo ++ [x] ++ hi, ring⟩ := by
  obtain ⟨lo, hi, hspans⟩ := List.append_of_mem hx
  refine ⟨lo, hi, v.ring, ?_⟩
  cases v
  simpa using hspans

namespace Span

/-- The headers of the free blocks among the given ones. -/
def freeHeaders (xs : List Span) : List Nat := (xs.filter Span.free).map Span.offset

/-- The blocks in use among the given ones. -/
def used (xs : List Span) : List Span := xs.filter (!·.free)

/-- No two neighbours are both free. -/
def Separated (xs : List Span) : Prop := xs.IsChain fun x y => ¬ (x.free ∧ y.free)

@[simp] theorem freeHeaders_append (xs ys : List Span) :
    freeHeaders (xs ++ ys) = freeHeaders xs ++ freeHeaders ys := by
  rw [freeHeaders, List.filter_append, List.map_append, freeHeaders, freeHeaders]

theorem freeHeaders_sublist (xs : List Span) : (freeHeaders xs).Sublist (xs.map Span.offset) :=
  List.filter_sublist.map _

theorem mem_freeHeaders {xs : List Span} {n : Nat} :
    n ∈ freeHeaders xs ↔ ∃ x ∈ xs, x.free ∧ x.offset = n := by
  simp [freeHeaders, and_assoc]

@[simp] theorem used_append (xs ys : List Span) : used (xs ++ ys) = used xs ++ used ys :=
  List.filter_append ..

theorem mem_used {x : Span} {xs : List Span} : x ∈ used xs ↔ x ∈ xs ∧ x.free = false := by
  simp [used]

end Span

namespace Heap

variable {h : Heap} {v : View} {spans : List Span} {ring : List Nat} {a : Arena}

/-- The two sentinels, as blocks. -/
def sentinels (h : Heap) : List Span :=
  [⟨h.head, h.layout.minBlock, false⟩, ⟨h.tail, h.layout.minBlock, false⟩]

/-- The sentinels and the blocks. -/
def chain (h : Heap) (spans : List Span) : List Span := h.sentinels ++ spans

/-- The list from sentinel to sentinel. -/
def nodes (h : Heap) (ring : List Nat) : List Nat := h.head :: (ring ++ [h.tail])

/-- The header of the topmost of the blocks, or of the tail sentinel if there are none. -/
def lastOf (h : Heap) (spans : List Span) : Nat := (spans.getLast?.map Span.offset).getD h.tail

/-- Offsets of the links of the list. -/
def ringBytes (h : Heap) (ring : List Nat) : Set Nat :=
  {i | ∃ x ∈ h.nodes ring, x + 4 ≤ i ∧ i < x + 12}

/-- The arena holds the blocks and the list, whichever blocks the list consists of. -/
structure Holds (h : Heap) (v : View) : Prop where
  /-- The sentinels and the blocks tile the arena from the head sentinel on, up to the last
  word. -/
  tiles : Span.Tile h.layout h.head (h.chain v.spans) (h.arena.size - 4)
  /-- Sentinels and blocks carry their tags. -/
  tagged : ∀ x ∈ h.chain v.spans, h.arena.Tagged x
  /-- The list consists of different blocks. -/
  headers : v.ring.Subperm (v.spans.map Span.offset)
  /-- Each block of the list is linked with the next one. -/
  threads : h.arena.Threads (h.nodes v.ring)
  /-- Nothing is linked before the head sentinel. -/
  head_prev : h.arena.link? h.head .prev = none
  /-- Nothing is linked after the tail sentinel. -/
  tail_next : h.arena.link? h.tail .next = none

/-- The arena holds the blocks, and the list holds the free ones. -/
structure Sound (h : Heap) (v : View) : Prop where
  /-- The sentinels and the blocks tile the arena from the head sentinel on, up to the last
  word. -/
  tiles : Span.Tile h.layout h.head (h.chain v.spans) (h.arena.size - 4)
  /-- Sentinels and blocks carry their tags. -/
  tagged : ∀ x ∈ h.chain v.spans, h.arena.Tagged x
  /-- The heap knows its topmost block. -/
  top_eq : h.top = h.lastOf v.spans
  /-- No two free blocks are next to each other. -/
  separated : Span.Separated v.spans
  /-- The list holds each free block once, and nothing else. -/
  listed : v.ring.Perm (Span.freeHeaders v.spans)
  /-- Each block of the list is linked with the next one. -/
  threads : h.arena.Threads (h.nodes v.ring)
  /-- Nothing is linked before the head sentinel. -/
  head_prev : h.arena.link? h.head .prev = none
  /-- Nothing is linked after the tail sentinel. -/
  tail_next : h.arena.link? h.tail .next = none

theorem Sound.holds (hv : h.Sound v) : h.Holds v where
  tiles := hv.tiles
  tagged := hv.tagged
  headers := hv.listed.subperm.trans (Span.freeHeaders_sublist _).subperm
  threads := hv.threads
  head_prev := hv.head_prev
  tail_next := hv.tail_next

/-- A heap that has been told its topmost block is sound, if its list is. -/
theorem Holds.sound (hv : h.Holds v) (hsep : Span.Separated v.spans)
    (hlist : v.ring.Perm (Span.freeHeaders v.spans)) :
    { h with top := h.lastOf v.spans }.Sound v where
  tiles := hv.tiles
  tagged := hv.tagged
  top_eq := rfl
  separated := hsep
  listed := hlist
  threads := hv.threads
  head_prev := hv.head_prev
  tail_next := hv.tail_next

theorem head_lt_tail (h : Heap) : h.head + 16 ≤ h.tail :=
  Nat.add_le_add_left h.valid.four_words_le _

theorem chain_nil : h.chain [] = h.sentinels := List.append_nil _

theorem chain_append (xs ys : List Span) : h.chain (xs ++ ys) = h.chain xs ++ ys :=
  (List.append_assoc _ _ _).symm

theorem mem_chain_of_mem {x : Span} (hx : x ∈ spans) : x ∈ h.chain spans :=
  List.mem_append_right _ hx

theorem chain_headers : (h.chain spans).map Span.offset =
    h.head :: h.tail :: spans.map Span.offset := rfl

theorem head_mem_nodes (h : Heap) (ring : List Nat) : h.head ∈ h.nodes ring := by simp [nodes]

theorem tail_mem_nodes (h : Heap) (ring : List Nat) : h.tail ∈ h.nodes ring := by simp [nodes]

theorem linkBytes_subset_ringBytes {x : Nat} (hx : x ∈ h.nodes ring) (l : Link) :
    Arena.linkBytes x l ⊆ h.ringBytes ring := by
  intro i hi
  rw [Arena.mem_linkBytes] at hi
  refine ⟨x, hx, ?_⟩
  cases l <;> simp only [Link.slot_next, Link.slot_prev] at hi <;> omega

/-! ### Geometry -/

section Geometry

variable (ht : Span.Tile h.layout h.head (h.chain spans) (h.arena.size - 4))

include ht

theorem offset_mod_four_of_tile {x : Span} (hx : x ∈ h.chain spans) :
    x.offset % 4 = h.head % 4 := by
  have h4 : 4 ∣ h.layout.alignment := Nat.dvd_trans (by decide) h.valid.eight_dvd
  rw [← Nat.mod_mod_of_dvd x.offset h4, ht.offset_mod hx, Nat.mod_mod_of_dvd _ h4]

theorem bounds_of_tile {x : Span} (hx : x ∈ h.chain spans) :
    h.head ≤ x.offset ∧ 16 ≤ x.size ∧ x.offset + x.size + 4 ≤ h.arena.size := by
  have hb := ht.bounds hx
  have hs := (ht.admits hx).le h.valid
  rw [Span.stop] at hb
  omega

/-- Different blocks, and the sentinels, lie apart. -/
theorem spaced_of_tile (hsub : ring.Subperm (spans.map Span.offset)) :
    h.arena.Spaced (h.nodes ring) := by
  have hall : h.arena.Spaced ((h.chain spans).map Span.offset) := by
    constructor
    · refine List.pairwise_map.2 (ht.pairwise.imp_of_mem fun hx hy hxy => ⟨?_, ?_⟩)
      · have := bounds_of_tile ht hx
        rw [Span.stop] at hxy
        omega
      · rw [offset_mod_four_of_tile ht hx, offset_mod_four_of_tile ht hy]
    · intro _ hn
      obtain ⟨x, hx, rfl⟩ := List.mem_map.1 hn
      have := bounds_of_tile ht hx
      omega
  -- the nodes are some of the headers, in another order
  obtain ⟨ring', hperm, hsub⟩ := hsub
  refine (hall.sublist (chain_headers ▸ (hsub.cons_cons _).cons_cons _)).perm ?_
  exact .cons _ ((hperm.cons _).trans (List.perm_append_singleton _ _).symm)

omit ht in
theorem exists_of_mem_nodes (hring : ring ⊆ spans.map Span.offset) {n : Nat}
    (hn : n ∈ h.nodes ring) : ∃ x ∈ h.chain spans, x.offset = n := by
  rw [nodes, List.mem_cons, List.mem_append, List.mem_singleton] at hn
  rw [← List.mem_map, chain_headers, List.mem_cons, List.mem_cons]
  rcases hn with hn | hn | hn
  · exact .inl hn
  · exact .inr (.inr (hring hn))
  · exact .inr (.inl hn)

/-- No link of the list lies in a block that is not part of it. -/
theorem not_mem_ringBytes_of_tile (hring : ring ⊆ spans.map Span.offset) {x : Span}
    (hx : x ∈ h.chain spans) (hfresh : x.offset ∉ h.nodes ring) {i : Nat} (hi : i ∈ x.bytes) :
    i ∉ h.ringBytes ring := by
  rintro ⟨n, hn, hni⟩
  obtain ⟨y, hy, rfl⟩ := exists_of_mem_nodes hring hn
  have hb := bounds_of_tile ht hy
  rw [Span.mem_bytes] at hi
  rcases ht.eq_or_le hx hy with rfl | hxy
  · exact hfresh hn
  · simp only [Span.stop] at hxy hi
    omega

/-- No tag lies in a link of the list. -/
theorem tagBytes_disjoint_of_tile (hring : ring ⊆ spans.map Span.offset) {x : Span}
    (hx : x ∈ h.chain spans) {i : Nat} (hi : i ∈ x.tagBytes) : i ∉ h.ringBytes ring := by
  rintro ⟨n, hn, hni⟩
  obtain ⟨y, hy, rfl⟩ := exists_of_mem_nodes hring hn
  have hsx := (ht.admits hx).le h.valid
  have hsy := (ht.admits hy).le h.valid
  have hxy := ht.eq_or_le hx hy
  simp only [Span.tagBytes, Span.stop, Set.mem_union, Set.mem_Ico] at hi hxy
  rcases hxy with rfl | hxy
  · omega
  · omega

end Geometry

namespace Holds

theorem bounds (hv : h.Holds v) {x : Span} (hx : x ∈ h.chain v.spans) :
    h.head ≤ x.offset ∧ 16 ≤ x.size ∧ x.offset + x.size + 4 ≤ h.arena.size :=
  bounds_of_tile hv.tiles hx

theorem spaced_of_subperm (hv : h.Holds v) (hsub : ring.Subperm (v.spans.map Span.offset)) :
    h.arena.Spaced (h.nodes ring) := spaced_of_tile hv.tiles hsub

theorem spaced (hv : h.Holds v) : h.arena.Spaced (h.nodes v.ring) :=
  hv.spaced_of_subperm hv.headers

theorem mem_nodes (hv : h.Holds v) {n : Nat} (hn : n ∈ h.nodes v.ring) :
    ∃ x ∈ h.chain v.spans, x.offset = n := exists_of_mem_nodes hv.headers.subset hn

/-- No link of the list lies in a block that is not part of it. -/
theorem not_mem_ringBytes (hv : h.Holds v) {x : Span} (hx : x ∈ h.chain v.spans)
    (hring : x.offset ∉ h.nodes v.ring) {i : Nat} (hi : i ∈ x.bytes) :
    i ∉ h.ringBytes v.ring :=
  not_mem_ringBytes_of_tile hv.tiles hv.headers.subset hx hring hi

theorem nodup_offsets (hv : h.Holds v) : (v.spans.map Span.offset).Nodup := by
  have := hv.tiles.nodup_offsets h.valid
  rw [chain_headers, List.nodup_cons, List.nodup_cons] at this
  exact this.2.2

/-- Two blocks that have a byte in common are the same. -/
theorem eq_of_mem_bytes (hv : h.Holds v) {x y : Span} (hx : x ∈ h.chain v.spans)
    (hy : y ∈ h.chain v.spans) {i : Nat} (hix : i ∈ x.bytes) (hiy : i ∈ y.bytes) : x = y := by
  rw [Span.mem_bytes] at hix hiy
  exact (hv.tiles.eq_or_le hx hy).resolve_right (by omega)

end Holds

/-- A block is listed exactly if it is free. -/
theorem Sound.mem_ring_iff (hv : h.Sound v) {x : Span} (hx : x ∈ v.spans) :
    x.offset ∈ v.ring ↔ x.free := by
  rw [hv.listed.mem_iff, Span.mem_freeHeaders]
  constructor
  · rintro ⟨y, hy, hfree, hxy⟩
    have := hv.tiles.offset_inj h.valid (mem_chain_of_mem hx) (mem_chain_of_mem hy) hxy.symm
    rwa [this]
  · exact fun hfree => ⟨x, hx, hfree, rfl⟩

/-- A free block stands between others, by address and in the list. -/
theorem Sound.exists_of_free (hv : h.Sound v) {x : Span} (hx : x ∈ v.spans) (hfree : x.free) :
    ∃ pre post before after, v = ⟨pre ++ [x] ++ post, before ++ x.offset :: after⟩ := by
  obtain ⟨before, after, hring⟩ := List.append_of_mem ((hv.mem_ring_iff hx).2 hfree)
  obtain ⟨pre, post, ring, rfl⟩ := View.exists_split hx
  exact ⟨pre, post, before, after, by rw [← hring]⟩

/-- A heap stays sound as long as its tags and links are kept. -/
theorem Sound.keep {s : Set Nat} (hv : h.Sound v) (hk : h.arena.Keeps a s)
    (hsize : a.size = h.arena.size) (htags : ∀ x ∈ h.chain v.spans, x.tagBytes ⊆ s)
    (hlinks : h.ringBytes v.ring ⊆ s) : { h with arena := a : Heap }.Sound v where
  tiles := hsize ▸ hv.tiles
  tagged x hx := (hv.tagged x hx).keep hk (htags x hx)
  top_eq := hv.top_eq
  separated := hv.separated
  listed := hv.listed
  threads := hv.threads.keep hk fun _ hn l _ hi => hlinks (linkBytes_subset_ringBytes hn l hi)
  head_prev := (hk.link?_eq fun _ hi => hlinks
    (linkBytes_subset_ringBytes (h.head_mem_nodes _) _ hi)).trans hv.head_prev
  tail_next := (hk.link?_eq fun _ hi => hlinks
    (linkBytes_subset_ringBytes (h.tail_mem_nodes _) _ hi)).trans hv.tail_next

/-- What the arena grows from is not part of the view. -/
theorem Sound.with_source (hv : h.Sound v) (source : Source) :
    { h with arena := { h.arena with source } : Heap }.Sound v :=
  hv.keep (s := Set.univ) ⟨Nat.le_refl _, fun _ _ => rfl⟩ rfl (fun _ _ => Set.subset_univ _)
    (Set.subset_univ _)

end Heap

end TaggedHeap
