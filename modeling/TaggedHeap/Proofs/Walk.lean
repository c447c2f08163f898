import TaggedHeap.Proofs.View
import Mathlib.Data.List.Perm.Basic

/-!
# Walking a heap

What the walks of a heap answer when it holds a view.  The block above and the block below are
the neighbours in the view (`Heap.Holds.nextBlock?_eq`, `Heap.Holds.prevBlock?_eq`), and the two
listings are the blocks of the view by address (`Heap.Holds.blocks_eq`) and its free blocks in
the order of the list (`Heap.Sound.freeBlocks_eq`).
-/

namespace TaggedHeap

namespace Heap

variable {h : Heap} {v : View} {pre post : List Span} {x y : Span}

/-! ### Neighbours by address -/

theorem getLast?_chain (spans : List Span) :
    (h.chain spans).getLast?.map Span.offset = some (h.lastOf spans) := by
  rw [chain, List.getLast?_append, lastOf]
  cases spans.getLast? <;> rfl

theorem lastOf_append_singleton (pre : List Span) (x : Span) :
    h.lastOf (pre ++ [x]) = x.offset := by
  rw [lastOf, List.getLast?_append]
  rfl

namespace Holds

theorem tag_eq (hv : h.Holds v) (hx : x ∈ h.chain v.spans) :
    ∃ t, h.tag x.offset = .ok t ∧ t.size = x.size ∧ t.isFree = x.free := by
  have hb := hv.bounds hx
  exact ⟨_, tag_of_le (by omega), (hv.tagged x hx).size_eq, (hv.tagged x hx).free_eq⟩

theorem nextBlock?_eq (hv : h.Holds v) (htop : h.top = h.lastOf v.spans)
    (hx : h.chain v.spans = pre ++ x :: post) :
    h.nextBlock? x.offset = .ok (post.head?.map Span.offset) := by
  have hlast := getLast?_chain (h := h) v.spans
  have hmx : x ∈ h.chain v.spans := by simp [hx]
  have ht := hv.tiles
  rw [hx, ← htop] at hlast
  rw [hx, Span.tile_append] at ht
  obtain ⟨_, -, -, -, ht⟩ := ht
  cases post with
  | nil =>
    simp only [List.getLast?_append, List.getLast?_singleton, Option.some_or, Option.map_some,
      Option.some.injEq] at hlast
    rw [nextBlock?, if_pos hlast]
    rfl
  | cons y post =>
    -- the topmost block is above `x`
    have hne : x.offset ≠ h.top := by
      rintro he
      rw [List.getLast?_append, List.getLast?_cons_cons, List.getLast?_cons, Option.some_or,
        Option.map_some, Option.some.injEq] at hlast
      have hlow := (ht.bounds (List.mem_of_getLast? List.getLast?_cons)).1
      have := hv.bounds hmx
      rw [Span.stop] at hlow
      omega
    obtain ⟨t, htag, hsize, -⟩ := hv.tag_eq hmx
    have hb := hv.bounds hmx
    rw [nextBlock?, if_neg hne, htag, ok_bind, hsize,
      Arena.add_of_le (a := h.arena) (by omega), ok_bind]
    exact congrArg (Except.ok ∘ some) ht.1.symm

theorem prevBlock?_eq (hv : h.Holds v) (hx : h.chain v.spans = pre ++ y :: x :: post) :
    h.prevBlock? x.offset = .ok (some y.offset) := by
  have hmy : y ∈ h.chain v.spans := by simp [hx]
  have ht := hv.tiles
  have htag := hv.tagged y hmy
  have hb := hv.bounds hmy
  rw [hx, Span.tile_append] at ht
  obtain ⟨_, -, -, -, hxy, -⟩ := ht
  rw [Span.stop] at hxy
  have hne : x.offset ≠ h.head := by omega
  have hfooter : h.tag (x.offset - 4) = .ok (h.arena.tagAt y.offset) := by
    rw [← htag.footer_eq, Span.stop, hxy]
    exact tag_of_le (by omega)
  rw [prevBlock?, if_neg hne, Address.sub_of_le (show 4 ≤ x.offset by omega), ok_bind, hfooter,
    ok_bind, htag.size_eq, Address.sub_of_le (by omega), ok_bind, pure_eq_ok,
    show x.offset - y.size = y.offset by omega]

theorem onlyFree_eq (hv : h.Holds v) (hx : x ∈ h.chain v.spans) :
    h.onlyFree (some x.offset) = .ok (if x.free then some x.offset else none) := by
  obtain ⟨t, htag, -, hfree⟩ := hv.tag_eq hx
  rw [onlyFree, htag, ok_bind, hfree, pure_eq_ok]

end Holds

/-! ### Listings -/

/-- What the header of the block says, and its links if it is free. -/
def blockOf (h : Heap) (x : Span) : Block where
  offset := x.offset
  size := x.size
  state :=
    if x.free then .free (h.arena.link? x.offset .next) (h.arena.link? x.offset .prev)
    else .used

theorem isFree_blockOf (h : Heap) (x : Span) : (h.blockOf x).isFree = x.free := by
  cases hx : x.free <;> simp [blockOf, Block.isFree, hx]

namespace Holds

theorem block_eq (hv : h.Holds v) (hx : x ∈ h.chain v.spans) :
    h.block x.offset = .ok (h.blockOf x) := by
  obtain ⟨t, htag, hsize, hfree⟩ := hv.tag_eq hx
  have hb := hv.bounds hx
  have hused : t.isUsed = !x.free := by rw [← hfree, Tag.isFree, Bool.not_not]
  have hin : x.offset + 12 ≤ h.arena.size := by omega
  cases hx : x.free <;> simp [block, blockOf, htag, hused, hsize, hx, neighbour?_of_le hin]

theorem blocksFrom_eq (hv : h.Holds v) (htop : h.top = h.lastOf v.spans) {limit : Nat}
    (hpost : h.chain v.spans = pre ++ post) (hlimit : post.length ≤ limit) :
    h.blocksFrom limit (post.head?.map Span.offset) = .ok (post.map h.blockOf) := by
  induction limit generalizing pre post with
  | zero => rw [List.length_eq_zero_iff.1 (by omega : post.length = 0)]; rfl
  | succ limit ih =>
    cases post with
    | nil => rfl
    | cons x post =>
      have hmx : x ∈ h.chain v.spans := by simp [hpost]
      have hrest := ih (show h.chain v.spans = (pre ++ [x]) ++ post by simp [hpost])
        (by simpa using hlimit)
      simp only [List.head?_cons, Option.map_some, blocksFrom, hv.nextBlock?_eq htop hpost,
        hv.block_eq hmx, ok_bind, hrest, pure_eq_ok, List.map_cons]

theorem length_le (hv : h.Holds v) : v.spans.length ≤ h.arena.size := by
  have ht := hv.tiles.totalSize
  -- every block takes up at least a byte
  have hlen : ∀ xs : List Span, (∀ x ∈ xs, 1 ≤ x.size) → xs.length ≤ Span.totalSize xs := by
    intro xs hxs
    induction xs with
    | nil => exact le_refl _
    | cons x xs ih =>
      have := hxs x (by simp)
      have := ih fun y hy => hxs y (List.mem_cons_of_mem _ hy)
      rw [List.length_cons, Span.totalSize_cons]
      omega
  have hchain := hlen (h.chain v.spans) fun x hx => by have := hv.bounds hx; omega
  have hsub : v.spans.length ≤ (h.chain v.spans).length := by
    rw [chain, List.length_append]
    omega
  have hsize := (hv.bounds (x := ⟨h.head, h.layout.minBlock, false⟩) (by simp [chain, sentinels]))
  omega

/-- The listing by address answers the blocks that the heap holds, and ends there. -/
theorem blocks_eq_of_le (hv : h.Holds v) (htop : h.top = h.lastOf v.spans) {limit : Nat}
    (hlimit : v.spans.length ≤ limit) : h.blocks limit = .ok (v.spans.map h.blockOf) := by
  have htail : h.chain v.spans = [⟨h.head, h.layout.minBlock, false⟩] ++
    ⟨h.tail, h.layout.minBlock, false⟩ :: v.spans := rfl
  have hnext := hv.nextBlock?_eq htop htail
  rw [blocks, hnext, ok_bind]
  exact hv.blocksFrom_eq htop rfl hlimit

theorem blocks_eq (hv : h.Holds v) (htop : h.top = h.lastOf v.spans) :
    h.blocks = .ok (v.spans.map h.blockOf) :=
  hv.blocks_eq_of_le htop hv.length_le

/-- The link forward from a block of the list leads to the next one. -/
theorem neighbour?_next_eq (hv : h.Holds v) {before rest : List Nat} {n : Nat}
    (hn : h.nodes v.ring = before ++ n :: rest) : h.neighbour? n .next = .ok rest.head? := by
  rw [neighbour?_of_le (hv.spaced.inside n (by simp [hn]))]
  cases rest with
  | nil =>
    have hlast := congrArg List.getLast? hn
    rw [nodes, ← List.cons_append, List.getLast?_append_of_ne_nil _ (List.cons_ne_nil _ _),
      List.getLast?_append_of_ne_nil _ (List.cons_ne_nil _ _)] at hlast
    obtain rfl : h.tail = n := Option.some.inj hlast
    rw [hv.tail_next, List.head?_nil]
  | cons m rest =>
    have hthr := hv.threads
    rw [hn, Arena.Threads, List.isChain_split, List.isChain_cons_cons] at hthr
    rw [hthr.2.1.1, List.head?_cons]

theorem freeBlocksFrom_eq (hv : h.Holds v) {xs : List Span} {before : List Nat} {limit : Nat}
    (hxs : ∀ x ∈ xs, x ∈ v.spans)
    (hnodes : h.nodes v.ring = before ++ (xs.map Span.offset ++ [h.tail]))
    (hlimit : xs.length ≤ limit) :
    h.freeBlocksFrom limit ((xs.map Span.offset ++ [h.tail]).head?) =
      .ok (xs.map h.blockOf) := by
  induction limit generalizing xs before with
  | zero => rw [List.length_eq_zero_iff.1 (by omega : xs.length = 0)]; rfl
  | succ limit ih =>
    cases xs with
    | nil => simp [freeBlocksFrom]
    | cons x xs =>
      have hmx : x ∈ h.chain v.spans := mem_chain_of_mem (hxs x (by simp))
      rw [List.map_cons, List.cons_append] at hnodes ⊢
      have hne : x.offset ≠ h.tail := by
        have hnodup := hv.spaced.nodup
        rw [hnodes, List.nodup_append, List.nodup_cons] at hnodup
        exact fun heq => hnodup.2.1.1 (by simp [heq])
      have hrest := ih (fun y hy => hxs y (List.mem_cons_of_mem _ hy))
        (show h.nodes v.ring = (before ++ [x.offset]) ++ (xs.map Span.offset ++ [h.tail]) by
          simp [hnodes])
        (by simpa using hlimit)
      simp only [List.head?_cons, freeBlocksFrom, if_neg hne, hv.neighbour?_next_eq hnodes,
        hv.block_eq hmx, hrest, ok_bind, pure_eq_ok, List.map_cons]

end Holds

/-- The free blocks in the order of the list. -/
theorem Sound.exists_listing (hv : h.Sound v) :
    ∃ xs : List Span, xs.Perm (v.spans.filter Span.free) ∧ xs.map Span.offset = v.ring := by
  have := congrFun (congrFun (List.eq_map_comp_perm Span.offset) v.ring)
    (v.spans.filter Span.free)
  obtain ⟨xs, hring, hperm⟩ := this.mpr hv.listed
  exact ⟨xs, hperm, hring.symm⟩

/-- The listing of free blocks answers them in the order of the list, and ends there. -/
theorem Sound.freeBlocks_eq_of_le (hv : h.Sound v) {xs : List Span} {limit : Nat}
    (hperm : xs.Perm (v.spans.filter Span.free)) (hring : xs.map Span.offset = v.ring)
    (hlimit : xs.length ≤ limit) : h.freeBlocks limit = .ok (xs.map h.blockOf) := by
  have hnodes : h.nodes v.ring = [h.head] ++ (xs.map Span.offset ++ [h.tail]) := by
    rw [nodes, hring]
    rfl
  rw [freeBlocks, hv.holds.neighbour?_next_eq (show h.nodes v.ring =
    [] ++ h.head :: (xs.map Span.offset ++ [h.tail]) from hnodes), ok_bind]
  exact hv.holds.freeBlocksFrom_eq (fun x hx => List.mem_of_mem_filter (hperm.subset hx)) hnodes
    hlimit

theorem Sound.freeBlocks_eq (hv : h.Sound v) {xs : List Span}
    (hperm : xs.Perm (v.spans.filter Span.free)) (hring : xs.map Span.offset = v.ring) :
    h.freeBlocks = .ok (xs.map h.blockOf) := by
  refine hv.freeBlocks_eq_of_le hperm hring ?_
  rw [hperm.length_eq]
  exact (List.length_filter_le _ _).trans hv.holds.length_le

end Heap

end TaggedHeap
