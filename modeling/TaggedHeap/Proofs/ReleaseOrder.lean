import TaggedHeap.Proofs.Contract
import TaggedHeap.Proofs.Safety
import TaggedHeap.Proofs.Uniqueness

/-!
# The order of releases

Free blocks are always merged as far as possible, so the blocks of a heap follow from those in use:
between two of them lies one free block or none (`Span.Tile.eq_of_used`).  Giving back some
pointers takes the same blocks out of use in any order.  The layout afterwards is therefore the same
(`Client.Reachable.release_order`), and only the list of free blocks depends on the order.
-/

namespace TaggedHeap

/-! ### Blocks in use determine the others -/

namespace Span

variable {l : Layout} {x y : Span} {xs ys : List Span} {start stop : Nat}

theorem used_cons_of_used (hx : x.free = false) : used (x :: xs) = x :: used xs :=
  List.filter_cons_of_pos (by simp [hx])

theorem used_cons_of_free (hx : x.free) : used (x :: xs) = used xs :=
  List.filter_cons_of_neg (by simp [hx])

theorem Tile.size_le_of_free (hx : Tile l start (x :: xs) stop) (hy : Tile l start (y :: ys) stop)
    (hsep : Separated (x :: xs)) (hxfree : x.free) (hyfree : y.free)
    (hused : used (x :: xs) ⊆ used (y :: ys)) : y.size ≤ x.size := by
  obtain ⟨hxstart, -, hx⟩ := hx
  obtain ⟨hystart, -, hy⟩ := hy
  have hystop := hy.le
  by_contra hlt
  rw [Span.stop] at hx hystop
  cases xs with
  | nil =>
    have := tile_nil.1 hx
    omega
  | cons z xs =>
    -- the block above `x` is in use, so it is also one of the others
    have hzused : z.free = false := hsep.head?_used hxfree rfl
    have hz := hused (mem_used.2 ⟨List.mem_cons_of_mem _ List.mem_cons_self, hzused⟩)
    obtain rfl | hz := List.mem_cons.1 (mem_used.1 hz).1
    · simp [hyfree] at hzused
    · have hzlow := (hy.bounds hz).1
      have hzstart := hx.1
      rw [Span.stop] at hzlow
      omega

theorem Tile.head_eq_of_used (hl : l.Valid) (hx : Tile l start (x :: xs) stop)
    (hy : Tile l start (y :: ys) stop) (hsx : Separated (x :: xs)) (hsy : Separated (y :: ys))
    (hused : (used (x :: xs)).Perm (used (y :: ys))) : x = y := by
  have hoffset : x.offset = y.offset := hx.1.trans hy.1.symm
  cases hxfree : x.free with
  | false =>
    have hmem := (mem_used.1 (hused.subset (mem_used.2 ⟨List.mem_cons_self, hxfree⟩))).1
    exact Tile.offset_inj hl hy hmem List.mem_cons_self hoffset
  | true =>
    cases hyfree : y.free with
    | false =>
      have hmem := (mem_used.1 (hused.symm.subset (mem_used.2 ⟨List.mem_cons_self, hyfree⟩))).1
      exact Tile.offset_inj hl hx List.mem_cons_self hmem hoffset
    | true =>
      have hsize : x.size = y.size :=
        Nat.le_antisymm (hy.size_le_of_free hx hsy hyfree hxfree hused.symm.subset)
          (hx.size_le_of_free hy hsx hxfree hyfree hused.subset)
      cases x
      cases y
      simp_all

/-- **The blocks in use determine all blocks**, if no two free ones are next to each other. -/
theorem Tile.eq_of_used (hl : l.Valid) (hx : Tile l start xs stop) (hy : Tile l start ys stop)
    (hsx : Separated xs) (hsy : Separated ys) (hused : (used xs).Perm (used ys)) : xs = ys := by
  -- block by block from below: the lowest ones are the same, so the others start alike
  induction xs generalizing start ys with
  | nil =>
    cases ys with
    | nil => rfl
    | cons y ys =>
      have hlt := Tile.lt hl hy
      have heq := tile_nil.1 hx
      omega
  | cons x xs ih =>
    cases ys with
    | nil =>
      have hlt := Tile.lt hl hx
      have heq := tile_nil.1 hy
      omega
    | cons y ys =>
      obtain rfl := hx.head_eq_of_used hl hy hsx hsy hused
      have hrest : (used xs).Perm (used ys) := by
        cases hfree : x.free with
        | true => rwa [used_cons_of_free hfree, used_cons_of_free hfree] at hused
        | false =>
          rw [used_cons_of_used hfree, used_cons_of_used hfree] at hused
          exact hused.cons_inv
      rw [ih hx.2.2 hy.2.2 hsx.tail hsy.tail hrest]

theorem Tile.eq_of_none_used (hl : l.Valid) (hx : Tile l start xs stop) (hsep : Separated xs)
    (hused : used xs = []) : xs = if stop = start then [] else [⟨start, stop - start, true⟩] := by
  have hfree : ∀ x ∈ xs, x.free := fun x hx => by
    simpa using List.filter_eq_nil_iff.1 hused x hx
  cases xs with
  | nil => rw [if_pos (tile_nil.1 hx).symm]
  | cons x xs =>
    have hlt := Tile.lt hl hx
    obtain ⟨rfl, -, hx⟩ := hx
    have hx₀ := hfree x List.mem_cons_self
    cases xs with
    | nil =>
      have hstop := tile_nil.1 hx
      rw [Span.stop] at hstop
      rw [if_neg (by omega), ← hstop, Nat.add_sub_cancel_left, ← hx₀]
    | cons y ys =>
      have hyused := hsep.head?_used hx₀ rfl
      simp [hfree y (by simp)] at hyused

end Span

namespace Block

/-- What a block looks like to those who do not care for the list: its offset, its size, and
whether it is free. -/
def outline (b : Block) : Nat × Nat × Bool := (b.offset, b.size, b.isFree)

end Block

namespace Heap

variable {h h' : Heap} {v v' : View}

theorem outline_blockOf (h : Heap) (x : Span) :
    (h.blockOf x).outline = (x.offset, x.size, x.free) := by
  rw [Block.outline, isFree_blockOf]
  rfl

theorem map_outline_blockOf (h : Heap) (xs : List Span) :
    (xs.map h.blockOf).map Block.outline = xs.map fun x => (x.offset, x.size, x.free) := by
  rw [List.map_map]
  exact List.map_congr_left fun x _ => h.outline_blockOf x

theorem Sound.tiles_spans (hv : h.Sound v) :
    Span.Tile h.layout h.firstBlock v.spans (h.arena.size - 4) := hv.tiles.2.2.2.2

/-- Heaps in the same place with the same blocks in use have the same blocks. -/
theorem Sound.spans_eq_of_used (hv : h.Sound v) (hv' : h'.Sound v') (hlayout : h'.layout = h.layout)
    (hhead : h'.head = h.head) (hsize : h'.arena.size = h.arena.size)
    (hused : (Span.used v'.spans).Perm (Span.used v.spans)) : v'.spans = v.spans := by
  have ht := hv'.tiles_spans
  rw [firstBlock, tail, hlayout, hhead, hsize] at ht
  exact Span.Tile.eq_of_used h.valid ht hv.tiles_spans hv'.separated hv.separated hused

/-- Without blocks in use there is one free block from the first offset to the last, or none. -/
theorem Sound.outlines_of_none_used (hv : h.Sound v) (hused : Span.used v.spans = []) :
    (v.spans.map h.blockOf).map Block.outline =
      if h.arena.size = h.firstBlock + wordBytes then []
      else [(h.firstBlock, h.arena.size - wordBytes - h.firstBlock, true)] := by
  have hpos := h.head_lt_tail
  have hlow : h.tail ≤ h.firstBlock := Nat.le_add_right _ _
  have hstop := hv.tiles_spans.le
  have hiff : h.arena.size - wordBytes = h.firstBlock ↔
      h.arena.size = h.firstBlock + wordBytes := by
    rw [wordBytes]
    omega
  rw [map_outline_blockOf, hv.tiles_spans.eq_of_none_used h.valid hv.separated hused,
    if_congr hiff rfl rfl, apply_ite (List.map _)]
  rfl

end Heap

/-! ### Giving back one pointer after the other -/

namespace Client

open Heap

variable {c d : Client} {layout : Layout} {arena : Arena} {v : View} {x : Span} {p : Pointer}
  {ps qs : List Pointer}

/-- The actions that give back the pointers. -/
def releases (ps : List Pointer) : List Action := ps.map fun p => .release (some p)

/-- `d` is what becomes of a client `c` with the view `v` that has given back the pointers. -/
structure Released (c : Client) (layout : Layout) (arena : Arena) (v : View) (ps : List Pointer)
    (d : Client) (w : View) : Prop where
  /-- The state is consistent. -/
  consistent : d.Consistent layout arena w
  /-- The other blocks stay in use. -/
  used : (Span.used w.spans).Perm ((Span.used v.spans).filter fun x => x.pointer ∉ ps)
  /-- They keep their bytes. -/
  evolves : c.heap.Evolves d.heap (c.heap.safe (Span.used w.spans))
  /-- The arena does not grow. -/
  size_eq : d.heap.arena.size = c.heap.arena.size

namespace Consistent

theorem filter_used (hc : c.Consistent layout arena v) {rest : List Span}
    (hx : (Span.used v.spans).Perm (x :: rest)) :
    ((Span.used v.spans).filter fun y => y.pointer ∉ [x.pointer]).Perm rest := by
  have hnodup := (hx.map Span.pointer).nodup_iff.1 hc.sound.nodup_pointers
  have hfresh := (List.nodup_cons.1 hnodup).1
  refine (hx.filter _).trans (.of_eq ?_)
  rw [List.filter_cons_of_neg (by simp), List.filter_eq_self]
  intro y hy
  rw [decide_eq_true_eq, List.mem_singleton]
  exact fun heq => hfresh (heq ▸ List.mem_map_of_mem hy)

theorem released_one (hc : c.Consistent layout arena v) (hp : p ∈ c.pointers) :
    ∃ d w, c.act (.release (some p)) = .ok (.ok none, d) ∧ c.Released layout arena v [p] d w := by
  have hsize := hc.anchored.placed.size_le
  obtain ⟨x, hx, rfl⟩ := hc.exists_of_held hp
  have hperm : (Span.used v.spans).Perm (Option.toList (some x) ++ (Span.used v.spans).erase x) :=
    List.perm_cons_erase hx
  obtain ⟨h, log, w, hrun, hserved⟩ := release_served hc.sound hsize 0 hperm
  have hc' : Consistent ⟨⟨h, log⟩, _⟩ layout arena w :=
    (hc.served (a := .release (some x.pointer)) hserved rfl rfl).1
  have hsame : h.arena.size = c.heap.arena.size := by
    obtain ⟨hmem, hused⟩ := Span.mem_used.1 hx
    obtain ⟨lo, hi, ring, rfl⟩ := View.exists_split hmem
    obtain ⟨hlo, hhi⟩ := hc.sound.separated.sides
    obtain ⟨pre, left, right, post, hn⟩ := Span.exists_around hlo hhi
    obtain ⟨_, _, hrun', -, -, hsame⟩ := releaseBlock_merged hc.sound hused hsize hn
    cases hrun.symm.trans hrun'
    exact hsame
  have hafter : (Span.used w.spans).Perm ((Span.used v.spans).erase x) := hserved.after
  refine ⟨_, w, ?_, hc', hafter.trans (hc.filter_used hperm).symm,
    hserved.evolves.mono (safe_mono hafter.subset), hsame⟩
  rw [Client.act, show Action.perform _ c.session = _ from (SessionM.bind_ok hrun).trans rfl]
  rfl

end Consistent

namespace Released

variable {e : Client} {w u : View}

theorem refl (hc : c.Consistent layout arena v) : c.Released layout arena v [] c v where
  consistent := hc
  used := .of_eq (List.filter_eq_self.2 (by simp)).symm
  evolves := .refl hc.anchored.placed.size_le _
  size_eq := rfl

theorem trans (hd : c.Released layout arena v ps d w) (he : d.Released layout arena w qs e u) :
    c.Released layout arena v (ps ++ qs) e u where
  consistent := he.consistent
  used := by
    refine he.used.trans ((hd.used.filter _).trans (.of_eq ?_))
    rw [List.filter_filter]
    exact List.filter_congr fun x _ => by simp [Bool.and_comm]
  evolves := by
    have hsub : Span.used u.spans ⊆ Span.used w.spans := fun x hx =>
      List.mem_of_mem_filter (he.used.subset hx)
    have hevolves := he.evolves
    rw [hd.evolves.safe_eq] at hevolves
    exact (hd.evolves.mono (safe_mono hsub)).trans hevolves
  size_eq := he.size_eq.trans hd.size_eq

theorem mem_pointers (hc : c.Consistent layout arena v) (hd : c.Released layout arena v ps d w) :
    p ∈ d.pointers ↔ p ∈ c.pointers ∧ p ∉ ps := by
  rw [hd.consistent.owned.mem_iff, hc.owned.mem_iff, (hd.used.map Span.pointer).mem_iff]
  simp only [List.mem_map, List.mem_filter, decide_eq_true_eq]
  constructor
  · rintro ⟨x, ⟨hx, hps⟩, rfl⟩
    exact ⟨⟨x, hx, rfl⟩, hps⟩
  · rintro ⟨⟨x, hx, rfl⟩, hps⟩
    exact ⟨x, ⟨hx, hps⟩, rfl⟩

theorem payload_eq (hc : c.Consistent layout arena v) (hd : c.Released layout arena v ps d w)
    (hp : p ∈ d.pointers) : ∃ bytes, c.heap.payload p = .ok bytes ∧
      d.heap.payload p = .ok bytes := by
  obtain ⟨x, hx, rfl⟩ := hd.consistent.exists_of_held hp
  have hxv := List.mem_of_mem_filter (hd.used.subset hx)
  have hkeep := hc.payload_keep hd.consistent hxv hx
    (hd.evolves.keeps.mono fun i hi => .inr ⟨x, hx, hi⟩)
  exact ⟨_, hc.payload_eq hxv, hkeep.trans (hc.payload_eq hxv)⟩

theorem none_used (hc : c.Consistent layout arena v) (hd : c.Released layout arena v ps d w)
    (hall : c.pointers ⊆ ps) : Span.used w.spans = [] := by
  refine List.eq_nil_iff_forall_not_mem.2 fun x hx => ?_
  have hmem := hd.consistent.owned.mem_iff.2 (List.mem_map_of_mem hx)
  obtain ⟨hheld, hkept⟩ := (hd.mem_pointers hc).1 hmem
  exact hkept (hall hheld)

theorem spans_eq (hd : c.Released layout arena v ps d w) (he : c.Released layout arena v qs e u)
    (hsame : ∀ p, p ∈ ps ↔ p ∈ qs) : u.spans = w.spans := by
  refine hd.consistent.sound.spans_eq_of_used he.consistent.sound
    (he.evolves.layout_eq.trans hd.evolves.layout_eq.symm)
    (he.evolves.head_eq.trans hd.evolves.head_eq.symm) (he.size_eq.trans hd.size_eq.symm) ?_
  refine he.used.trans (.trans (.of_eq (List.filter_congr fun x _ => ?_)) hd.used.symm)
  rw [decide_eq_decide, hsame]

theorem top_eq (hd : c.Released layout arena v ps d w) (he : c.Released layout arena v qs e u)
    (hspans : u.spans = w.spans) : e.heap.top = d.heap.top := by
  have htail : e.heap.tail = d.heap.tail := by
    rw [tail, tail, he.evolves.head_eq, he.evolves.layout_eq, hd.evolves.head_eq,
      hd.evolves.layout_eq]
  rw [he.consistent.sound.top_eq, hd.consistent.sound.top_eq, lastOf, lastOf, hspans, htail]

end Released

/-- **Pointers are given back** one after the other. -/
theorem Consistent.released (hc : c.Consistent layout arena v) (hheld : ps ⊆ c.pointers)
    (hnodup : ps.Nodup) :
    ∃ d w, c.after (releases ps) = some d ∧ c.Released layout arena v ps d w := by
  induction ps generalizing c v with
  | nil => exact ⟨c, v, rfl, .refl hc⟩
  | cons p ps ih =>
    obtain ⟨hp, hheld⟩ := List.cons_subset.1 hheld
    obtain ⟨hfresh, hnodup⟩ := List.nodup_cons.1 hnodup
    obtain ⟨d, w, hact, hd⟩ := hc.released_one hp
    -- the others are still held
    have hheld : ps ⊆ d.pointers := fun q hq =>
      (hd.mem_pointers hc).2 ⟨hheld hq, by rintro (_ | ⟨_, ⟨⟩⟩); exact hfresh hq⟩
    obtain ⟨e, u, hafter, he⟩ := ih hd.consistent hheld hnodup
    refine ⟨e, u, ?_, hd.trans he⟩
    have ha : c.Allows (.release (some p)) := fun q hq => Option.some.inj hq ▸ hp
    rw [releases, List.map_cons, Client.after, if_pos ha, hact]
    exact hafter

/-- Heaps built with the layout at the end of the arena lie in the same place, and stay there. -/
theorem Reachable.firstBlock_eq (hc : Reachable layout arena c) {exactLinks : Bool} {s : Session}
    (hs : Session.create layout arena exactLinks = .ok s) :
    c.heap.firstBlock + wordBytes = s.heap.arena.size := by
  have hhead : c.heap.head = s.heap.head := by
    induction hc with
    | @create exactLinks' s' hs' =>
      rcases Session.create_checking layout arena with ⟨e, he⟩ | ⟨t, ht⟩
      · cases (he exactLinks).symm.trans hs
      · cases (ht exactLinks).symm.trans hs
        cases (ht exactLinks').symm.trans hs'
        rfl
    | act hc ha hact ih =>
      obtain ⟨v, hv⟩ := hc.consistent
      exact (hv.evolves ha hact).head_eq.trans ih
  -- when it was built the heap had no blocks
  obtain ⟨v, hv⟩ := hc.consistent
  have hnew := consistent_create hs
  have htile := hnew.sound.tiles_spans
  have hlayout : s.heap.layout = c.heap.layout :=
    hnew.anchored.layout_eq.trans hv.anchored.layout_eq.symm
  have hpos := s.heap.head_lt_tail
  have hlow : s.heap.tail ≤ s.heap.firstBlock := Nat.le_add_right _ _
  rw [Span.tile_nil] at htile
  rw [firstBlock, tail, hhead, ← hlayout]
  show s.heap.firstBlock + 4 = s.heap.arena.size
  change s.heap.firstBlock = s.heap.arena.size - 4 at htile
  omega

/-- **The order of releases does not matter** for the layout of the heap, nor for the payloads that
are left.  If everything is given back, nothing but one free block is left, or no block at all if
the heap never grew. -/
theorem Reachable.release_order (hc : Reachable layout arena c) (hheld : ps ⊆ c.pointers)
    (hnodup : ps.Nodup) (hperm : ps.Perm qs) :
    ∃ d d' : Client, c.after (releases ps) = some d ∧ c.after (releases qs) = some d' ∧
    (∃ bs bs' : List Block, d.heap.blocks = .ok bs ∧ d'.heap.blocks = .ok bs' ∧
      bs'.map Block.outline = bs.map Block.outline ∧
      (c.pointers ⊆ ps → ∀ exactLinks s, Session.create layout arena exactLinks = .ok s →
        bs.map Block.outline = if d.heap.arena.size = s.heap.arena.size then []
          else [(d.heap.tail + layout.minBlock,
            d.heap.arena.size - wordBytes - (d.heap.tail + layout.minBlock), true)])) ∧
    (c.pointers ⊆ ps → ∃ report, d.heap.check = .ok report ∧ report.usedBytes = 0) ∧
    d'.heap.top = d.heap.top ∧ d'.heap.arena.size = d.heap.arena.size ∧
    (∀ p, (p ∈ d.pointers ↔ p ∈ c.pointers ∧ p ∉ ps) ∧ (p ∈ d'.pointers ↔ p ∈ d.pointers)) ∧
    ∀ p ∈ d.pointers, ∃ bytes, c.heap.payload p = .ok bytes ∧ d.heap.payload p = .ok bytes ∧
      d'.heap.payload p = .ok bytes := by
  obtain ⟨v, hv⟩ := hc.consistent
  obtain ⟨d, w, hafter, hd⟩ := hv.released hheld hnodup
  obtain ⟨d', w', hafter', hd'⟩ :=
    hv.released (fun p hp => hheld (hperm.symm.subset hp)) (hperm.nodup_iff.1 hnodup)
  have hsound := hd.consistent.sound
  have hsound' := hd'.consistent.sound
  have hspans := hd.spans_eq hd' fun _ => hperm.mem_iff
  have hpointers : ∀ p, p ∈ d'.pointers ↔ p ∈ d.pointers := fun p => by
    rw [hd.mem_pointers hv, hd'.mem_pointers hv, hperm.mem_iff]
  refine ⟨d, d', hafter, hafter', ⟨_, _, hsound.holds.blocks_eq hsound.top_eq,
      hsound'.holds.blocks_eq hsound'.top_eq, ?_, fun hall exactLinks s hs => ?_⟩,
    fun hall => ⟨_, hsound.check_eq, ?_⟩, hd.top_eq hd' hspans, hd'.size_eq.trans hd.size_eq.symm,
    fun p => ⟨hd.mem_pointers hv, hpointers p⟩, fun p hp => ?_⟩
  · rw [map_outline_blockOf, map_outline_blockOf, hspans]
  · rw [hsound.outlines_of_none_used (hd.none_used hv hall), (hc.after hafter).firstBlock_eq hs,
      ← hd.consistent.anchored.layout_eq]
    rfl
  · show Span.totalSize (Span.used w.spans) = 0
    rw [hd.none_used hv hall]
    rfl
  · obtain ⟨bytes, hbytes, hbytes₁⟩ := hd.payload_eq hv hp
    obtain ⟨bytes', hbytes', hbytes₂⟩ := hd'.payload_eq hv ((hpointers p).2 hp)
    obtain rfl := Except.ok.inj (hbytes.symm.trans hbytes')
    exact ⟨bytes, hbytes, hbytes₁, hbytes₂⟩

theorem Reachable.release_order_of_three : ∃ c d d', Reachable {} (.ofLimit 256) c ∧
    c.pointers = [⟨96⟩, ⟨64⟩, ⟨48⟩] ∧
    c.after (releases [⟨48⟩, ⟨64⟩, ⟨96⟩]) = some d ∧
    c.after (releases [⟨96⟩, ⟨48⟩, ⟨64⟩]) = some d' ∧
    (∃ bs bs', d.heap.blocks = .ok bs ∧ d'.heap.blocks = .ok bs' ∧
      bs'.map Block.outline = bs.map Block.outline) ∧
    ∃ report, d.heap.check = .ok report ∧ report.usedBytes = 0 := by
  obtain ⟨c, hc, hsees⟩ := exists_reachable {} (.ofLimit 256)
    [.allocate 8, .allocate 20, .allocate 40] (fun c => c.pointers = [⟨96⟩, ⟨64⟩, ⟨48⟩])
    (by decide +kernel)
  have hp := of_decide_eq_true hsees
  obtain ⟨d, d', hafter, hafter', ⟨bs, bs', hbs, hbs', hsame, -⟩, hreport, -⟩ :=
    Reachable.release_order hc (show [⟨48⟩, ⟨64⟩, ⟨96⟩] ⊆ c.pointers by rw [hp]; decide)
      (by decide) (show List.Perm _ [⟨96⟩, ⟨48⟩, ⟨64⟩] by decide)
  exact ⟨c, d, d', hc, hp, hafter, hafter', ⟨bs, bs', hbs, hbs', hsame⟩,
    hreport (by rw [hp]; decide)⟩

end Client

end TaggedHeap
