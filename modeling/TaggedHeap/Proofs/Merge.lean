import TaggedHeap.Heap.Reshape
import TaggedHeap.Proofs.Surgery
import Mathlib.Data.List.Count

/-!
# Merging free blocks

A block that has just become free is not in the list yet, and may be next to free blocks:
`Heap.Unmerged` describes this state.  `Heap.Unmerged.merge` says that merging ends it.  The free
neighbours leave the list, the joint block enters it in front, and the heap is sound again.
-/

namespace TaggedHeap

namespace Span

/-- The free block made of a block and those of its neighbours that are free. -/
def merged (left : Option Span) (x : Span) (right : Option Span) : Span :=
  ⟨(left.getD x).offset, totalSize (left.toList ++ x :: right.toList), true⟩

theorem Separated.head?_used {x y : Span} {post : List Span} (h : Separated (x :: post))
    (hx : x.free) (hy : y ∈ post.head?) : y.free = false := by
  simpa [hx] using (List.isChain_cons.1 h).1 y hy

theorem size_le_merged (left : Option Span) (x : Span) (right : Option Span) :
    x.size ≤ (merged left x right).size := by
  simp only [merged, totalSize_append, totalSize_cons]
  omega

/-- The block below may be free; below it there is none that is. -/
theorem exists_left {lo : List Span} (h : Separated lo) :
    ∃ (pre : List Span) (left : Option Span), lo = pre ++ left.toList ∧
      (∀ y ∈ left, y.free) ∧ ∀ y, Separated (pre ++ [y]) := by
  obtain rfl | ⟨pre, y, rfl⟩ := List.eq_nil_or_concat lo
  · exact ⟨[], none, rfl, by simp, fun _ => .singleton _⟩
  · rw [List.concat_eq_append] at h ⊢
    cases hy : y.free with
    | true =>
      refine ⟨pre, some y, rfl, fun z hz => Option.some.inj hz ▸ hy, fun z => ?_⟩
      refine List.isChain_append.2 ⟨h.left_of_append, .singleton _, fun w hw u _ hwu => ?_⟩
      exact (List.isChain_append.1 h).2.2 w hw y (by simp) ⟨hwu.1, hy⟩
    | false =>
      refine ⟨pre ++ [y], none, by simp, by simp, fun z => ?_⟩
      refine List.isChain_append.2 ⟨h, .singleton _, fun w hw u _ hwu => ?_⟩
      rw [List.getLast?_append, List.getLast?_singleton, Option.some_or, Option.mem_def,
        Option.some.injEq] at hw
      simp [← hw, hy] at hwu

/-- The block above may be free; above it there is none that is. -/
theorem exists_right {hi : List Span} (h : Separated hi) :
    ∃ (right : Option Span) (post : List Span), hi = right.toList ++ post ∧
      (∀ y ∈ right, y.free) ∧ ∀ y, Separated (y :: post) := by
  cases hi with
  | nil => exact ⟨none, [], rfl, by simp, fun _ => .singleton _⟩
  | cons y post =>
    cases hy : y.free with
    | true =>
      refine ⟨some y, post, rfl, fun z hz => Option.some.inj hz ▸ hy, fun z => ?_⟩
      refine List.isChain_cons.2 ⟨fun w hw hwu => ?_, (List.isChain_cons.1 h).2⟩
      exact (List.isChain_cons.1 h).1 w hw ⟨hy, hwu.2⟩
    | false =>
      refine ⟨none, y :: post, rfl, by simp, fun z => .cons_cons ?_ h⟩
      simp [hy]

end Span

namespace Heap

variable {h : Heap} {spans pre mid mid' post : List Span} {ring before after : List Nat} {x : Span}

namespace Holds

/-- Blocks that are not listed become one that is. -/
theorem listFree (hv : h.Holds ⟨pre ++ mid ++ post, ring⟩) (hsize : h.arena.size ≤ maxTagged)
    (hx : mid.head? = some x) (hring : ∀ y ∈ mid, y.offset ∉ ring) :
    ∃ a, h.listFree x.offset (Span.totalSize mid) = .ok { h with arena := a } ∧
      h.arena.Edit a (h.ringBytes ring ∪ Span.area mid) ∧
      { h with arena := a : Heap }.Holds
        ⟨pre ++ [⟨x.offset, Span.totalSize mid, true⟩] ++ post, x.offset :: ring⟩ := by
  have hcov := Span.covers_one (l := h.layout) true hx
  obtain ⟨_, _, hmid, hbounds⟩ := hv.tiles_mid
  obtain ⟨rfl, hadm, rfl⟩ := hcov _ _ hmid
  have hle := hadm.le h.valid
  have heven := hadm.mod_eight h.valid
  simp only [Span.stop] at hle heven hmid hbounds
  obtain ⟨a₁, h₁, hedit₁, htag⟩ := setTags_spec (h := h) x.offset _ false
    (show 8 ≤ Span.totalSize mid by omega) (by omega) (by omega) (by omega)
  have hmono : (Span.mk x.offset (Span.totalSize mid) true).tagBytes ⊆ Span.area mid :=
    fun i hi => hmid.mem_area.2 (Span.tagBytes_subset (show 8 ≤ Span.totalSize mid by omega) hi)
  have hv₁ := hv.retile hedit₁ hmono hring hcov (by simpa using htag)
  obtain ⟨b, h₂, hedit₂, hv₂⟩ := hv₁.pushFront (n := x.offset) (hedit₁.size_eq ▸ hsize)
    (by simp) (hring x (List.mem_of_head? hx))
  refine ⟨b, by simp only [Heap.listFree, h₁, ok_bind, h₂], ?_, hv₂⟩
  refine (hedit₁.trans hedit₂).mono (Set.union_subset (fun i hi => .inr (hmono hi)) ?_)
  refine (ringBytes_cons_subset (x := ⟨x.offset, Span.totalSize mid, true⟩)
    (show 12 ≤ Span.totalSize mid by omega)).trans (Set.union_subset_union_right _ fun i hi => ?_)
  exact hmid.mem_area.2 hi

end Holds

/-! ### Merging -/

theorem Holds.onlyFree_above {v : View} {lo : List Span} {right : Option Span} (hv : h.Holds v)
    (htop : h.top = h.lastOf v.spans) (hspans : v.spans = lo ++ x :: (right.toList ++ post))
    (hright : ∀ y ∈ right, y.free) (hpost : ∀ y ∈ post.head?, y.free = false) :
    ∃ next, h.nextBlock? x.offset = .ok next ∧
      h.onlyFree next = .ok (right.map Span.offset) := by
  have hchain : h.chain v.spans = h.chain lo ++ x :: (right.toList ++ post) := by
    rw [hspans, chain_append]
  refine ⟨_, hv.nextBlock?_eq htop hchain, ?_⟩
  cases right with
  | some y =>
    have hmy : y ∈ h.chain v.spans := by simp [hchain]
    exact (hv.onlyFree_eq hmy).trans (by rw [if_pos (hright y rfl)]; rfl)
  | none =>
    cases post with
    | nil => rfl
    | cons y post =>
      have hmy : y ∈ h.chain v.spans := by simp [hchain]
      refine (hv.onlyFree_eq hmy).trans ?_
      rw [hpost y rfl]
      rfl

theorem moveTop_eq {n m : Span} (hmid : mid.getLast? = some n) (hmid' : mid'.getLast? = some m)
    (htop : h.top = h.lastOf (pre ++ mid ++ post))
    (hnodup : ((pre ++ mid ++ post).map Span.offset).Nodup) :
    h.moveTop n.offset m.offset = { h with top := h.lastOf (pre ++ mid' ++ post) } := by
  rcases hpost : post.getLast? with _ | y
  · obtain rfl := List.getLast?_eq_none_iff.1 hpost
    rw [moveTop, if_pos]
    · simp only [List.append_nil, lastOf, List.getLast?_append, hmid', Option.some_or]
      rfl
    · simp only [htop, List.append_nil, lastOf, List.getLast?_append, hmid, Option.some_or]
      rfl
  · have hlast : h.lastOf (pre ++ mid ++ post) = y.offset := by
      simp only [lastOf, List.getLast?_append, hpost, Option.some_or]
      rfl
    rw [moveTop, if_neg]
    · rw [show h.lastOf (pre ++ mid' ++ post) = h.top by
        rw [htop, hlast]
        simp only [lastOf, List.getLast?_append, hpost, Option.some_or]
        rfl]
    · rw [htop, hlast]
      rw [List.map_append, List.map_append] at hnodup
      refine ((List.nodup_append.1 hnodup).2.2 n.offset ?_ y.offset ?_).symm
      · exact List.mem_append_right _ (List.mem_map_of_mem (List.mem_of_getLast? hmid))
      · exact List.mem_map_of_mem (List.mem_of_getLast? hpost)

/-- The block `x` is free, but not in the list yet, nor joined with the free blocks `left` and
`right` next to it. -/
structure Unmerged (h : Heap) (pre : List Span) (left : Option Span) (x : Span)
    (right : Option Span) (post : List Span) (ring : List Nat) : Prop where
  /-- The heap holds the blocks. -/
  holds : h.Holds ⟨pre ++ (left.toList ++ x :: right.toList) ++ post, ring⟩
  /-- The heap knows its topmost block. -/
  top_eq : h.top = h.lastOf (pre ++ (left.toList ++ x :: right.toList) ++ post)
  /-- The block is free. -/
  free : x.free
  /-- All other free blocks are listed. -/
  listed : ring.Perm (Span.freeHeaders (pre ++ (left.toList ++ right.toList) ++ post))
  /-- The block below is free, if it is given. -/
  left_free : ∀ y ∈ left, y.free
  /-- The block above is free, if it is given. -/
  right_free : ∀ y ∈ right, y.free
  /-- No other free blocks below are next to each other or to the given ones. -/
  below : ∀ y, Span.Separated (pre ++ [y])
  /-- No other free blocks above are next to each other or to the given ones. -/
  above : ∀ y, Span.Separated (y :: post)

namespace Unmerged

variable {left right : Option Span}

theorem not_free_of_getLast? (hu : h.Unmerged pre left x right post ring) {y : Span}
    (hy : pre.getLast? = some y) : y.free = false := by
  have := (List.isChain_append.1 (hu.below x)).2.2 y hy x (by simp)
  simpa [hu.free] using this

theorem onlyFree_below (hu : h.Unmerged pre left x right post ring) :
    ∃ prev, h.prevBlock? x.offset = .ok prev ∧
      h.onlyFree prev = .ok (left.map Span.offset) := by
  have hv := hu.holds
  cases left with
  | some y =>
    have hmy : y ∈ h.chain (pre ++ ([y] ++ x :: right.toList) ++ post) :=
      mem_chain_of_mem (by simp)
    refine ⟨_, hv.prevBlock?_eq (show h.chain (pre ++ ([y] ++ x :: right.toList) ++ post) =
      h.chain pre ++ y :: x :: (right.toList ++ post) by simp [chain]), ?_⟩
    rw [hv.onlyFree_eq hmy, if_pos (hu.left_free y rfl)]
    rfl
  | none =>
    -- the block below is in use, or it is the tail sentinel
    obtain ⟨rest, y, hy⟩ :=
      (List.eq_nil_or_concat (h.chain pre)).resolve_left (List.cons_ne_nil _ _)
    rw [List.concat_eq_append] at hy
    have hchain : h.chain (pre ++ ([] ++ x :: right.toList) ++ post) =
        rest ++ y :: x :: (right.toList ++ post) := by
      rw [List.nil_append, List.append_assoc, chain_append, hy]
      simp
    have hfree : y.free = false := by
      rcases hpre : pre.getLast? with _ | z
      · obtain rfl := List.getLast?_eq_none_iff.1 hpre
        have : (h.chain []).getLast? = some y := by rw [hy]; simp
        rw [← Option.some.inj this]
        rfl
      · have : (h.chain pre).getLast? = some y := by rw [hy]; simp
        rw [chain, List.getLast?_append, hpre, Option.some_or, Option.some.injEq] at this
        exact hu.not_free_of_getLast? (this ▸ hpre)
    refine ⟨_, hv.prevBlock?_eq hchain, ?_⟩
    have hmy : y ∈ h.chain (pre ++ ([] ++ x :: right.toList) ++ post) := by
      rw [hchain]
      simp
    refine (hv.onlyFree_eq hmy).trans ?_
    rw [hfree]
    rfl

theorem onlyFree_above (hu : h.Unmerged pre left x right post ring) :
    ∃ next, h.nextBlock? x.offset = .ok next ∧
      h.onlyFree next = .ok (right.map Span.offset) :=
  hu.holds.onlyFree_above hu.top_eq (show _ = pre ++ left.toList ++ x :: (right.toList ++ post) by
    simp) hu.right_free
    fun _ hy => Span.Separated.head?_used (hu.above x) hu.free hy

theorem fresh (hu : h.Unmerged pre left x right post ring) : x.offset ∉ ring := by
  intro hx
  obtain ⟨y, hy, -, hxy⟩ := Span.mem_freeHeaders.1 (hu.listed.subset hx)
  have := hu.holds.nodup_offsets
  rw [List.map_append, List.map_append, List.map_append, List.map_cons] at this
  simp only [List.nodup_append, List.nodup_cons, List.mem_append, List.mem_map, List.mem_cons]
    at this hy
  grind

theorem left_mem (hu : h.Unmerged pre left x right post ring) {y : Span} (hy : y ∈ left) :
    y.offset ∈ ring :=
  hu.listed.mem_iff.2 (Span.mem_freeHeaders.2
    ⟨y, by simp [Option.mem_def.1 hy], hu.left_free y hy, rfl⟩)

theorem right_mem (hu : h.Unmerged pre left x right post ring) {y : Span} (hy : y ∈ right) :
    y.offset ∈ ring :=
  hu.listed.mem_iff.2 (Span.mem_freeHeaders.2
    ⟨y, by simp [Option.mem_def.1 hy], hu.right_free y hy, rfl⟩)

end Unmerged

/-- What is left to do once the blocks of `mid` have left the list. -/
theorem Holds.listMerged (mid : List Span) {n : Span} (hv : h.Holds ⟨pre ++ mid ++ post, ring⟩)
    (htop : h.top = h.lastOf (pre ++ mid ++ post)) (hsize : h.arena.size ≤ maxTagged)
    (hx : mid.head? = some x) (hn : mid.getLast? = some n)
    (hring : ∀ y ∈ mid, y.offset ∉ ring) :
    ∃ a, (do return (x.offset, (← h.listFree x.offset (Span.totalSize mid)).moveTop n.offset
        x.offset)) = Except.ok (x.offset, { h with
          arena := a, top := h.lastOf (pre ++ [⟨x.offset, Span.totalSize mid, true⟩] ++ post) }) ∧
      h.arena.Edit a (h.ringBytes ring ∪ Span.area mid) ∧
      { h with arena := a : Heap }.Holds
        ⟨pre ++ [⟨x.offset, Span.totalSize mid, true⟩] ++ post, x.offset :: ring⟩ := by
  obtain ⟨a, ha, hedit, hv'⟩ := hv.listFree hsize hx hring
  refine ⟨a, ?_, hedit, hv'⟩
  rw [ha, ok_bind, pure_eq_ok]
  exact congrArg _ (congrArg _ (moveTop_eq (h := { h with arena := a })
    (m := ⟨x.offset, Span.totalSize mid, true⟩) hn rfl htop hv.nodup_offsets))

/-- The same when one of them, `y`, has yet to leave it. -/
theorem Holds.unlink_listMerged (mid : List Span) {n y : Span}
    (hv : h.Holds ⟨pre ++ mid ++ post, ring⟩) (htop : h.top = h.lastOf (pre ++ mid ++ post))
    (hsize : h.arena.size ≤ maxTagged) (hx : mid.head? = some x) (hn : mid.getLast? = some n)
    (hy : y.offset ∈ ring) (hring : ∀ z ∈ mid, z.offset ∉ ring.erase y.offset) :
    ∃ a₁ a, h.unlink y.offset = .ok { h with arena := a₁ } ∧
      (do return (x.offset, (← { h with arena := a₁ : Heap }.listFree x.offset
        (Span.totalSize mid)).moveTop n.offset x.offset)) = Except.ok (x.offset, { h with
          arena := a, top := h.lastOf (pre ++ [⟨x.offset, Span.totalSize mid, true⟩] ++ post) }) ∧
      h.arena.Edit a (h.ringBytes ring ∪ Span.area mid) ∧
      { h with arena := a : Heap }.Holds ⟨pre ++ [⟨x.offset, Span.totalSize mid, true⟩] ++ post,
        x.offset :: ring.erase y.offset⟩ := by
  obtain ⟨a₁, h₁, hedit₁, hv₁⟩ := hv.unlink_of_mem hsize hy
  obtain ⟨a, ha, hedit, hv'⟩ :=
    hv₁.listMerged mid htop (hedit₁.size_eq ▸ hsize) hx hn hring
  refine ⟨a₁, a, h₁, ha, (hedit₁.trans hedit).mono ?_, hv'⟩
  exact Set.union_subset Set.subset_union_left
    (Set.union_subset_union_left _ (ringBytes_mono List.erase_subset))

namespace Unmerged

variable {left right : Option Span}

theorem tag_eq (hu : h.Unmerged pre left x right post ring) {y : Span}
    (hy : y ∈ left.toList ++ x :: right.toList) :
    ∃ t, h.tag y.offset = .ok t ∧ t.size = y.size := by
  obtain ⟨t, ht, hsize, -⟩ := hu.holds.tag_eq (x := y)
    (mem_chain_of_mem (List.mem_append_left _ (List.mem_append_right _ hy)))
  exact ⟨t, ht, hsize⟩

theorem right_ne_left {l r : Span} (hu : h.Unmerged pre (some l) x (some r) post ring) :
    r.offset ≠ l.offset := by
  have hnodup := hu.holds.nodup_offsets
  simp only [Option.toList_some, List.map_append, List.map_cons, List.nodup_append] at hnodup
  exact fun heq => hnodup.1.2.1.2.2 l.offset (by simp) r.offset (by simp) heq.symm

theorem add_of_le (hu : h.Unmerged pre left x right post ring) {m n : Nat}
    (hle : m + n ≤ Span.totalSize (left.toList ++ x :: right.toList)) :
    Address.add m n = .ok (m + n) := by
  obtain ⟨start, stop, hmid, hstop⟩ := hu.holds.tiles_mid
  have := hmid.totalSize
  exact Arena.add_of_le (a := h.arena) (by omega)

/-- The block can be joined with its neighbours, which puts one free block in their place and at the
front of the list. -/
def Joins (h : Heap) (pre : List Span) (left : Option Span) (x : Span) (right : Option Span)
    (post : List Span) (ring : List Nat) : Prop :=
  ∃ a, h.join x.offset x.size (left.map Span.offset) (right.map Span.offset) =
      .ok ((Span.merged left x right).offset, { h with
        arena := a, top := h.lastOf (pre ++ [Span.merged left x right] ++ post) }) ∧
    h.arena.Edit a (h.ringBytes ring ∪ Span.area (left.toList ++ x :: right.toList)) ∧
    { h with arena := a : Heap }.Holds ⟨pre ++ [Span.merged left x right] ++ post,
      (Span.merged left x right).offset ::
        ring.diff ((left.toList ++ right.toList).map Span.offset)⟩

section Cases

variable {l r : Span} (hsize : h.arena.size ≤ maxTagged)

include hsize

theorem joins_neither (hu : h.Unmerged pre none x none post ring) :
    Joins h pre none x none post ring := by
  obtain ⟨a, ha, hedit, hv⟩ := hu.holds.pushFront hsize (n := x.offset) (by simp) hu.fresh
  have hx := (hu.holds.bounds (mem_chain_of_mem (x := x) (by simp))).2.1
  have hmerged : Span.merged none x none = x := by
    have := hu.free
    cases x
    simp_all [Span.merged, Span.totalSize]
  refine ⟨a, ?_, hedit.mono ?_, ?_⟩
  · simp only [Option.map_none, Heap.join, ha, ok_bind, pure_eq_ok, hmerged]
    exact congrArg _ (congrArg _
      (congrArg ({ h with arena := a, top := · } : Nat → Heap) hu.top_eq))
  · refine (ringBytes_cons_subset (by omega)).trans (Set.union_subset_union_right _ ?_)
    exact fun i hi => ⟨x, by simp, hi⟩
  · rw [hmerged]
    exact hv

theorem joins_above (hu : h.Unmerged pre none x (some r) post ring) :
    Joins h pre none x (some r) post ring := by
  have hring := hu.holds.ring_nodup
  have hx : x.offset ∉ ring.erase r.offset := fun hmem => hu.fresh (List.mem_of_mem_erase hmem)
  obtain ⟨t, ht, hsr⟩ := hu.tag_eq (y := r) (by simp)
  obtain ⟨a₁, a, h₁, ha, hedit, hv⟩ := hu.holds.unlink_listMerged [x, r] hu.top_eq hsize rfl rfl
    (hu.right_mem rfl) (by simpa [hx] using hring.not_mem_erase)
  refine ⟨a, ?_, hedit, ?_⟩
  · simp only [Option.map_none, Option.map_some, Heap.join, ht, ok_bind, hsr,
      hu.add_of_le (m := x.size) (n := r.size) (by simp), h₁]
    exact ha
  · simpa [List.diff_cons, Span.merged] using hv

theorem joins_below (hu : h.Unmerged pre (some l) x none post ring) :
    Joins h pre (some l) x none post ring := by
  have hring := hu.holds.ring_nodup
  have hx : x.offset ∉ ring.erase l.offset := fun hmem => hu.fresh (List.mem_of_mem_erase hmem)
  obtain ⟨t, ht, hsl⟩ := hu.tag_eq (y := l) (by simp)
  obtain ⟨a₁, a, h₁, ha, hedit, hv⟩ := hu.holds.unlink_listMerged [l, x] hu.top_eq hsize rfl rfl
    (hu.left_mem rfl) (by simpa [hx] using hring.not_mem_erase)
  refine ⟨a, ?_, hedit, ?_⟩
  · simp only [Option.map_none, Option.map_some, Heap.join, ht, ok_bind, hsl,
      hu.add_of_le (m := x.size) (n := l.size) (by simp; omega), h₁]
    rw [show x.size + l.size = Span.totalSize [l, x] by simp; omega]
    exact ha
  · simpa [List.diff_cons, Span.merged] using hv

theorem joins_both (hu : h.Unmerged pre (some l) x (some r) post ring) :
    Joins h pre (some l) x (some r) post ring := by
  have hring := hu.holds.ring_nodup
  have hlr : r.offset ≠ l.offset := hu.right_ne_left
  obtain ⟨t, ht, hsl⟩ := hu.tag_eq (y := l) (by simp)
  obtain ⟨u, hu', hsr⟩ := hu.tag_eq (y := r) (by simp)
  -- the block below leaves the list first
  obtain ⟨a₁, h₁, hedit₁, hv₁⟩ := hu.holds.unlink_of_mem hsize (hu.left_mem rfl)
  have hx : x.offset ∉ (ring.erase l.offset).erase r.offset := fun hmem =>
    hu.fresh (List.mem_of_mem_erase (List.mem_of_mem_erase hmem))
  have hl : l.offset ∉ (ring.erase l.offset).erase r.offset := fun hmem =>
    hring.not_mem_erase (List.mem_of_mem_erase hmem)
  obtain ⟨a₂, a, h₂, ha, hedit, hv⟩ := hv₁.unlink_listMerged [l, x, r] hu.top_eq
    (hedit₁.size_eq ▸ hsize) rfl rfl ((List.mem_erase_of_ne hlr).2 (hu.right_mem rfl))
    (by simpa [hl, hx] using (hring.erase _).not_mem_erase)
  refine ⟨a, ?_, (hedit₁.trans hedit).mono ?_, ?_⟩
  · simp only [Option.map_some, Heap.join, ht, hu', ok_bind, hsl, hsr,
      hu.add_of_le (m := x.size) (n := l.size) (by simp; omega),
      hu.add_of_le (m := x.size + l.size) (n := r.size) (by simp; omega), h₁, h₂]
    rw [show x.size + l.size + r.size = Span.totalSize [l, x, r] by simp; omega]
    exact ha
  · exact Set.union_subset Set.subset_union_left
      (Set.union_subset_union_left _ (ringBytes_mono List.erase_subset))
  · simpa [List.diff_cons, Span.merged] using hv

end Cases

/-- **A free block can be joined with its neighbours**, whichever of them are free. -/
theorem joins (hu : h.Unmerged pre left x right post ring) (hsize : h.arena.size ≤ maxTagged) :
    Joins h pre left x right post ring := by
  cases left with
  | none =>
    cases right with
    | none => exact hu.joins_neither hsize
    | some r => exact hu.joins_above hsize
  | some l =>
    cases right with
    | none => exact hu.joins_below hsize
    | some r => exact hu.joins_both hsize

/-- **Merging a free block** makes the heap sound again. -/
theorem merge (hu : h.Unmerged pre left x right post ring) (hsize : h.arena.size ≤ maxTagged) :
    ∃ a, h.merge x.offset =
        .ok (⟨(Span.merged left x right).offset, (Span.merged left x right).size, left.isSome,
          right.isSome⟩, { h with
            arena := a, top := h.lastOf (pre ++ [Span.merged left x right] ++ post) }) ∧
      h.arena.Edit a (h.ringBytes ring ∪ Span.area (left.toList ++ x :: right.toList)) ∧
      { h with arena := a, top := h.lastOf (pre ++ [Span.merged left x right] ++ post) }.Sound
        ⟨pre ++ [Span.merged left x right] ++ post, (Span.merged left x right).offset ::
          ring.diff ((left.toList ++ right.toList).map Span.offset)⟩ := by
  obtain ⟨t, ht, hsx⟩ := hu.tag_eq (y := x) (by simp)
  obtain ⟨prev, hprev, hleft⟩ := hu.onlyFree_below
  obtain ⟨next, hnext, hright⟩ := hu.onlyFree_above
  obtain ⟨a, ha, hedit, hv⟩ := hu.joins hsize
  obtain ⟨u, hu', hsu, -⟩ := hv.tag_eq (mem_chain_of_mem (x := Span.merged left x right) (by simp))
  have htag : { h with arena := a, top := h.lastOf (pre ++ [Span.merged left x right] ++ post) }.tag
      (Span.merged left x right).offset = .ok u := hu'
  have hsep : Span.Separated (pre ++ [Span.merged left x right] ++ post) := by
    rw [List.append_assoc]
    exact List.isChain_split.2 ⟨hu.below _, hu.above _⟩
  refine ⟨a, ?_, hedit, hv.sound hsep ?_⟩
  · simp only [Heap.merge, ht, hprev, hnext, hleft, hright, ok_bind, hsx, ha, htag, hsu, pure_eq_ok,
      Option.isSome_map]
  · have hnear : Span.freeHeaders (left.toList ++ right.toList) =
        (left.toList ++ right.toList).map Span.offset := by
      refine congrArg _ (List.filter_eq_self.2 fun y hy => ?_)
      rcases List.mem_append.1 hy with hy | hy
      · exact hu.left_free y (Option.mem_toList.1 hy)
      · exact hu.right_free y (Option.mem_toList.1 hy)
    -- the neighbours are counted out of the list, and the joint block into it
    have hlist := hu.listed
    rw [Span.freeHeaders_append, Span.freeHeaders_append, hnear] at hlist
    rw [Span.freeHeaders_append, Span.freeHeaders_append]
    rw [List.perm_iff_count] at hlist ⊢
    intro n
    have := hlist n
    simp only [List.count_append, List.count_cons, List.count_diff, Span.freeHeaders,
      Span.merged, List.filter_cons, List.filter_nil, if_true, List.map_cons, List.map_nil,
      List.count_nil] at this ⊢
    omega

end Unmerged

end Heap

end TaggedHeap
