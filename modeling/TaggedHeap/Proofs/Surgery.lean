import TaggedHeap.Proofs.Strand
import TaggedHeap.Proofs.Walk

/-!
# Surgery on a heap

How a heap comes to hold another view.  There are three ways.

* `Heap.Holds.retile`: some neighbouring blocks that are not in the list are replaced by others
  that cover the same bytes.  Nothing outside these bytes changes.
* `Heap.Holds.unlink`: a block leaves the list.
* `Heap.Holds.pushFront`: a block enters the list.

The last two change no byte except links of blocks that are in the list, which is `ringBytes`.
Their surgery on the list itself is that of `Heap.Strung`.
-/

namespace TaggedHeap

namespace Span

/-- Offsets of the given blocks. -/
def area (xs : List Span) : Set Nat := {i | ∃ x ∈ xs, i ∈ x.bytes}

/-- The blocks in `ys` cover the same bytes as those in `xs`, wherever these lie. -/
def Covers (l : Layout) (ys xs : List Span) : Prop :=
  ∀ start stop, Tile l start xs stop → Tile l start ys stop

theorem tagBytes_subset {x : Span} (hx : 8 ≤ x.size) : x.tagBytes ⊆ x.bytes := by
  intro i hi
  simp only [tagBytes, stop, Set.mem_union, Set.mem_Ico] at hi
  rw [mem_bytes, stop]
  omega

theorem Tile.replace {l : Layout} {pre mid mid' post : List Span} {start stop : Nat}
    (h : Tile l start (pre ++ mid ++ post) stop) (hcov : Covers l mid' mid) :
    Tile l start (pre ++ mid' ++ post) stop := by
  obtain ⟨m, hpre, hpost⟩ := tile_append.1 h
  obtain ⟨n, hpre, hmid⟩ := tile_append.1 hpre
  exact tile_append.2 ⟨m, tile_append.2 ⟨n, hpre, hcov _ _ hmid⟩, hpost⟩

theorem mem_area_cons {x : Span} {xs : List Span} {i : Nat} :
    i ∈ area (x :: xs) ↔ i ∈ x.bytes ∨ i ∈ area xs := List.exists_mem_cons_iff ..

theorem Tile.mem_area {l : Layout} {xs : List Span} {start stop i : Nat}
    (h : Tile l start xs stop) : i ∈ area xs ↔ start ≤ i ∧ i < stop := by
  induction xs generalizing start with
  | nil =>
    obtain rfl := tile_nil.1 h
    exact ⟨nofun, fun hi => by omega⟩
  | cons x xs ih =>
    obtain ⟨rfl, -, h⟩ := h
    have hle := h.le
    rw [mem_area_cons, ih h, mem_bytes]
    simp only [Span.stop] at hle ⊢
    omega

/-- Blocks that follow each other make one block together. -/
theorem covers_one {l : Layout} {mid : List Span} {x : Span} (free : Bool)
    (hx : mid.head? = some x) : Covers l [⟨x.offset, totalSize mid, free⟩] mid := by
  intro start stop h
  obtain ⟨xs, rfl⟩ := List.head?_eq_some_iff.1 hx
  have hsize := h.totalSize
  have hmod := Nat.sub_mod_eq_zero_of_mod_eq h.stop_mod
  rw [← hsize, Nat.add_sub_cancel_left] at hmod
  obtain ⟨rfl, hadm, -⟩ := h
  refine ⟨rfl, ⟨Nat.le_trans hadm.1 (Nat.le_add_right _ _), hmod⟩, hsize⟩

/-- Blocks that follow each other may be cut elsewhere. -/
theorem covers_two {l : Layout} {mid : List Span} {x : Span} {need : Nat} (used free : Bool)
    (hx : mid.head? = some x) (hneed : l.Admits need)
    (hrest : need + l.minBlock ≤ totalSize mid) :
    Covers l [⟨x.offset, need, used⟩, ⟨x.offset + need, totalSize mid - need, free⟩] mid := by
  intro start stop h
  obtain ⟨rfl, hadm, hstop⟩ := covers_one free hx start stop h
  simp only [tile_nil, Span.stop] at hstop
  refine ⟨rfl, hneed, rfl, ⟨show _ ≤ totalSize mid - need by omega, ?_⟩, ?_⟩
  · exact Nat.sub_mod_eq_zero_of_mod_eq (hadm.2.trans hneed.2.symm)
  · simp only [tile_nil, Span.stop]
    omega

end Span

namespace Heap

variable {h : Heap} {a : Arena} {s : Set Nat} {spans pre mid mid' post : List Span}
  {ring before after : List Nat} {n : Nat}

theorem ringBytes_mono {ring' : List Nat} (hring : ring ⊆ ring') :
    h.ringBytes ring ⊆ h.ringBytes ring' := by
  rintro i ⟨x, hx, hi⟩
  refine ⟨x, ?_, hi⟩
  simp only [nodes, List.mem_cons, List.mem_append] at hx ⊢
  exact hx.imp_right (Or.imp_left fun hx => hring hx)

theorem ringBytes_cons_subset {x : Span} (hx : 12 ≤ x.size) :
    h.ringBytes (x.offset :: ring) ⊆ h.ringBytes ring ∪ x.bytes := by
  rintro i ⟨y, hy, hi⟩
  rw [nodes, List.cons_append, List.mem_cons, List.mem_cons] at hy
  obtain hy | rfl | hy := hy
  · exact .inl ⟨y, by rw [nodes, hy]; simp, hi⟩
  · rw [Set.mem_union, Span.mem_bytes, Span.stop]
    omega
  · exact .inl ⟨y, List.mem_cons_of_mem _ hy, hi⟩

namespace Holds

variable {v : View}

theorem threads_edit (hv : h.Holds v) (hedit : h.arena.Edit a s)
    (hs : ∀ i ∈ s, i ∉ h.ringBytes v.ring) :
    a.Threads (h.nodes v.ring) ∧ a.link? h.head .prev = none ∧ a.link? h.tail .next = none := by
  have hmiss : ∀ x ∈ h.nodes v.ring, ∀ l, ∀ i ∈ Arena.linkBytes x l, i ∉ s :=
    fun x hx l i hi his => hs i his (linkBytes_subset_ringBytes hx l hi)
  refine ⟨hv.threads.edit hedit hmiss, ?_, ?_⟩
  · rw [hedit.link?_eq (hmiss h.head (by simp [nodes]) _), hv.head_prev]
  · rw [hedit.link?_eq (hmiss h.tail (by simp [nodes]) _), hv.tail_next]

theorem tiles_mid (hv : h.Holds ⟨pre ++ mid ++ post, ring⟩) :
    ∃ start stop, Span.Tile h.layout start mid stop ∧ stop + 4 ≤ h.arena.size := by
  have ht := hv.tiles
  rw [chain, ← List.append_assoc, ← List.append_assoc, Span.tile_append] at ht
  obtain ⟨stop, hmid, hpost⟩ := ht
  obtain ⟨start, -, hmid⟩ := Span.tile_append.1 hmid
  have hb := hv.bounds (x := ⟨h.head, h.layout.minBlock, false⟩) (by simp [chain, sentinels])
  exact ⟨start, stop, hmid, by have := hpost.le; omega⟩

theorem firstBlock_le (hv : h.Holds v) {x : Span} (hx : x ∈ v.spans) :
    h.firstBlock ≤ x.offset :=
  (Span.Tile.bounds hv.tiles.2.2.2.2 hx).1

theorem not_mem_nodes (hv : h.Holds v) {x : Span} (hx : x ∈ v.spans)
    (hring : x.offset ∉ ring) : x.offset ∉ h.nodes ring := by
  have hlow := hv.firstBlock_le hx
  have hpos := h.valid.admits_minBlock.le h.valid
  have htail : h.tail = h.head + h.layout.minBlock := rfl
  have hfirst : h.firstBlock = h.tail + h.layout.minBlock := rfl
  rw [nodes, List.mem_cons, List.mem_append, List.mem_singleton]
  rintro (hx | hx | hx)
  · omega
  · exact hring hx
  · omega

theorem area_disjoint_ringBytes (hv : h.Holds v) (hsub : ring ⊆ v.ring) {xs : List Span}
    (hxs : ∀ x ∈ xs, x ∈ v.spans) (hring : ∀ x ∈ xs, x.offset ∉ ring) {i : Nat}
    (hi : i ∈ Span.area xs) : i ∉ h.ringBytes ring := by
  obtain ⟨x, hx, hix⟩ := hi
  exact not_mem_ringBytes_of_tile hv.tiles (List.Subset.trans hsub hv.headers.subset)
    (mem_chain_of_mem (hxs x hx)) (hv.not_mem_nodes (hxs x hx) (hring x hx)) hix

theorem ring_nodup (hv : h.Holds v) : v.ring.Nodup :=
  (List.nodup_append.1 (List.nodup_cons.1 hv.spaced.nodup).2).1

theorem tagged_edit (hv : h.Holds ⟨pre ++ mid ++ post, ring⟩) (hedit : h.arena.Edit a s)
    (hs : s ⊆ Span.area mid) {x : Span} (hx : x ∈ h.chain (pre ++ post)) : a.Tagged x := by
  have hx' : x ∈ h.chain (pre ++ mid ++ post) := by
    simp only [chain, List.mem_append] at hx ⊢
    tauto
  refine (hv.tagged x hx').edit hedit fun i hi his => ?_
  obtain ⟨y, hy, hiy⟩ := hs his
  have hix := Span.tagBytes_subset (by have := hv.bounds hx'; omega) hi
  have ht := hv.tiles
  -- `x` lies below or above all of `mid`
  rw [Span.mem_bytes] at hix hiy
  rw [List.append_assoc, chain_append, Span.tile_append] at ht
  obtain ⟨_, hpre, hmid⟩ := ht
  obtain ⟨_, hmid, hpost⟩ := Span.tile_append.1 hmid
  have hby := hmid.bounds hy
  rw [chain_append] at hx
  rcases List.mem_append.1 hx with hx | hx
  · have := hpre.bounds hx
    omega
  · have := hpost.bounds hx
    omega

theorem tiles_replace (hv : h.Holds ⟨pre ++ mid ++ post, ring⟩)
    (hcov : Span.Covers h.layout mid' mid) :
    Span.Tile h.layout h.head (h.chain (pre ++ mid' ++ post)) (h.arena.size - 4) := by
  have ht := hv.tiles
  rw [chain, ← List.append_assoc, ← List.append_assoc] at ht
  have ht' := ht.replace hcov
  rw [List.append_assoc, List.append_assoc, ← List.append_assoc pre] at ht'
  exact ht'

theorem tagged_replace (hv : h.Holds ⟨pre ++ mid ++ post, ring⟩) (hedit : h.arena.Edit a s)
    (hs : s ⊆ Span.area mid) (htag : ∀ x ∈ mid', a.Tagged x) :
    ∀ x ∈ h.chain (pre ++ mid' ++ post), a.Tagged x := by
  intro x hx
  by_cases hmem : x ∈ mid'
  · exact htag x hmem
  · refine hv.tagged_edit hedit hs ?_
    simp only [chain, List.mem_append] at hx ⊢
    tauto

/-- A list of other blocks does not lose any when some are replaced. -/
theorem subset_replace (hv : h.Holds ⟨pre ++ mid ++ post, ring⟩) {ring' : List Nat}
    (hsub : ring' ⊆ ring) (hfresh : ∀ x ∈ mid, x.offset ∉ ring') :
    ring' ⊆ (pre ++ mid' ++ post).map Span.offset := by
  intro n hn
  have := hv.headers.subset (hsub hn)
  simp only [List.map_append, List.mem_append, List.mem_map] at this ⊢
  rcases this with (hpre | ⟨x, hx, rfl⟩) | hpost
  · exact .inl (.inl hpre)
  · exact absurd hn (hfresh x hx)
  · exact .inr hpost

/-- **Blocks that are not listed may be replaced** by others that cover the same bytes. -/
theorem retile (hv : h.Holds ⟨pre ++ mid ++ post, ring⟩) (hedit : h.arena.Edit a s)
    (hs : s ⊆ Span.area mid) (hring : ∀ x ∈ mid, x.offset ∉ ring)
    (hcov : Span.Covers h.layout mid' mid) (htag : ∀ x ∈ mid', a.Tagged x) :
    { h with arena := a : Heap }.Holds ⟨pre ++ mid' ++ post, ring⟩ := by
  obtain ⟨hthr, hhp, htn⟩ := hv.threads_edit hedit fun i hi =>
    hv.area_disjoint_ringBytes (List.Subset.refl _) (fun x hx => by simp [hx]) hring (hs hi)
  refine ⟨?_, hv.tagged_replace hedit hs htag, ?_, hthr, hhp, htn⟩
  · have ht := hv.tiles_replace hcov
    rw [← hedit.size_eq] at ht
    exact ht
  · exact List.subperm_of_subset hv.ring_nodup (hv.subset_replace (List.Subset.refl _) hring)

end Holds

/-- A heap that holds the blocks holds a list of them once it is linked up, whatever else its
links were before. -/
theorem holds_of_links (ht : Span.Tile h.layout h.head (h.chain spans) (h.arena.size - 4))
    (htag : ∀ x ∈ h.chain spans, h.arena.Tagged x) (hsub : ring.Subperm (spans.map Span.offset))
    (hedit : h.arena.Edit a s) (hs : s ⊆ h.ringBytes ring) (hthr : a.Threads (h.nodes ring))
    (hends : a.link? h.head .prev = none ∧ a.link? h.tail .next = none) :
    { h with arena := a : Heap }.Holds ⟨spans, ring⟩ where
  tiles := hedit.size_eq ▸ ht
  tagged x hx := (htag x hx).edit hedit fun _ hi his =>
    tagBytes_disjoint_of_tile ht hsub.subset hx hi (hs his)
  headers := hsub
  threads := hthr
  head_prev := hends.1
  tail_next := hends.2

theorem nodes_subset_cons (n : Nat) : h.nodes ring ⊆ h.nodes (n :: ring) := by
  intro x hx
  simp only [nodes, List.mem_cons, List.mem_append] at hx ⊢
  tauto

namespace Holds

theorem of_restrung {v : View} (hv : h.Holds v) (hsub : ring.Subperm (v.spans.map Span.offset))
    (hre : h.Restrung a ring s) (hedit : h.arena.Edit a (h.ringBytes ring)) :
    { h with arena := a : Heap }.Holds ⟨v.spans, ring⟩ :=
  holds_of_links hv.tiles hv.tagged hsub hedit le_rfl hre.strung.threads
    ⟨hre.head_prev.trans hv.head_prev, hre.tail_next.trans hv.tail_next⟩

/-- **A block leaves the list**, and the others stay in order. -/
theorem unlink (hv : h.Holds ⟨spans, before ++ n :: after⟩) (hsize : h.arena.size ≤ maxTagged) :
    ∃ a, h.unlink n = .ok { h with arena := a } ∧
      h.arena.Edit a (h.ringBytes (before ++ after)) ∧
      { h with arena := a : Heap }.Holds ⟨spans, before ++ after⟩ := by
  obtain ⟨xs, x, y, ys, hx, hy⟩ := h.exists_neighbours before after
  have hnew : h.nodes (before ++ after) = xs ++ x :: y :: ys := nodes_split hx hy []
  have hsub : (before ++ after).Subperm (spans.map Span.offset) :=
    (List.Sublist.subperm (.append_left (List.sublist_cons_self _ _) _)).trans hv.headers
  obtain ⟨a, ha, hre⟩ := hv.strung.unlink_between hsize hx hy
  have hmx : x ∈ h.nodes (before ++ after) := by simp [hnew]
  have hmy : y ∈ h.nodes (before ++ after) := by simp [hnew]
  have hedit := hre.edit.mono (Set.union_subset (linkBytes_subset_ringBytes hmx .next)
    (linkBytes_subset_ringBytes hmy .prev))
  exact ⟨a, ha, hedit, hv.of_restrung hsub hre hedit⟩

/-- **A block enters the list** at its front. -/
theorem pushFront (hv : h.Holds ⟨spans, ring⟩) (hsize : h.arena.size ≤ maxTagged)
    (hn : n ∈ spans.map Span.offset) (hfresh : n ∉ ring) :
    ∃ a, h.pushFront n = .ok { h with arena := a } ∧
      h.arena.Edit a (h.ringBytes (n :: ring)) ∧
      { h with arena := a : Heap }.Holds ⟨spans, n :: ring⟩ := by
  have hsub : (n :: ring).Subperm (spans.map Span.offset) :=
    List.subperm_of_subset (List.nodup_cons.2 ⟨hfresh, hv.ring_nodup⟩)
      (List.cons_subset.2 ⟨hn, hv.headers.subset⟩)
  obtain ⟨y, a, hy, ha, hre⟩ := hv.strung.pushFront hsize (hv.spaced_of_subperm hsub)
  have hmn : n ∈ h.nodes (n :: ring) := by simp [nodes]
  have hmy : y ∈ h.nodes (n :: ring) := nodes_subset_cons n (hy.subset (by simp))
  have hmh := h.head_mem_nodes (n :: ring)
  have hedit := hre.edit.mono (Set.union_subset
    (Set.union_subset (linkBytes_subset_ringBytes hmn .next) (linkBytes_subset_ringBytes hmy .prev))
    (Set.union_subset (linkBytes_subset_ringBytes hmh .next)
      (linkBytes_subset_ringBytes hmn .prev)))
  exact ⟨a, ha, hedit, hv.of_restrung hsub hre hedit⟩

theorem unlink_of_mem (hv : h.Holds ⟨spans, ring⟩) (hsize : h.arena.size ≤ maxTagged)
    (hn : n ∈ ring) :
    ∃ a, h.unlink n = .ok { h with arena := a } ∧ h.arena.Edit a (h.ringBytes ring) ∧
      { h with arena := a : Heap }.Holds ⟨spans, ring.erase n⟩ := by
  obtain ⟨before, after, rfl⟩ := List.append_of_mem hn
  have hfresh : n ∉ before := fun hmem =>
    (List.nodup_append.1 hv.ring_nodup).2.2 n hmem n (by simp) rfl
  rw [List.erase_append_right _ hfresh, List.erase_cons_head]
  obtain ⟨a, ha, hedit, hv'⟩ := hv.unlink hsize
  exact ⟨a, ha, hedit.mono (ringBytes_mono (by simp)), hv'⟩

theorem neighbours (hv : h.Holds ⟨spans, before ++ n :: after⟩) : ∃ xs x y ys,
    h.head :: before = xs ++ [x] ∧ after ++ [h.tail] = y :: ys ∧
      h.neighbour n .prev = .ok x ∧ h.neighbour n .next = .ok y := by
  obtain ⟨xs, x, y, ys, hx, hy⟩ := h.exists_neighbours before after
  have hnodes : h.nodes (before ++ n :: after) = xs ++ x :: n :: y :: ys := nodes_split hx hy [n]
  have hin := hv.spaced.inside n (by simp [nodes])
  have hthr := hv.threads
  rw [hnodes, Arena.Threads, List.isChain_split, List.isChain_cons_cons,
    List.isChain_cons_cons] at hthr
  exact ⟨xs, x, y, ys, hx, hy, neighbour_of_link? hin hthr.2.1.2,
    neighbour_of_link? hin hthr.2.2.1.1⟩

/-- The list in front of a block, and the list after it, survive an edit of blocks that are not
listed, and of that block. -/
theorem cut_edit {x y : Nat} {xs ys : List Nat}
    (hv : h.Holds ⟨pre ++ mid ++ post, before ++ n :: after⟩) (hedit : h.arena.Edit a s)
    (hs : s ⊆ Span.area mid) (hring : ∀ z ∈ mid, z.offset ∉ before ++ after)
    (hx : h.head :: before = xs ++ [x]) (hy : after ++ [h.tail] = y :: ys) :
    (a.Threads (xs ++ [x]) ∧ a.Threads (y :: ys)) ∧
      a.link? h.head .prev = none ∧ a.link? h.tail .next = none := by
  have hcut : (before ++ after).Sublist (before ++ n :: after) :=
    .append_left (List.sublist_cons_self _ _) _
  -- the links of the other blocks of the list are not part of what is edited
  have hmiss : ∀ z ∈ h.nodes (before ++ after), ∀ l, ∀ i ∈ Arena.linkBytes z l, i ∉ s :=
    fun z hz l i hi his => hv.area_disjoint_ringBytes hcut.subset (fun w hw => by simp [hw]) hring
      (hs his) (linkBytes_subset_ringBytes hz l hi)
  have hthr := hv.threads
  rw [show h.nodes (before ++ n :: after) = _ from nodes_split hx hy [n], Arena.Threads,
    List.isChain_split] at hthr
  refine ⟨⟨Arena.Threads.edit hthr.1 hedit fun z hz => hmiss z ?_,
    Arena.Threads.edit hthr.2.tail.tail hedit fun z hz => hmiss z ?_⟩, ?_, ?_⟩
  · rw [← hx] at hz
    simp only [nodes, List.mem_cons, List.mem_append] at hz ⊢
    tauto
  · rw [← hy] at hz
    simp only [nodes, List.mem_cons, List.mem_append] at hz ⊢
    tauto
  · exact (hedit.link?_eq (hmiss h.head (by simp [nodes]) _)).trans hv.head_prev
  · exact (hedit.link?_eq (hmiss h.tail (by simp [nodes]) _)).trans hv.tail_next

/-- **A block takes the place of another in the list**, when blocks that include the one are
replaced by blocks that include the other. -/
theorem relink {r x y : Nat} {xs ys : List Nat}
    (hv : h.Holds ⟨pre ++ mid ++ post, before ++ n :: after⟩) (hsize : h.arena.size ≤ maxTagged)
    (hedit : h.arena.Edit a s) (hs : s ⊆ Span.area mid)
    (hring : ∀ z ∈ mid, z.offset ∉ before ++ after)
    (hcov : Span.Covers h.layout mid' mid) (htag : ∀ z ∈ mid', a.Tagged z)
    (hr : r ∈ mid'.map Span.offset) (hfresh : r ∉ before ++ after)
    (hx : h.head :: before = xs ++ [x]) (hy : after ++ [h.tail] = y :: ys) :
    ∃ b c, { h with arena := a : Heap }.splice x r = .ok { h with arena := b } ∧
      { h with arena := b : Heap }.splice r y = .ok { h with arena := c } ∧
      a.Edit c (h.ringBytes (before ++ r :: after)) ∧
      { h with arena := c : Heap }.Holds ⟨pre ++ mid' ++ post, before ++ r :: after⟩ := by
  have ht := hv.tiles_replace hcov
  have hcut : (before ++ after).Sublist (before ++ n :: after) :=
    .append_left (List.sublist_cons_self _ _) _
  have hsub : (before ++ r :: after).Subperm ((pre ++ mid' ++ post).map Span.offset) := by
    refine (List.perm_middle.subperm).trans (List.subperm_of_subset
      (List.nodup_cons.2 ⟨hfresh, hv.ring_nodup.sublist hcut⟩) (List.cons_subset.2 ⟨?_, ?_⟩))
    · simp only [List.map_append, List.mem_append]
      exact .inl (.inr hr)
    · exact hv.subset_replace hcut.subset hring
  have hspaced := spaced_of_tile ht hsub
  have hnew : h.nodes (before ++ r :: after) = xs ++ x :: r :: y :: ys := nodes_split hx hy [r]
  obtain ⟨⟨hxs, hys⟩, hhp, htn⟩ := hv.cut_edit hedit hs hring hx hy
  have hspaced' := hspaced.of_size_eq hedit.size_eq
  obtain ⟨b, c, hb, hc, hedit', hthr⟩ := relink_spec (h := { h with arena := a })
    (hedit.size_eq ▸ hsize) (hnew ▸ hspaced') hxs hys
  have hmem : ∀ z, z = x ∨ z = r ∨ z = y → z ∈ h.nodes (before ++ r :: after) := by
    rw [hnew]
    rintro z (rfl | rfl | rfl) <;> simp
  have hmono : Arena.linkBytes x .next ∪ Arena.linkBytes r .prev ∪
      (Arena.linkBytes r .next ∪ Arena.linkBytes y .prev) ⊆ h.ringBytes (before ++ r :: after) := by
    refine Set.union_subset (Set.union_subset ?_ ?_) (Set.union_subset ?_ ?_) <;>
      exact linkBytes_subset_ringBytes (hmem _ (by simp)) _
  have hnodup := hspaced.nodup
  have hne : r ≠ h.head ∧ r ≠ h.tail := by
    rw [nodes, List.append_assoc, List.cons_append] at hnodup
    simp only [List.nodup_cons, List.nodup_append, List.mem_append, List.mem_cons] at hnodup
    constructor <;> rintro rfl <;> simp at hnodup
  obtain ⟨hxt, hyh⟩ := neighbours_ne_ends hx hy
    (hv.spaced.nodup.sublist ((hcut.append_right [h.tail]).cons_cons h.head))
  obtain ⟨hhead, htail⟩ := ends_eq (h := { h with arena := a }) hspaced'
    (show h.head ∈ _ by simp [nodes]) (show h.tail ∈ _ by simp [nodes]) hedit' fun i hi => by
      rcases hi with (hi | hi) | (hi | hi)
      · exact .inl ⟨x, hmem x (by simp), hxt, hi⟩
      · exact .inr ⟨r, hmem r (by simp), hne.1, hi⟩
      · exact .inl ⟨r, hmem r (by simp), hne.2, hi⟩
      · exact .inr ⟨y, hmem y (by simp), hyh, hi⟩
  exact ⟨b, c, hb, hc, hedit'.mono hmono, holds_of_links (h := { h with arena := a })
    (hedit.size_eq ▸ ht) (hv.tagged_replace hedit hs htag) hsub (hedit'.mono hmono) le_rfl
    (hnew ▸ hthr) ⟨hhead.trans hhp, htail.trans htn⟩⟩

end Holds

end Heap

end TaggedHeap
