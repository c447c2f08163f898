import TaggedHeap.Proofs.Codec
import TaggedHeap.Proofs.View

/-!
# Surgery on the list

The list of free blocks is strung from sentinel to sentinel (`Heap.Strung`).  Pushing a block to
its front and unlinking one of its blocks leave a list that is strung again, with one block more or
less, and set four links or two (`Heap.Strung.surgery`).

All that matters is where the blocks lie: far enough apart for their links.  What their tags say is
of no concern, and the links of a block that is not listed may be anything.
-/

namespace TaggedHeap

namespace Heap

open Arena

variable {h : Heap} {a b : Arena} {s t : Set Nat} {ring before after xs ys : List Nat} {n x y : Nat}

/-- The list of the blocks at `ring` is threaded from sentinel to sentinel, and they lie apart. -/
structure Strung (h : Heap) (ring : List Nat) : Prop where
  /-- The sentinels and the blocks lie apart. -/
  spaced : h.arena.Spaced (h.nodes ring)
  /-- Each of them is linked with the next one. -/
  threads : h.arena.Threads (h.nodes ring)

/-- The list in `a` is that of the blocks at `ring`, and all that is new in `a` are links at the
offsets in `s`. -/
structure Restrung (h : Heap) (a : Arena) (ring : List Nat) (s : Set Nat) : Prop where
  /-- No other byte is changed. -/
  edit : h.arena.Edit a s
  /-- The list is strung. -/
  strung : { h with arena := a : Heap }.Strung ring
  /-- The link before the head sentinel is what it was. -/
  head_prev : a.link? h.head .prev = h.arena.link? h.head .prev
  /-- The link after the tail sentinel is what it was. -/
  tail_next : a.link? h.tail .next = h.arena.link? h.tail .next

theorem Holds.strung {v : View} (hv : h.Holds v) : h.Strung v.ring := ⟨hv.spaced, hv.threads⟩

theorem Restrung.trans {ring' : List Nat} (ha : h.Restrung a ring s)
    (hb : { h with arena := a : Heap }.Restrung b ring' t) : h.Restrung b ring' (s ∪ t) where
  edit := ha.edit.trans hb.edit
  strung := hb.strung
  head_prev := hb.head_prev.trans ha.head_prev
  tail_next := hb.tail_next.trans ha.tail_next

theorem ends_eq {nodes' : List Nat} (hspaced : h.arena.Spaced nodes') (hhead : h.head ∈ nodes')
    (htail : h.tail ∈ nodes') (hedit : h.arena.Edit a s)
    (hs : ∀ i ∈ s, (∃ x ∈ nodes', x ≠ h.tail ∧ i ∈ linkBytes x .next) ∨
      ∃ x ∈ nodes', x ≠ h.head ∧ i ∈ linkBytes x .prev) :
    a.link? h.head .prev = h.arena.link? h.head .prev ∧
      a.link? h.tail .next = h.arena.link? h.tail .next := by
  constructor
  · refine hedit.link?_eq fun i hi his => ?_
    obtain ⟨x, hx, hne, hix⟩ | ⟨x, hx, hne, hix⟩ := hs i his
    · exact hspaced.linkBytes_disjoint hx hhead (.inr (by decide)) i hix hi
    · exact hspaced.linkBytes_disjoint hx hhead (.inl hne) i hix hi
  · refine hedit.link?_eq fun i hi his => ?_
    obtain ⟨x, hx, hne, hix⟩ | ⟨x, hx, hne, hix⟩ := hs i his
    · exact hspaced.linkBytes_disjoint hx htail (.inl hne) i hix hi
    · exact hspaced.linkBytes_disjoint hx htail (.inr (by decide)) i hix hi

/-! ### Neighbours -/

theorem exists_neighbours (before after : List Nat) : ∃ xs x y ys,
    h.head :: before = xs ++ [x] ∧ after ++ [h.tail] = y :: ys := by
  obtain ⟨xs, x, hx⟩ :=
    (List.eq_nil_or_concat (h.head :: before)).resolve_left (List.cons_ne_nil _ _)
  obtain ⟨y, ys, hy⟩ := List.exists_cons_of_ne_nil
    (show after ++ [h.tail] ≠ [] from List.append_ne_nil_of_right_ne_nil _ (List.cons_ne_nil _ _))
  exact ⟨xs, x, y, ys, hx.trans (List.concat_eq_append ..), hy⟩

section Neighbours

variable (hx : h.head :: before = xs ++ [x]) (hy : after ++ [h.tail] = y :: ys)

include hx hy

theorem nodes_split (ns : List Nat) :
    h.nodes (before ++ (ns ++ after)) = xs ++ x :: (ns ++ y :: ys) := by
  rw [nodes, List.append_assoc, List.append_assoc, hy, ← List.cons_append, hx]
  simp

theorem neighbours_ne_ends (hnodup : (h.nodes (before ++ after)).Nodup) :
    x ≠ h.tail ∧ y ≠ h.head := by
  rw [nodes, List.append_assoc, ← List.cons_append] at hnodup
  have hne := (List.nodup_append.1 hnodup).2.2
  exact ⟨fun he => hne x (by simp [hx]) h.tail (by simp) he,
    fun he => hne h.head (by simp) y (by simp [hy]) he.symm⟩

end Neighbours

namespace Strung

theorem unlink_between (hs : h.Strung (before ++ n :: after)) (hsize : h.arena.size ≤ maxTagged)
    (hx : h.head :: before = xs ++ [x]) (hy : after ++ [h.tail] = y :: ys) :
    ∃ a, h.unlink n = .ok { h with arena := a } ∧
      h.Restrung a (before ++ after) (linkBytes x .next ∪ linkBytes y .prev) := by
  have hold : h.nodes (before ++ n :: after) = xs ++ x :: n :: y :: ys := nodes_split hx hy [n]
  have hnew : h.nodes (before ++ after) = xs ++ x :: y :: ys := nodes_split hx hy []
  have hspaced : h.arena.Spaced (h.nodes (before ++ after)) := by
    rw [hnew]
    exact (hold ▸ hs.spaced).sublist (.append_left (.cons_cons _ (.cons _ (.refl _))) _)
  obtain ⟨a, ha, hedit, hthreads⟩ :=
    unlink_spec hsize (hold ▸ hs.spaced) (show h.arena.Threads _ from hold ▸ hs.threads)
  have hmx : x ∈ h.nodes (before ++ after) := by simp [hnew]
  have hmy : y ∈ h.nodes (before ++ after) := by simp [hnew]
  obtain ⟨hxt, hyh⟩ := neighbours_ne_ends hx hy hspaced.nodup
  obtain ⟨hhead, htail⟩ := ends_eq hspaced (h.head_mem_nodes _) (h.tail_mem_nodes _) hedit
    fun i hi => hi.imp (fun hi => ⟨x, hmx, hxt, hi⟩) fun hi => ⟨y, hmy, hyh, hi⟩
  exact ⟨a, ha, hedit, ⟨hspaced.of_size_eq hedit.size_eq, hnew ▸ hthreads⟩, hhead, htail⟩

/-- **A block of the list is unlinked.**  The others stay in order, and the two links that led to
the block are set. -/
theorem unlink (hs : h.Strung ring) (hsize : h.arena.size ≤ maxTagged) (hn : n ∈ ring) :
    ∃ x y a, [x, n, y] <:+: h.nodes ring ∧ h.unlink n = .ok { h with arena := a } ∧
      h.Restrung a (ring.erase n) (linkBytes x .next ∪ linkBytes y .prev) := by
  obtain ⟨before, after, rfl⟩ := List.append_of_mem hn
  obtain ⟨xs, x, y, ys, hx, hy⟩ := h.exists_neighbours before after
  have hnodes : h.nodes (before ++ n :: after) = xs ++ x :: n :: y :: ys := nodes_split hx hy [n]
  have hfresh : n ∉ before := by
    have hnodup := hs.spaced.nodup
    rw [nodes, List.append_assoc, List.nodup_cons, List.nodup_append] at hnodup
    exact fun hmem => hnodup.2.2.2 n hmem n (by simp) rfl
  rw [List.erase_append_right _ hfresh, List.erase_cons_head]
  obtain ⟨a, ha, hre⟩ := hs.unlink_between hsize hx hy
  exact ⟨x, y, a, ⟨xs, ys, by simp [hnodes]⟩, ha, hre⟩

theorem spaced_cons (hs : h.Strung ring) (hin : n + 12 ≤ h.arena.size)
    (hapart : ∀ x ∈ h.nodes ring, Apart n x) : h.arena.Spaced (h.nodes (n :: ring)) := by
  have hall : h.arena.Spaced (n :: h.nodes ring) :=
    ⟨List.pairwise_cons.2 ⟨hapart, hs.spaced.apart⟩,
      List.forall_mem_cons.2 ⟨hin, hs.spaced.inside⟩⟩
  exact hall.perm (.swap _ _ _)

/-- **A block is pushed to the front of the list.**  Its own links are set, and the two between
which it comes. -/
theorem pushFront (hs : h.Strung ring) (hsize : h.arena.size ≤ maxTagged)
    (hspaced : h.arena.Spaced (h.nodes (n :: ring))) :
    ∃ y a, [h.head, y] <+: h.nodes ring ∧ h.pushFront n = .ok { h with arena := a } ∧
      h.Restrung a (n :: ring) (linkBytes n .next ∪ linkBytes y .prev ∪
        (linkBytes h.head .next ∪ linkBytes n .prev)) := by
  obtain ⟨-, -, y, ys, -, hy⟩ := h.exists_neighbours [] ring
  have hold : h.nodes ring = h.head :: y :: ys := by rw [nodes, hy]
  have hnew : h.nodes (n :: ring) = h.head :: n :: y :: ys := by
    rw [nodes, List.cons_append, hy]
  obtain ⟨a, ha, hedit, hthreads⟩ :=
    pushFront_spec hsize (hnew ▸ hspaced) (show h.arena.Threads _ from hold ▸ hs.threads)
  have hnodup := hspaced.nodup
  have hmn : n ∈ h.nodes (n :: ring) := by simp [hnew]
  have hmy : y ∈ h.nodes (n :: ring) := by simp [hnew]
  have hmh := h.head_mem_nodes (n :: ring)
  have hnt : n ≠ h.tail := by
    rintro rfl
    simp [nodes] at hnodup
  rw [hnew] at hnodup
  have hnh : n ≠ h.head := by rintro rfl; simp at hnodup
  have hyh : y ≠ h.head := by rintro rfl; simp at hnodup
  have hht : h.head ≠ h.tail := by have := h.head_lt_tail; omega
  obtain ⟨hhead, htail⟩ := ends_eq hspaced hmh (h.tail_mem_nodes _) hedit fun i hi => by
    rcases hi with (hi | hi) | (hi | hi)
    · exact .inl ⟨n, hmn, hnt, hi⟩
    · exact .inr ⟨y, hmy, hyh, hi⟩
    · exact .inl ⟨h.head, hmh, hht, hi⟩
    · exact .inr ⟨n, hmn, hnh, hi⟩
  exact ⟨y, a, ⟨ys, by simp [hold]⟩, ha, hedit,
    ⟨hspaced.of_size_eq hedit.size_eq, hnew ▸ hthreads⟩, hhead, htail⟩

/-- **Surgery on the list is exact.**  A block apart from the list is pushed to its front, a block
of the list is unlinked, and two are unlinked one after the other, be they neighbours or not.  The
list is strung afterwards, with the other blocks in the order they had, and no byte is changed but
links of the block pushed and of the blocks, or sentinels, next to those that come or go. -/
theorem surgery (hs : h.Strung ring) (hsize : h.arena.size ≤ maxTagged) :
    (∀ n, n + 12 ≤ h.arena.size → (∀ x ∈ h.nodes ring, Apart n x) →
      ∃ y a, [h.head, y] <+: h.nodes ring ∧ h.pushFront n = .ok { h with arena := a } ∧
        h.Restrung a (n :: ring) (linkBytes n .next ∪ linkBytes y .prev ∪
          (linkBytes h.head .next ∪ linkBytes n .prev))) ∧
    (∀ n ∈ ring, ∃ x y a, [x, n, y] <:+: h.nodes ring ∧ h.unlink n = .ok { h with arena := a } ∧
      h.Restrung a (ring.erase n) (linkBytes x .next ∪ linkBytes y .prev)) ∧
    ∀ m ∈ ring, ∀ n ∈ ring, m ≠ n → ∃ x y x' y' a b,
      [x, m, y] <:+: h.nodes ring ∧ [x', n, y'] <:+: h.nodes (ring.erase m) ∧
      h.unlink m = .ok { h with arena := a } ∧
      { h with arena := a : Heap }.unlink n = .ok { h with arena := b } ∧
      h.Restrung b (ring.filter fun z => z ≠ m ∧ z ≠ n)
        (linkBytes x .next ∪ linkBytes y .prev ∪ (linkBytes x' .next ∪ linkBytes y' .prev)) := by
  have hnodup : ring.Nodup :=
    (List.nodup_append.1 (List.nodup_cons.1 hs.spaced.nodup).2).1
  refine ⟨fun n hin hapart => hs.pushFront hsize (hs.spaced_cons hin hapart),
    fun n hn => hs.unlink hsize hn, fun m hm n hn hne => ?_⟩
  obtain ⟨x, y, a, hxy, ha, hre⟩ := hs.unlink hsize hm
  -- the second block is still listed, between neighbours that may have changed
  have hn' : n ∈ ring.erase m := (List.mem_erase_of_ne hne.symm).2 hn
  obtain ⟨x', y', b, hxy', hb, hre'⟩ := hre.strung.unlink (hre.edit.size_eq ▸ hsize) hn'
  have hboth : (ring.erase m).erase n = ring.filter fun z => z ≠ m ∧ z ≠ n := by
    rw [(hnodup.erase m).erase_eq_filter, hnodup.erase_eq_filter, List.filter_filter]
    refine List.filter_congr fun z _ => ?_
    simp [Bool.and_comm, bne, beq_eq_decide]
  exact ⟨x, y, x', y', a, b, hxy, hxy', ha, hb, hboth ▸ hre.trans hre'⟩

/-- The first and the last of three blocks are listed, next to each other, and the one in the middle
is not. -/
theorem surgery_ofThreeBlocks : ofThreeBlocks.Strung [44, 76] ∧
    (∃ a, ofThreeBlocks.pushFront 60 = .ok { ofThreeBlocks with arena := a } ∧
      { ofThreeBlocks with arena := a : Heap }.Strung [60, 44, 76]) ∧
    ∃ a b, ofThreeBlocks.unlink 44 = .ok { ofThreeBlocks with arena := a } ∧
      { ofThreeBlocks with arena := a : Heap }.unlink 76 = .ok { ofThreeBlocks with arena := b } ∧
      { ofThreeBlocks with arena := b : Heap }.Strung [] := by
  have hs : ofThreeBlocks.Strung [44, 76] :=
    ⟨⟨by decide, by decide⟩, by decide +kernel⟩
  obtain ⟨hpush, -, hboth⟩ := surgery hs (by decide)
  obtain ⟨_, a, -, ha, hre⟩ := hpush 60 (by decide) (by decide)
  obtain ⟨_, _, _, _, b, c, -, -, hb, hc, hre'⟩ :=
    hboth 44 (by decide) 76 (by decide) (by decide)
  exact ⟨hs, ⟨a, ha, hre.strung⟩, b, c, hb, hc, hre'.strung⟩

end Strung

end Heap

end TaggedHeap
