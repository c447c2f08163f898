import TaggedHeap.Proofs.Session

/-!
# Giving blocks back

A block in use that is given back, or the end of it, becomes a free block that is not joined with
its neighbours yet (`Heap.Sound.unmerged`).  Merging does the rest.  The bytes of all other blocks
in use are kept (`releaseBlock_spec`).
-/

namespace TaggedHeap

open Heap SessionM

namespace Span

/-- The block, which is no longer in use. -/
def freed (x : Span) : Span := { x with free := true }

/-- What lies around a block: `left` is the block just below, if it is free, and `right` the one
just above, if it is free. -/
structure Around (lo hi pre : List Span) (left right : Option Span) (post : List Span) : Prop where
  /-- The blocks below. -/
  lo_eq : lo = pre ++ left.toList
  /-- The blocks above. -/
  hi_eq : hi = right.toList ++ post
  /-- The block below is free, if it is given. -/
  left_free : ∀ y ∈ left, y.free
  /-- The block above is free, if it is given. -/
  right_free : ∀ y ∈ right, y.free
  /-- No other free blocks below are next to each other or to the given ones. -/
  below : ∀ y, Separated (pre ++ [y])
  /-- No other free blocks above are next to each other or to the given ones. -/
  above : ∀ y, Separated (y :: post)

theorem exists_around {lo hi : List Span} (hlo : Separated lo) (hhi : Separated hi) :
    ∃ pre left right post, Around lo hi pre left right post := by
  obtain ⟨pre, left, hlo, hleft, hbelow⟩ := exists_left hlo
  obtain ⟨right, post, hhi, hright, habove⟩ := exists_right hhi
  exact ⟨pre, left, right, post, hlo, hhi, hleft, hright, hbelow, habove⟩

theorem exists_around_end {xs : List Span} (hxs : Separated xs) :
    ∃ pre left, Around xs [] pre left none [] := by
  obtain ⟨pre, left, hspans, hleft, hbelow⟩ := exists_left hxs
  exact ⟨pre, left, hspans, rfl, hleft, by simp, hbelow, fun _ => .singleton _⟩

theorem used_toList {y : Option Span} (hy : ∀ x ∈ y, x.free) : used y.toList = [] :=
  List.filter_eq_nil_iff.2 fun x hx => by simp [hy x (Option.mem_toList.1 hx)]

theorem Around.used_eq {lo hi pre post : List Span} {left right : Option Span}
    (hn : Around lo hi pre left right post) : used (pre ++ post) = used (lo ++ hi) := by
  simp [hn.lo_eq, hn.hi_eq, used_toList hn.left_free, used_toList hn.right_free]

theorem exists_of_used {xs rest : List Span} {x : Span} (hx : (used xs).Perm (x :: rest)) :
    ∃ lo hi, xs = lo ++ [x] ++ hi ∧ x.free = false ∧ (used (lo ++ hi)).Perm rest := by
  obtain ⟨hmem, hfree⟩ := mem_used.1 (hx.mem_iff.2 (List.mem_cons_self ..))
  obtain ⟨lo, hi, rfl⟩ := List.append_of_mem hmem
  refine ⟨lo, hi, by simp, hfree, (List.perm_cons x).1 (.trans ?_ hx)⟩
  simp only [used, List.filter_append, List.filter_cons, hfree]
  exact List.perm_middle.symm

theorem Separated.sides {lo hi : List Span} {x : Span} (h : Separated (lo ++ [x] ++ hi)) :
    Separated lo ∧ Separated hi := by
  rw [Separated, List.append_assoc] at h
  exact ⟨h.left_of_append, List.IsChain.tail h.right_of_append⟩

end Span

variable {pre lo hi post kept rest : List Span} {left right : Option Span} {x y : Span}
  {ring : List Nat} {s : Session} {v : View}

/-- **The end of a block in use becomes free**, and what comes before it stays in use. -/
theorem Heap.Sound.unmerged {h : Heap} {a : Arena} {t : Set Nat}
    (hv : h.Sound ⟨lo ++ [x] ++ hi, ring⟩) (hused : x.free = false) (hedit : h.arena.Edit a t)
    (ht : t ⊆ x.bytes) (hcov : Span.Covers h.layout (kept ++ [y]) [x])
    (htag : ∀ z ∈ kept ++ [y], a.Tagged z) (hkept : ∀ z ∈ kept, z.free = false) (hfree : y.free)
    (hn : Span.Around (lo ++ kept) hi pre left right post) :
    { h with arena := a, top := h.lastOf (lo ++ (kept ++ [y]) ++ hi) }.Unmerged pre left y right
      post ring := by
  have hspans : lo ++ (kept ++ [y]) ++ hi = pre ++ (left.toList ++ y :: right.toList) ++ post := by
    rw [← List.append_assoc, hn.lo_eq, hn.hi_eq]
    simp
  have hunlisted : x.offset ∉ ring := by
    rw [hv.mem_ring_iff (by simp), hused]
    simp
  have hv' := hv.holds.retile hedit
    (ht.trans fun i hi => ⟨x, by simp, hi⟩) (by simpa using hunlisted) hcov htag
  rw [hspans] at hv' ⊢
  refine ⟨⟨hv'.tiles, hv'.tagged, hv'.headers, hv'.threads, hv'.head_prev, hv'.tail_next⟩, rfl,
    hfree, ?_, hn.left_free, hn.right_free, hn.below, hn.above⟩
  -- no block in use is listed
  have hmid : pre ++ (left.toList ++ right.toList) ++ post = lo ++ kept ++ hi := by
    rw [hn.lo_eq, hn.hi_eq]
    simp
  have hnone : Span.freeHeaders kept = [] := by
    rw [Span.freeHeaders, List.filter_eq_nil_iff.2 fun z hz => by simp [hkept z hz]]
    rfl
  have hone : Span.freeHeaders [x] = [] := by simp [Span.freeHeaders, hused]
  have hlist := hv.listed
  rw [Span.freeHeaders_append, Span.freeHeaders_append, hone] at hlist
  rw [hmid, Span.freeHeaders_append, Span.freeHeaders_append, hnone]
  exact hlist

theorem Heap.lastOf_congr (h : Heap) {xs ys : List Span}
    (hxy : xs.map Span.offset = ys.map Span.offset) : h.lastOf xs = h.lastOf ys := by
  rw [lastOf, lastOf, ← List.getLast?_map, ← List.getLast?_map, hxy]

/-- **Giving a block back** joins it with its free neighbours. -/
theorem releaseBlock_merged (hv : s.heap.Sound ⟨lo ++ [x] ++ hi, ring⟩) (hused : x.free = false)
    (hsize : s.heap.arena.size ≤ maxTagged) (hn : Span.Around lo hi pre left right post) :
    ∃ h' log, releaseBlock (.ofHeader x.offset) s = .ok () ⟨h', log⟩ ∧
      h'.Sound ⟨pre ++ [Span.merged left x.freed right] ++ post,
        (Span.merged left x.freed right).offset ::
          ring.diff ((left.toList ++ right.toList).map Span.offset)⟩ ∧
      s.heap.Evolves h' (s.heap.safe (Span.used (lo ++ hi))) ∧
      h'.arena.size = s.heap.arena.size := by
  have hmx : x ∈ s.heap.chain (lo ++ [x] ++ hi) := mem_chain_of_mem (by simp)
  have hb := hv.holds.bounds hmx
  have heven := (hv.tiles.admits hmx).mod_eight s.heap.valid
  obtain ⟨t, ht, htsize, -⟩ := hv.holds.tag_eq hmx
  obtain ⟨a, ha, hedit, htag⟩ := setTags_spec (h := s.heap) x.offset x.size false
    (by omega) (by omega) (by omega) (by omega)
  have htags : (Span.mk x.offset x.size true).tagBytes ⊆ x.bytes :=
    Span.tagBytes_subset (x := ⟨x.offset, x.size, true⟩) (by simp only; omega)
  have hu := hv.unmerged hused hedit htags
    (show Span.Covers _ ([] ++ [x.freed]) [x] from Span.covers_one true rfl)
    (List.forall_mem_singleton.2 htag) (by simp) rfl (by rwa [List.append_nil])
  have hevolves := Evolves.of_edit (t := s.heap.safe (Span.used (lo ++ hi))) hsize hedit
    (fun i hi hi' => hv.holds.safe_disjoint hv.listed.subset hi (.inr ⟨x, by simp, htags hi'⟩))
    s.heap.top
  have htop : s.heap.lastOf (lo ++ ([] ++ [x.freed]) ++ hi) = s.heap.top := by
    rw [hv.top_eq]
    exact s.heap.lastOf_congr (by simp [Span.freed])
  rw [htop] at hu
  obtain ⟨h', log, hrun, hv', he, hsame⟩ := mergeBlock_spec (s := ⟨_, s.log⟩) hu hevolves.size_le
  rw [hevolves.safe_eq, hn.used_eq] at he
  refine ⟨h', log.push (.released x.offset x.size), ?_, hv', hevolves.trans he,
    hsame.trans hedit.size_eq⟩
  rw [releaseBlock, calculate, bind_ok (ask_ok (header_ofHeader _)), bind_ok (ask_ok ht), htsize]
  exact (bind_ok (alter_ok ha)).trans ((bind_ok hrun).trans rfl)

/-- **A block is given back**, and all others in use stay. -/
theorem releaseBlock_spec (hv : s.heap.Sound v) (hsize : s.heap.arena.size ≤ maxTagged)
    (hx : (Span.used v.spans).Perm (x :: rest)) :
    ∃ h' log v', releaseBlock (.ofHeader x.offset) s = .ok () ⟨h', log⟩ ∧ h'.Sound v' ∧
      (Span.used v'.spans).Perm rest ∧ s.heap.Evolves h' (s.heap.safe rest) := by
  obtain ⟨lo, hi, hspans, hused, hrest⟩ := Span.exists_of_used hx
  have hv₀ : s.heap.Sound ⟨lo ++ [x] ++ hi, v.ring⟩ := by rwa [← hspans]
  obtain ⟨hlo, hhi⟩ := hv₀.separated.sides
  obtain ⟨pre, left, right, post, hn⟩ := Span.exists_around hlo hhi
  obtain ⟨h', log, hrun, hv', he, -⟩ := releaseBlock_merged hv₀ hused hsize hn
  refine ⟨h', log, _, hrun, hv', ?_, he.mono (safe_mono hrest.symm.subset)⟩
  refine .trans ?_ hrest
  rw [← hn.used_eq]
  simp [Span.used, Span.merged]

end TaggedHeap
