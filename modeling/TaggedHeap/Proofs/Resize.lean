import TaggedHeap.Proofs.Allocate
import TaggedHeap.Proofs.Payload
import TaggedHeap.Proofs.Release

/-!
# Resizing

A block in use that is resized stays where it is if it can.  Its end is cut off
(`shrink_cut`), or it takes space of the block above if that is free (`roomAbove?_eq`).
Otherwise its content moves to a new block (`moveBlock_spec`).  In every case the first bytes of
the payload are those of the old payload, and other blocks in use keep all of theirs
(`resizeBlock_spec`).
-/

namespace TaggedHeap

open Heap SessionM

variable {pre lo hi post rest : List Span} {left right : Option Span} {x y : Span} {ring : List Nat}
  {s : Session} {v : View} {size need : Nat}

theorem Span.Separated.insert_used (hlo : Separated lo) (hx : x.free = false) (hhi : Separated hi) :
    Separated (lo ++ [x] ++ hi) := by
  refine List.isChain_append.2 ⟨List.isChain_append.2 ⟨hlo, .singleton _, ?_⟩, hhi, ?_⟩
  · rintro _ - y hy
    obtain rfl : x = y := by simpa using hy
    simp [hx]
  · rintro y hy
    obtain rfl : x = y := by simpa using hy
    simp [hx]

theorem Span.exists_around_cut (hlo : Separated lo) (hhi : Separated hi) (block size : Nat) :
    ∃ right post, Around (lo ++ [.mk block size false]) hi (lo ++ [.mk block size false]) none
      right post := by
  obtain ⟨right, post, hhi', hright, habove⟩ := exists_right hhi
  exact ⟨right, post, by simp, hhi', by simp, hright,
    fun z => hlo.insert_used rfl (.singleton z), habove⟩

theorem Heap.Sound.cutDown {h : Heap} (hv : h.Sound ⟨lo ++ [x] ++ hi, ring⟩)
    (hused : x.free = false) (hneed : h.layout.Admits need)
    (hrest : need + h.layout.minBlock ≤ x.size) (hsize : h.arena.size ≤ maxTagged)
    (hn : Span.Around (lo ++ [.mk x.offset need false]) hi (lo ++ [.mk x.offset need false]) none
      right post) :
    ∃ a top, TaggedHeap.cutDown x.offset x.size need h =
        .ok (x.offset + need, { h with arena := a, top }) ∧
      { h with arena := a, top : Heap }.Unmerged (lo ++ [⟨x.offset, need, false⟩]) none
        ⟨x.offset + need, x.size - need, true⟩ right post ring ∧
      h.Evolves { h with arena := a, top } (h.safe (Span.used (lo ++ hi)) ∪
        (Span.mk x.offset need false).inner) ∧ a.size = h.arena.size := by
  have hmx : x ∈ h.chain (lo ++ [x] ++ hi) := mem_chain_of_mem (by simp)
  have hb := hv.holds.bounds hmx
  have h16 := hneed.le h.valid
  have hmin : 16 ≤ h.layout.minBlock := h.valid.four_words_le
  have heven := hneed.mod_eight h.valid
  have heven' := (hv.tiles.admits hmx).mod_eight h.valid
  obtain ⟨a₁, a, h₁, h₂, hedit, htag, htag'⟩ := setTags_pair_spec (h := h) x.offset
    need x.size (by omega) (by omega) (by omega) (by omega) (by omega) (by omega)
  have htags : (Span.mk x.offset need false).tagBytes ∪
      (Span.mk (x.offset + need) (x.size - need) true).tagBytes ⊆ x.bytes := by
    intro i hi
    simp only [Span.tagBytes, Span.stop, Set.mem_union, Set.mem_Ico] at hi
    rw [Span.mem_bytes, Span.stop]
    omega
  have hu := hv.unmerged hused hedit htags (show Span.Covers _ ([⟨x.offset, need, false⟩] ++
    [⟨x.offset + need, x.size - need, true⟩]) [x] from Span.covers_two false true rfl hneed hrest)
    (by simpa using ⟨htag, htag'⟩) (by simp) rfl hn
  refine ⟨a, _, ?_, hu, .of_edit hsize hedit ?_ _, hedit.size_eq⟩
  · simp only [TaggedHeap.cutDown,
      Arena.add_of_le (a := h.arena) (show x.offset + need ≤ _ by omega), ok_bind,
      Address.sub_of_le (show need ≤ x.size by omega), h₁, h₂, pure_eq_ok]
    exact congrArg _ (congrArg _ (Heap.moveTop_eq (h := { h with arena := a })
      (m := ⟨x.offset + need, x.size - need, true⟩) (show [x].getLast? = some x from rfl) rfl
      hv.top_eq hv.holds.nodup_offsets))
  · rintro i (hi | hi) hi'
    · exact hv.holds.safe_disjoint hv.listed.subset hi (.inr ⟨x, by simp, htags hi'⟩)
    · simp only [Span.mem_inner, Span.tagBytes, Span.stop, Set.mem_union, Set.mem_Ico] at hi hi'
      omega

/-- **The end of a block is cut off** and joined with the block above, if that is free. -/
theorem shrink_cut (size : Nat) (hv : s.heap.Sound ⟨lo ++ [x] ++ hi, ring⟩) (hused : x.free = false)
    (hsize : s.heap.arena.size ≤ maxTagged) (hneed : s.heap.layout.Admits need)
    (hrest : need + s.heap.layout.minBlock ≤ x.size)
    (hn : Span.Around (lo ++ [.mk x.offset need false]) hi (lo ++ [.mk x.offset need false]) none
      right post) :
    ∃ h' log, shrink x.offset x.size need size s = .ok () ⟨h', log⟩ ∧
      h'.Sound ⟨lo ++ [⟨x.offset, need, false⟩] ++
          [Span.merged none ⟨x.offset + need, x.size - need, true⟩ right] ++ post,
        (x.offset + need) :: ring.diff (right.toList.map Span.offset)⟩ ∧
      s.heap.Evolves h' (s.heap.safe (Span.used (lo ++ hi)) ∪
        (Span.mk x.offset need false).inner) ∧
      h'.arena.size = s.heap.arena.size := by
  obtain ⟨a, top, hcut, hu, hcutdown, hkeep⟩ := hv.cutDown hused hneed hrest hsize hn
  obtain ⟨h', log, hrun, hv', he, hsame⟩ := mergeBlock_spec (s := ⟨_, s.log⟩) hu hcutdown.size_le
  rw [hn.used_eq, hcutdown.safe_eq] at he
  refine ⟨h', log.push (.shrunk x.offset size), ?_, hv', hcutdown.trans (he.mono ?_),
    hsame.trans hkeep⟩
  · rw [shrink, get_bind, if_pos (show s.heap.layout.minBlock ≤ x.size - need by omega)]
    exact (bind_ok (edit_ok hcut)).trans ((bind_ok hrun).trans rfl)
  · refine Set.union_subset (safe_mono fun z hz => ?_)
      fun i hi => .inr ⟨⟨x.offset, need, false⟩, ?_, Span.inner_subset _ hi⟩
    · simp only [Span.used_append, List.mem_append] at hz ⊢
      tauto
    · simp [Span.used]

/-- The block above a block, if it is free and both together are large enough. -/
theorem Heap.Sound.roomAbove?_eq {h : Heap} (hv : h.Sound ⟨lo ++ [x] ++ hi, ring⟩)
    (need : Nat) (hn : Span.Around lo hi pre left right post) :
    roomAbove? x.offset x.size need h = .ok (right.bind fun y =>
      if need ≤ x.size + y.size then some (y.offset, x.size + y.size) else none) := by
  obtain ⟨next, hnext, hright⟩ := hv.holds.onlyFree_above hv.top_eq
    (show lo ++ [x] ++ hi = lo ++ x :: (right.toList ++ post) by simp [hn.hi_eq]) hn.right_free
    fun _ hy => Span.Separated.head?_used (x := x.freed) (hn.above _) rfl hy
  rw [roomAbove?, hnext, ok_bind, hright, ok_bind]
  cases right with
  | none => rfl
  | some y =>
    have hmy : y ∈ h.chain (lo ++ [x] ++ hi) := mem_chain_of_mem (by simp [hn.hi_eq])
    obtain ⟨t, ht, htsize, -⟩ := hv.holds.tag_eq hmy
    have hx := hv.tiles.totalSize
    have hadd : Address.add x.size y.size = .ok (x.size + y.size) := by
      refine Arena.add_of_le (a := h.arena) ?_
      rw [hn.hi_eq] at hx
      simp only [chain, Option.toList_some, Span.totalSize_append, Span.totalSize_cons] at hx
      omega
    simp only [Option.map_some, ht, htsize, ok_bind, hadd, pure_eq_ok, Option.bind_some]

/-- What becomes of a heap when the block `x` is resized for `size` bytes: `y` is in use instead,
and `rest` are the other blocks in use. -/
structure Heap.Resized (h h' : Heap) (x : Span) (size : Nat) (rest : List Span) (v' : View)
    (y : Span) : Prop where
  /-- The heap is sound. -/
  sound : h'.Sound v'
  /-- The block has the room that was asked for. -/
  suits : y.Suits h.layout size
  /-- No other blocks come into use, and none is lost. -/
  used : (Span.used v'.spans).Perm (y :: rest)
  /-- The other blocks keep their bytes. -/
  evolves : h.Evolves h' (h.safe rest)
  /-- The payload begins as before. -/
  content : ∀ i, i < x.size - 8 → i < size →
    h'.arena.byte (y.offset + 4 + i) = h.arena.byte (x.offset + 4 + i)

theorem Heap.Resized.perm {h h' : Heap} {rest' : List Span} {v' : View}
    (hr : h.Resized h' x size rest v' y) (hrest : rest.Perm rest') :
    h.Resized h' x size rest' v' y where
  sound := hr.sound
  suits := hr.suits
  used := hr.used.trans (hrest.cons y)
  evolves := hr.evolves.mono (safe_mono hrest.symm.subset)
  content := hr.content

/-- **A block moves** to where there is room. -/
theorem moveBlock_spec (hv : s.heap.Sound v) (hsize : s.heap.arena.size ≤ maxTagged)
    (hpos : size ≠ 0) (hx : (Span.used v.spans).Perm (x :: rest)) :
    Answers (moveBlock (.ofHeader x.offset) x.offset x.size size) s fun r h' =>
      ∃ v' y, r = some (.ofHeader y.offset) ∧ s.heap.Resized h' x size rest v' y := by
  rw [moveBlock]
  refine (allocate_spec hv hsize hpos).bind ?_
  rintro _ h₁ log ⟨v₁, y, rfl, hv₁, hsuits, hused₁, he₁⟩
  have hused : (Span.used v₁.spans).Perm (y :: x :: rest) := hused₁.trans (hx.cons y)
  have hmem : ∀ z ∈ y :: x :: rest, z ∈ v₁.spans := fun z hz =>
    (Span.mem_used.1 (hused.mem_iff.2 hz)).1
  have hbx := hv₁.holds.bounds (mem_chain_of_mem (hmem x (by simp)))
  have hroom := hsuits.le
  -- the content is copied
  obtain ⟨b, hcopy, hedit, hbyte⟩ :=
    hv₁.holds.copyBytes_spec (hmem x (by simp)) (hmem y (by simp)) hroom
  have hv₂ := hv₁.edit_inner (hmem y (by simp)) hsuits.used hedit subset_rfl
  have he₂ := hv₁.evolves_inner he₁.size_le hused hedit subset_rfl
  -- the old block is given back
  obtain ⟨h₃, log₃, v₃, hrun, hv₃, hused₃, he₃⟩ := releaseBlock_spec (s := ⟨_, log⟩) hv₂ he₂.size_le
    (hused.trans (.swap ..))
  refine ⟨_, h₃, log₃.push (.moved x.offset size y.offset), ?_, v₃, y, rfl, hv₃, hsuits, hused₃, ?_,
    fun i hi hi' => ?_⟩
  · have hsub : Address.sub x.size overhead = .ok (x.size - 8) :=
      Address.sub_of_le (show 8 ≤ x.size by omega)
    have hlogged : calculate (Pointer.ofHeader y.offset).header ⟨h₃, log₃⟩ =
        .ok y.offset ⟨h₃, log₃⟩ := ask_ok (header_ofHeader _)
    exact (bind_ok (ask_ok hsub)).trans ((bind_ok (alter_ok hcopy)).trans ((bind_ok hrun).trans
      ((bind_ok hlogged).trans rfl)))
  · rw [he₁.safe_eq] at he₂
    rw [he₂.safe_eq, he₁.safe_eq] at he₃
    have hrest : rest ⊆ Span.used v.spans := fun z hz =>
      hx.mem_iff.2 (List.mem_cons_of_mem _ hz)
    have he₂₃ := (he₂.mono (safe_mono (List.subset_cons_self _ _))).trans
      (he₃.mono (safe_mono (List.subset_cons_self _ _)))
    exact (he₁.mono (safe_mono hrest)).trans he₂₃
  · have hyi : y.offset + 4 + i ∈ y.bytes := by
      rw [Span.mem_bytes, Span.stop]
      omega
    have hxi : x.offset + 4 + i ∈ x.bytes := by
      rw [Span.mem_bytes, Span.stop]
      omega
    rw [he₃.keeps.byte_eq _ (.inr ⟨y, by simp, hyi⟩), hbyte i hi hi',
      he₁.keeps.byte_eq _ (.inr ⟨x, hx.mem_iff.2 (by simp), hxi⟩)]

section Cases

variable (hv : s.heap.Sound ⟨lo ++ [x] ++ hi, ring⟩) (hneed : blockSize size s = .ok need s)

include hv hneed

theorem resizeBlock_eq : resizeBlock (.ofHeader x.offset) size s =
    (if need = x.size then return some (.ofHeader x.offset)
    else if need < x.size then do
      shrink x.offset x.size need size
      return some (.ofHeader x.offset)
    else do
      match ← ask (roomAbove? x.offset x.size need) with
      | some (next, total) =>
        carveBlock x.offset total need next
        note (.grewInto x.offset size next)
        return some (.ofHeader x.offset)
      | none => moveBlock (.ofHeader x.offset) x.offset x.size size : SessionM _) s := by
  obtain ⟨t, ht, htsize, -⟩ := hv.holds.tag_eq (x := x) (mem_chain_of_mem (by simp))
  rewrite [resizeBlock, bind_ok hneed, calculate, bind_ok (ask_ok (header_ofHeader _)),
    bind_ok (ask_ok ht), htsize]
  split
  · rfl
  · split <;> rfl

theorem resizeBlock_keep (hle : need ≤ x.size) (hlt : x.size < need + s.heap.layout.minBlock) :
    ∃ log, resizeBlock (.ofHeader x.offset) size s =
      .ok (some (.ofHeader x.offset)) ⟨s.heap, log⟩ := by
  rw [resizeBlock_eq hv hneed]
  split
  · exact ⟨_, rfl⟩
  · have hrun : shrink x.offset x.size need size s =
        .ok () ⟨s.heap, s.log.push (.shrunk x.offset size)⟩ := by
      rw [shrink, get_bind, if_neg (by omega)]
      rfl
    rw [if_pos (by omega)]
    exact ⟨_, bind_ok hrun⟩

variable (hused : x.free = false) (hsize : s.heap.arena.size ≤ maxTagged)
  (hserves : s.heap.layout.Serves size need)

include hused hsize hserves

theorem resizeBlock_cut (hrest : need + s.heap.layout.minBlock ≤ x.size) :
    ∃ h' log v', resizeBlock (.ofHeader x.offset) size s =
        .ok (some (.ofHeader x.offset)) ⟨h', log⟩ ∧
      s.heap.Resized h' x size (Span.used (lo ++ hi)) v' ⟨x.offset, need, false⟩ := by
  obtain ⟨hlo, hhi⟩ := hv.separated.sides
  have hmin : 16 ≤ s.heap.layout.minBlock := s.heap.valid.four_words_le
  obtain ⟨right, post, hn⟩ := Span.exists_around_cut hlo hhi x.offset need
  obtain ⟨h', log, hrun, hv', he, -⟩ :=
    shrink_cut size hv hused hsize hserves.admits hrest hn
  refine ⟨h', log, _, ?_, hv', ⟨rfl, need, hserves, le_refl _, ?_⟩, ?_,
    he.mono Set.subset_union_left, fun i hi hi' => he.keeps.byte_eq _ (.inr ?_)⟩
  · rw [resizeBlock_eq hv hneed, if_neg (by omega), if_pos (by omega)]
    exact bind_ok hrun
  · simp only
    omega
  · have hpost : Span.used post = Span.used hi := by
      rw [hn.hi_eq, Span.used_append, Span.used_toList hn.right_free, List.nil_append]
    simp only [Span.used_append, hpost]
    simp [Span.used, Span.merged]
  · have := hserves.le
    rw [Span.mem_inner, Span.stop]
    simp only
    omega

theorem resizeBlock_grow (hn : Span.Around lo hi pre left (some y) post) (hlt : x.size < need)
    (hle : need ≤ x.size + y.size) :
    ∃ h' log v' z, resizeBlock (.ofHeader x.offset) size s =
        .ok (some (.ofHeader z.offset)) ⟨h', log⟩ ∧
      s.heap.Resized h' x size (Span.used (lo ++ hi)) v' z := by
  have hmy : y ∈ lo ++ [x] ++ hi := by simp [hn.hi_eq]
  have hfree := hn.right_free y rfl
  have hroom := hv.roomAbove?_eq need hn
  rw [Option.bind_some, if_pos hle] at hroom
  obtain ⟨before, after, rfl⟩ := List.append_of_mem ((hv.mem_ring_iff hmy).2 hfree)
  have hc : s.heap.Carvable lo [x] y post before after := by
    refine ⟨?_, by simpa using hused⟩
    have := hv
    simpa [hn.hi_eq] using this
  obtain ⟨h', log, hrun, hv', he, -⟩ := carveBlock_spec hc hsize rfl
    (show _ = x.size + y.size by simp) hserves.admits hle
  have hhi : Span.used hi = Span.used post := by
    simp [hn.hi_eq, Span.used, hfree]
  have htaken := Span.suits_taken s.heap.valid hserves hle x
  refine ⟨h', log.push (.grewInto x.offset size y.offset), _,
    Span.taken s.heap.layout x (x.size + y.size) need, ?_, hv', htaken, ?_, ?_, fun i hi hi' => ?_⟩
  · rw [resizeBlock_eq hv hneed, if_neg (by omega), if_neg (by omega), bind_ok (ask_ok hroom)]
    exact (bind_ok hrun).trans rfl
  · simp only [Span.used_append, Span.used_carved, hhi]
    simp
  · refine he.mono (Set.subset_union_of_subset_left (safe_mono ?_) _)
    simp [hhi]
  · have := hserves.le
    refine he.keeps.byte_eq (x.offset + 4 + i) (.inr ?_)
    rw [Span.mem_inner, Span.stop]
    simp only
    omega

end Cases

/-- **A request to resize is served**, in place or elsewhere, or refused. -/
theorem resizeBlock_spec (hv : s.heap.Sound v) (hsize : s.heap.arena.size ≤ maxTagged)
    (hpos : size ≠ 0) (hx : (Span.used v.spans).Perm (x :: rest)) :
    Answers (resizeBlock (.ofHeader x.offset) size) s fun r h' =>
      ∃ v' y, r = some (.ofHeader y.offset) ∧ s.heap.Resized h' x size rest v' y := by
  rcases blockSize_cases size s with ⟨need, hserves, hmax, hneed⟩ | ⟨-, hrefused⟩
  · obtain ⟨lo, hi, hspans, hused, hrest⟩ := Span.exists_of_used hx
    have hv₀ : s.heap.Sound ⟨lo ++ [x] ++ hi, v.ring⟩ := by rwa [← hspans]
    by_cases hle : need ≤ x.size
    · by_cases hlt : x.size < need + s.heap.layout.minBlock
      · obtain ⟨log, hrun⟩ := resizeBlock_keep hv₀ hneed hle hlt
        exact .inl ⟨_, _, log, hrun, v, x, rfl, hv, ⟨hused, need, hserves, hle, hlt⟩, hx,
          .refl hsize _, fun _ _ _ => rfl⟩
      · obtain ⟨h', log, v', hrun, hr⟩ :=
          resizeBlock_cut hv₀ hneed hused hsize hserves (Nat.not_lt.1 hlt)
        exact .inl ⟨_, h', log, hrun, v', ⟨x.offset, need, false⟩, rfl, hr.perm hrest⟩
    · obtain ⟨hlo, hhi⟩ := hv₀.separated.sides
      obtain ⟨pre, left, right, post, hn⟩ := Span.exists_around hlo hhi
      have hroom := hv₀.roomAbove?_eq need hn
      by_cases hgrow : ∃ y, right = some y ∧ need ≤ x.size + y.size
      · obtain ⟨y, rfl, hgrow⟩ := hgrow
        obtain ⟨h', log, v', z, hrun, hr⟩ :=
          resizeBlock_grow hv₀ hneed hused hsize hserves hn (Nat.not_le.1 hle) hgrow
        exact .inl ⟨_, h', log, hrun, v', z, rfl, hr.perm hrest⟩
      · have hnone : roomAbove? x.offset x.size need s.heap = .ok none := by
          rw [hroom, Option.bind_eq_none_iff.2 fun y hy => if_neg fun hle => hgrow ⟨y, hy, hle⟩]
        rw [Answers, resizeBlock_eq hv₀ hneed, if_neg (by omega), if_neg (by omega),
          bind_ok (ask_ok hnone)]
        exact moveBlock_spec hv hsize hpos hx
  · refine .inr ⟨size, s.heap, s.log, ?_, .refl _⟩
    rw [resizeBlock, bind_error hrefused]

end TaggedHeap
