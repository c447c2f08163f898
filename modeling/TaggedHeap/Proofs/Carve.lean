import TaggedHeap.Proofs.Merge

/-!
# Carving free blocks

A stretch that can be carved consists of blocks in use and a free block on top of them
(`Heap.Carvable`).  `Heap.Carvable.carve` says that carving it leaves a block in use and, if it
is large enough to be a block, a remainder that takes the place of the free block in the list.
No byte of the stretch changes but the tags of the new blocks and the links of the remainder.
-/

namespace TaggedHeap

namespace Span

/-- What `need` of `total` bytes are carved into: a block in use, and the remainder if it is
large enough to be a block. -/
def carved (l : Layout) (x : Span) (total need : Nat) : List Span :=
  if l.minBlock ≤ total - need then
    [⟨x.offset, need, false⟩, ⟨x.offset + need, total - need, true⟩]
  else [⟨x.offset, total, false⟩]

/-- The block in use that is carved. -/
def taken (l : Layout) (x : Span) (total need : Nat) : Span :=
  ⟨x.offset, if l.minBlock ≤ total - need then need else total, false⟩

section Taken

variable {l : Layout} {x y : Span} {total need i : Nat}

@[simp] theorem used_carved (l : Layout) (x : Span) (total need : Nat) :
    used (carved l x total need) = [taken l x total need] := by
  rw [carved, taken]
  split <;> rfl

theorem taken_mem_carved (l : Layout) (x : Span) (total need : Nat) :
    taken l x total need ∈ carved l x total need :=
  (mem_used.1 (used_carved l x total need ▸ List.mem_singleton_self _)).1

variable (hle : need ≤ total) (hi : i ∈ (Span.mk x.offset need false).inner)

include hle hi

theorem inner_subset_taken : i ∈ (taken l x total need).bytes := by
  rw [mem_inner, stop] at hi
  rw [mem_bytes, stop, taken]
  split <;> simp only at hi ⊢ <;> omega

/-- No tag of the new blocks lies among the bytes asked for. -/
theorem inner_disjoint_carved (hy : y ∈ carved l x total need) : i ∉ y.tagBytes := by
  intro hiy
  simp only [mem_inner, tagBytes, stop, Set.mem_union, Set.mem_Ico] at hi hiy
  rw [carved] at hy
  split at hy
  · rcases List.mem_pair.1 hy with rfl | rfl <;> simp only at hiy <;> omega
  · rw [List.mem_singleton.1 hy] at hiy
    simp only at hiy
    omega

end Taken

/-- Blocks may be replaced by others that are free at no other end. -/
theorem Separated.replace {pre mid mid' post : List Span} (h : Separated (pre ++ mid ++ post))
    (hmid' : Separated mid') (hne : mid' ≠ [])
    (hhead : ∀ y ∈ mid'.head?, y.free → ∃ z ∈ mid.head?, z.free)
    (hlast : ∀ y ∈ mid'.getLast?, y.free → ∃ z ∈ mid.getLast?, z.free) :
    Separated (pre ++ mid' ++ post) := by
  obtain ⟨hpre, hpost, happ⟩ := List.isChain_append.1 h
  obtain ⟨hpre, hmid, happ'⟩ := List.isChain_append.1 hpre
  refine List.isChain_append.2 ⟨List.isChain_append.2 ⟨hpre, hmid', fun x hx y hy hxy => ?_⟩,
    hpost, fun x hx y hy hxy => ?_⟩
  · obtain ⟨z, hz, hfree⟩ := hhead y hy hxy.2
    exact happ' x hx z hz ⟨hxy.1, hfree⟩
  · rw [List.getLast?_append_of_ne_nil _ hne] at hx
    obtain ⟨z, hz, hfree⟩ := hlast x hx hxy.1
    refine happ z ?_ y hy ⟨hfree, hxy.2⟩
    rw [List.getLast?_append, hz]
    rfl

end Span

namespace Heap

variable {h : Heap} {pre low mid' post : List Span} {node x : Span} {before after : List Nat}
  {need : Nat}

/-- What the stretch to be carved consists of: blocks in use, and a listed one on top. -/
structure Carvable (h : Heap) (pre low : List Span) (node : Span) (post : List Span)
    (before after : List Nat) : Prop where
  /-- The heap is sound. -/
  sound : h.Sound ⟨pre ++ (low ++ [node]) ++ post, before ++ node.offset :: after⟩
  /-- All blocks but the last one are in use. -/
  used : ∀ y ∈ low, y.free = false

namespace Carvable

theorem free (hc : h.Carvable pre low node post before after) : node.free :=
  (hc.sound.mem_ring_iff (by simp)).1 (by simp)

theorem fresh (hc : h.Carvable pre low node post before after) {y : Span}
    (hy : y ∈ low ++ [node]) : y.offset ∉ before ++ after := by
  intro hmem
  rcases List.mem_append.1 hy with hlow | hnode
  · have hring : y.offset ∈ before ++ node.offset :: after := by
      simp only [List.mem_append, List.mem_cons] at hmem ⊢
      tauto
    have hfree := (hc.sound.mem_ring_iff (by simp [hlow])).1 hring
    exact absurd hfree (by simp [hc.used y hlow])
  · have hnodup := hc.sound.holds.ring_nodup
    rw [List.mem_singleton.1 hnode] at hmem
    exact (List.nodup_middle.1 hnodup |> List.nodup_cons.1).1 hmem

/-- The remainder, if there is one, takes the place of the block that was free. -/
theorem sound_carved (hc : h.Carvable pre low node post before after) {mid' : List Span}
    {total : Nat} {a : Arena} (hmid' : mid' = Span.carved h.layout x total need)
    (hv : { h with arena := a : Heap }.Holds
      ⟨pre ++ mid' ++ post, before ++ Span.freeHeaders mid' ++ after⟩) :
    { h with arena := a, top := h.lastOf (pre ++ mid' ++ post) }.Sound
      ⟨pre ++ mid' ++ post, before ++ Span.freeHeaders mid' ++ after⟩ := by
  refine hv.sound (hc.sound.separated.replace ?_ ?_ ?_ ?_) ?_
  · rw [hmid', Span.carved]
    split
    · exact .cons_cons (by simp) (.singleton _)
    · exact .singleton _
  · rw [hmid', Span.carved]
    split <;> simp
  · rw [hmid', Span.carved]
    split <;> simp
  · exact fun _ _ _ => ⟨node, by simp, hc.free⟩
  · have hlow : Span.freeHeaders low = [] := by
      rw [Span.freeHeaders, List.filter_eq_nil_iff.2 fun y hy => by simp [hc.used y hy]]
      rfl
    have hnode : Span.freeHeaders [node] = [node.offset] := by
      simp [Span.freeHeaders, hc.free]
    have hlist := hc.sound.listed
    rw [Span.freeHeaders_append, Span.freeHeaders_append, Span.freeHeaders_append, hlow, hnode,
      List.perm_iff_count] at hlist
    rw [Span.freeHeaders_append, Span.freeHeaders_append, List.perm_iff_count]
    intro n
    have := hlist n
    simp only [List.count_append, List.count_cons, List.count_nil] at this ⊢
    omega

theorem not_listed_of_mem_area (hc : h.Carvable pre low node post before after) {n : Nat}
    (hn : n ∈ Span.area (low ++ [node])) : n ∉ before ++ after := fun hmem => by
  have hv := hc.sound.holds
  obtain ⟨y, hy, rfl⟩ := List.mem_map.1 (hv.headers.subset
    ((List.Sublist.append_left (List.sublist_cons_self _ _) _).subset hmem))
  have hmy := mem_chain_of_mem (h := h) hy
  have hby := hv.bounds hmy
  obtain ⟨z, hz, hiz⟩ := hn
  have hmz : z ∈ pre ++ (low ++ [node]) ++ post :=
    List.mem_append_left _ (List.mem_append_right _ hz)
  have hyz := hv.eq_of_mem_bytes hmy (mem_chain_of_mem hmz)
    (Span.mem_bytes.2 (by rw [Span.stop]; omega)) hiz
  exact hc.fresh (hyz ▸ hz) hmem

theorem moveTop_eq (hc : h.Carvable pre low node post before after) {m : Span}
    (hm : mid'.getLast? = some m) (a : Arena) :
    { h with arena := a : Heap }.moveTop node.offset m.offset =
      { h with arena := a, top := h.lastOf (pre ++ mid' ++ post) } := by
  exact Heap.moveTop_eq (h := { h with arena := a })
    (show (low ++ [node]).getLast? = some node by simp) hm
    hc.sound.top_eq hc.sound.holds.nodup_offsets

section Cases

variable {total : Nat} (hc : h.Carvable pre low node post before after)
  (hsize : h.arena.size ≤ maxTagged) (hx : (low ++ [node]).head? = some x)
  (htotal : Span.totalSize (low ++ [node]) = total)

include hc hsize hx htotal

theorem carve_split (hneed : h.layout.Admits need) (hrest : need + h.layout.minBlock ≤ total) :
    ∃ a, h.carve x.offset total need node.offset = .ok (.split (x.offset + need) (total - need),
        { h with
          arena := a
          top := h.lastOf
            (pre ++ [⟨x.offset, need, false⟩, ⟨x.offset + need, total - need, true⟩] ++ post) }) ∧
      h.arena.Edit a (h.ringBytes (before ++ (x.offset + need) :: after) ∪
        ((Span.mk x.offset need false).tagBytes ∪
          (Span.mk (x.offset + need) (total - need) true).tagBytes)) ∧
      { h with arena := a : Heap }.Holds
        ⟨pre ++ [⟨x.offset, need, false⟩, ⟨x.offset + need, total - need, true⟩] ++ post,
          before ++ (x.offset + need) :: after⟩ := by
  have hv := hc.sound.holds
  obtain ⟨xs, y, z, zs, hy, hz, hprev, hnext⟩ := hv.neighbours
  obtain ⟨start, stop, hmid, hstop⟩ := hv.tiles_mid
  have hcov := Span.covers_two (l := h.layout) false true hx hneed (htotal ▸ hrest)
  rw [htotal] at hcov
  obtain ⟨rfl, -, -, hadm, rfl⟩ := hcov _ _ hmid
  have h16 := hneed.le h.valid
  have heven := hneed.mod_eight h.valid
  have hrest16 : 16 ≤ total - need := hadm.le h.valid
  have hrest_even : (total - need) % 8 = 0 := hadm.mod_eight h.valid
  simp only [Span.stop] at hstop hmid
  obtain ⟨a₁, a₂, h₁, h₂, hedit₂, htag₁, htag₂⟩ := setTags_pair_spec (h := h) x.offset
    need total (by omega) (by omega) (by omega) (by omega) (by omega) (by omega)
  have hsub : (Span.mk x.offset need false).tagBytes ∪
      (Span.mk (x.offset + need) (total - need) true).tagBytes ⊆ Span.area (low ++ [node]) :=
    fun i hi => hmid.mem_area.2 (by
      simp only [Span.tagBytes, Span.stop, Set.mem_union, Set.mem_Ico] at hi
      omega)
  have hfresh : x.offset + need ∉ before ++ after :=
    hc.not_listed_of_mem_area (hmid.mem_area.2 (by omega))
  obtain ⟨b, c, hb, hc', hedit, hv'⟩ := hv.relink (r := x.offset + need) hsize
    hedit₂ hsub (fun z hz => hc.fresh hz) hcov (by simpa using ⟨htag₁, htag₂⟩)
    (by simp) hfresh hy hz
  refine ⟨c, ?_, ?_, hv'⟩
  · simp only [Heap.carve, hprev, hnext, ok_bind, Address.sub_of_le (show need ≤ total by omega),
      if_pos (show h.layout.minBlock ≤ total - need by omega), h₁,
      Arena.add_of_le (a := h.arena) (show x.offset + need ≤ _ by omega), h₂, hb, hc', pure_eq_ok]
    exact congrArg _ (congrArg _ (hc.moveTop_eq (m := ⟨x.offset + need, _, true⟩) rfl c))
  · rw [Set.union_comm]
    exact hedit₂.trans hedit

theorem carve_whole (hle : need ≤ total) (hrest : total < need + h.layout.minBlock) :
    ∃ a, h.carve x.offset total need node.offset = .ok (.whole,
        { h with arena := a, top := h.lastOf (pre ++ [⟨x.offset, total, false⟩] ++ post) }) ∧
      h.arena.Edit a (h.ringBytes (before ++ after) ∪ (Span.mk x.offset total false).tagBytes) ∧
      { h with arena := a : Heap }.Holds
        ⟨pre ++ [⟨x.offset, total, false⟩] ++ post, before ++ after⟩ := by
  have hv := hc.sound.holds
  obtain ⟨-, y, z, -, -, -, hprev, hnext⟩ := hv.neighbours
  obtain ⟨start, stop, hmid, hstop⟩ := hv.tiles_mid
  have hcov := Span.covers_one (l := h.layout) false hx
  rw [htotal] at hcov
  obtain ⟨rfl, hadm, rfl⟩ := hcov _ _ hmid
  have h16 : 16 ≤ total := hadm.le h.valid
  have heven : total % 8 = 0 := hadm.mod_eight h.valid
  simp only [Span.stop] at hstop hmid
  obtain ⟨a₁, h₁, hedit₁, hv₁⟩ := hv.unlink hsize
  obtain ⟨a₂, h₂, hedit₂, htag₂⟩ := setTags_spec (h := { h with arena := a₁ })
    x.offset total true (show 8 ≤ total by omega) (by omega) (by omega)
    (by rw [hedit₁.size_eq]; omega)
  have hv' := hv₁.retile hedit₂ (fun i hi => hmid.mem_area.2
    (Span.tagBytes_subset (show 8 ≤ total by omega) hi)) (fun y hy => hc.fresh hy) hcov
    (by simpa using htag₂)
  simp only [Heap.unlink, hprev, hnext, ok_bind] at h₁
  refine ⟨a₂, ?_, hedit₁.trans hedit₂, hv'⟩
  simp only [Heap.carve, hprev, hnext, ok_bind, Address.sub_of_le hle,
    if_neg (show ¬ h.layout.minBlock ≤ total - need by omega), h₁, h₂, pure_eq_ok]
  exact congrArg _ (congrArg _ (hc.moveTop_eq (m := ⟨x.offset, _, false⟩) rfl a₂))

/-- **Carving a stretch** puts a block in use at its start. -/
theorem carve (hneed : h.layout.Admits need) (hle : need ≤ total) :
    ∃ a result, h.carve x.offset total need node.offset = .ok (result, { h with
        arena := a, top := h.lastOf (pre ++ Span.carved h.layout x total need ++ post) }) ∧
      h.arena.Edit a
        (h.ringBytes (before ++ Span.freeHeaders (Span.carved h.layout x total need) ++ after) ∪
          {i | ∃ y ∈ Span.carved h.layout x total need, i ∈ y.tagBytes}) ∧
      { h with
        arena := a
        top := h.lastOf (pre ++ Span.carved h.layout x total need ++ post) }.Sound
        ⟨pre ++ Span.carved h.layout x total need ++ post,
          before ++ Span.freeHeaders (Span.carved h.layout x total need) ++ after⟩ := by
  by_cases hrest : h.layout.minBlock ≤ total - need
  · obtain ⟨a, ha, hedit, hv⟩ :=
      hc.carve_split hsize hx htotal hneed (Nat.add_comm _ _ ▸ Nat.add_le_of_le_sub hle hrest)
    have hring : before ++ Span.freeHeaders (Span.carved h.layout x total need) ++ after =
        before ++ (x.offset + need) :: after := by
      simp [Span.carved, if_pos hrest, Span.freeHeaders]
    refine ⟨a, _, by rw [ha, Span.carved, if_pos hrest], hedit.mono ?_, hc.sound_carved rfl ?_⟩
    · rw [hring, Span.carved, if_pos hrest]
      exact Set.union_subset_union_right _ (Set.union_subset (fun i hi => ⟨_, by simp, hi⟩)
        fun i hi => ⟨_, by simp, hi⟩)
    · rw [hring, Span.carved, if_pos hrest]
      exact hv
  · obtain ⟨a, ha, hedit, hv⟩ := hc.carve_whole hsize hx htotal hle (by omega)
    have hring : before ++ Span.freeHeaders (Span.carved h.layout x total need) ++ after =
        before ++ after := by
      simp [Span.carved, if_neg hrest, Span.freeHeaders]
    refine ⟨a, _, by rw [ha, Span.carved, if_neg hrest], hedit.mono ?_, hc.sound_carved rfl ?_⟩
    · rw [hring, Span.carved, if_neg hrest]
      exact Set.union_subset_union_right _ fun i hi => ⟨_, by simp, hi⟩
    · rw [hring, Span.carved, if_neg hrest]
      exact hv

end Cases

end Carvable

end Heap

end TaggedHeap
