import TaggedHeap.Heap.Prologue
import TaggedHeap.Proofs.Growth

/-!
# A heap that has just been built

Building a heap answers an error or a sound heap without blocks, and leaves the arena in front
of it as it was (`Heap.create_built`).  The heap is `Placed`: its first payload would be
aligned, and so is every other one, because sizes of blocks are multiples of the alignment.
-/

namespace TaggedHeap

namespace Heap

variable {h : Heap}

/-- The heap lies in its arena as it was built. -/
structure Placed (h : Heap) : Prop where
  /-- The arena is not larger than a heap may become. -/
  size_le : h.arena.size ≤ maxTagged
  /-- The payload of the head sentinel is aligned. -/
  aligned : (h.head + 4) % h.layout.alignment = 0

theorem tagSentinels_spec (hsize : h.arena.size = h.firstBlock + 4)
    (hcap : h.arena.size ≤ maxTagged) :
    ∃ a b, h.setTags h.head h.layout.minBlock true = .ok { h with arena := a } ∧
      { h with arena := a : Heap }.setTags h.tail h.layout.minBlock true =
        .ok { h with arena := b } ∧
      h.arena.Edit b (Set.Ico h.head h.firstBlock) ∧
      Span.Tile h.layout h.head (h.chain []) (b.size - 4) ∧ ∀ x ∈ h.chain [], b.Tagged x := by
  have hadm := h.valid.admits_minBlock
  have h16 := hadm.le h.valid
  have heven := hadm.mod_eight h.valid
  have htail : h.tail = h.head + h.layout.minBlock := rfl
  have hfirst : h.firstBlock = h.tail + h.layout.minBlock := rfl
  obtain ⟨a, ha, hedit, htag⟩ := setTags_spec (h := h) h.head
    h.layout.minBlock true (by omega) (by omega) (by omega) (by omega)
  obtain ⟨b, hb, hedit', htag'⟩ := setTags_spec (h := { h with arena := a }) h.tail
    h.layout.minBlock true (by omega) (by omega) (by omega) (by rw [hedit.size_eq]; omega)
  have hkeep : b.Tagged ⟨h.head, h.layout.minBlock, false⟩ := htag.edit hedit' fun i hi hi' => by
    simp only [Span.tagBytes, Span.stop, Set.mem_union, Set.mem_Ico] at hi hi'
    omega
  refine ⟨a, b, ha, hb, (hedit.trans hedit').mono ?_, ⟨rfl, hadm, rfl, hadm, ?_⟩, ?_⟩
  · intro i hi
    simp only [Span.tagBytes, Span.stop, Set.mem_union, Set.mem_Ico] at hi ⊢
    omega
  · rw [hedit'.size_eq, hedit.size_eq, hsize]
    exact (show h.tail + h.layout.minBlock = h.firstBlock + 4 - 4 by omega)
  · simpa [chain, sentinels] using ⟨hkeep, htag'⟩

theorem linkSentinels_spec (hcap : h.arena.size ≤ maxTagged)
    (htiles : Span.Tile h.layout h.head (h.chain []) (h.arena.size - 4))
    (htags : ∀ x ∈ h.chain [], h.arena.Tagged x) :
    ∃ a b c, h.splice h.head h.tail = .ok { h with arena := a } ∧
      { h with arena := a : Heap }.clearLink h.head .prev = .ok { h with arena := b } ∧
      { h with arena := b : Heap }.clearLink h.tail .next = .ok { h with arena := c } ∧
      h.arena.Edit c (h.ringBytes []) ∧ { h with arena := c : Heap }.Holds ⟨[], []⟩ := by
  have hspaced : h.arena.Spaced (h.nodes []) := spaced_of_tile htiles List.nil_subperm
  have hmh := h.head_mem_nodes []
  have hmt := h.tail_mem_nodes []
  have hne : h.head ≠ h.tail := by have := h.head_lt_tail; omega
  obtain ⟨a, ha, hedit₁, hthr⟩ := splice_spec hcap
    (show h.arena.Spaced ([] ++ h.head :: h.tail :: []) from hspaced)
    (List.IsChain.singleton _) (List.IsChain.singleton _)
  obtain ⟨b, hb, hedit₂, hprev⟩ := clearLink_spec (h := { h with arena := a }) .prev
    (x := h.head) (hedit₁.size_eq ▸ hspaced.inside h.head hmh)
  obtain ⟨c, hc, hedit₃, hnext⟩ := clearLink_spec (h := { h with arena := b }) .next
    (x := h.tail) ((hedit₁.trans hedit₂).size_eq ▸ hspaced.inside h.tail hmt)
  -- the outer links are not the ones between the sentinels
  have hthr' : c.Threads (h.nodes []) := by
    refine Arena.Threads.of_link?_eq hthr (fun z hz => (hedit₂.trans hedit₃).link?_eq ?_)
      fun z hz => (hedit₂.trans hedit₃).link?_eq ?_
    · obtain rfl : z = h.head := by simpa [nodes] using hz
      rintro i hi (hi' | hi')
      · exact hspaced.linkBytes_disjoint hmh hmh (.inr (by decide)) i hi hi'
      · exact hspaced.linkBytes_disjoint hmh hmt (.inl hne) i hi hi'
    · obtain rfl : z = h.tail := by simpa [nodes] using hz
      rintro i hi (hi' | hi')
      · exact hspaced.linkBytes_disjoint hmt hmh (.inl hne.symm) i hi hi'
      · exact hspaced.linkBytes_disjoint hmt hmt (.inr (by decide)) i hi hi'
  have hprev' : c.link? h.head .prev = none :=
    (hedit₃.link?_eq (hspaced.linkBytes_disjoint hmh hmt (.inl hne))).trans hprev
  have hedit : h.arena.Edit c (h.ringBytes []) :=
    (hedit₁.trans (hedit₂.trans hedit₃)).mono (Set.union_subset
      (Set.union_subset (linkBytes_subset_ringBytes hmh .next)
        (linkBytes_subset_ringBytes hmt .prev))
      (Set.union_subset (linkBytes_subset_ringBytes hmh .prev)
        (linkBytes_subset_ringBytes hmt .next)))
  exact ⟨a, b, c, ha, hb, hc, hedit,
    holds_of_links htiles htags List.nil_subperm hedit le_rfl hthr' ⟨hprev', hnext⟩⟩

/-- **The sentinels make a heap** of the room that they fill. -/
theorem writeSentinels_spec (hsize : h.arena.size = h.firstBlock + 4)
    (hcap : h.arena.size ≤ maxTagged) (htop : h.top = h.tail) :
    ∃ a, h.writeSentinels = .ok { h with arena := a } ∧
      h.arena.Edit a (Set.Ico h.head h.firstBlock) ∧
      { h with arena := a : Heap }.Sound ⟨[], []⟩ := by
  have h16 := h.valid.admits_minBlock.le h.valid
  have htail : h.tail = h.head + h.layout.minBlock := rfl
  have hfirst : h.firstBlock = h.tail + h.layout.minBlock := rfl
  obtain ⟨a₁, a₂, h₁, h₂, hedit, htiles, htags⟩ := tagSentinels_spec hsize hcap
  obtain ⟨a₃, a₄, a₅, h₃, h₄, h₅, hedit', hv⟩ := linkSentinels_spec (h := { h with arena := a₂ })
    (hedit.size_eq ▸ hcap) htiles htags
  refine ⟨a₅, ?_, (hedit.trans hedit').mono (Set.union_subset subset_rfl ?_), ?_⟩
  · rw [writeSentinels, h₁, ok_bind]
    exact (bind_of_ok h₂).trans ((bind_of_ok h₃).trans ((bind_of_ok h₄).trans h₅))
  · rintro i ⟨x, (hx : x ∈ h.nodes []), hi⟩
    obtain rfl | rfl : x = h.head ∨ x = h.tail := by simpa [nodes] using hx
    all_goals
      rw [Set.mem_Ico]
      omega
  · rw [show ({ h with arena := a₅ } : Heap) = { h with arena := a₅, top := h.tail } by rw [← htop]]
    exact hv.sound .nil .nil

/-- What `create` answers for an arena that it is given. -/
def Built (arena : Arena) (layout : Layout) (r : Except Stop Heap) : Prop :=
  (∃ e, r = .error (.failed e)) ∨
    ∃ h, r = .ok h ∧ h.layout = layout ∧ h.Sound ⟨[], []⟩ ∧ h.Placed ∧ arena.size ≤ h.head ∧
      arena.Keeps h.arena {i | i < arena.size}

/-- **What building a heap comes to**, once all offsets are calculated.  They depend on nothing but
the layout and the size of the arena. -/
theorem createValid_eq (layout : Layout) (valid : layout.Valid) {size : Nat}
    (hspace : size ≤ maxContiguous) : ∃ head bytes, layout.alignment ≤ head + 4 ∧
      layout.RoundsTo size (head + 4 - layout.alignment) ∧
      size + bytes = head + 2 * layout.minBlock + 4 ∧
      ∀ arena : Arena, arena.size = size → ∀ exactLinks,
        createValid layout valid arena exactLinks =
          if maxTagged < size + bytes then .error (.failed (.outOfMemory bytes))
          else match Arena.grow bytes arena with
          | .error e _ => .error e
          | .ok _ arena => Stop.ofFault
            { arena, layout, valid, head, top := head + layout.minBlock,
              exactLinks : Heap }.writeSentinels := by
  have h8 : 8 ≤ layout.alignment := valid.two_words_le
  have hle := valid.alignment_le
  have h16 : 16 ≤ layout.minBlock := valid.four_words_le
  have hmax : layout.minBlock ≤ maxTagged := valid.minBlock_le
  simp only [maxTagged, maxContiguous] at hmax hspace
  obtain ⟨aligned, haligned, hrounds⟩ := valid.roundUp_eq
    (show size + layout.alignment < Address.space by rw [Address.space]; omega)
  have hlow := hrounds.le
  have hhigh := hrounds.lt
  -- the arena is far smaller than the address space
  have hadd : ∀ {m n}, m + n < 2 ^ 64 → Address.add m n = .ok (m + n) := Address.add_of_lt
  obtain ⟨head, hhead⟩ : ∃ head, head + 4 = aligned + layout.alignment :=
    ⟨aligned + layout.alignment - 4, by omega⟩
  have hsub : Address.sub (aligned + layout.alignment) wordBytes = .ok head :=
    (Address.sub_of_le (show 4 ≤ _ by omega)).trans
      (congrArg _ (show aligned + layout.alignment - 4 = head by omega))
  refine ⟨head, aligned - size + layout.prologueBytes, by omega, ?_, ?_, ?_⟩
  · rwa [hhead, Nat.add_sub_cancel]
  · rw [Layout.prologueBytes]
    omega
  rintro arena rfl exactLinks
  simp only [createValid, haligned, ofFault_ok, ok_bind, Address.sub_of_le hlow,
    hadd (m := aligned - arena.size) (n := layout.prologueBytes)
      (by rw [Layout.prologueBytes]; omega)]
  by_cases hcap : maxTagged < arena.size + (aligned - arena.size + layout.prologueBytes)
  · rw [if_pos hcap, if_pos hcap]
    rfl
  rw [if_neg hcap, if_neg hcap]
  rcases Arena.grow_cases (Nat.not_lt.1 hcap) with ⟨source, fits, hgrow, -⟩ | ⟨source, m, hgrow, -⟩
  · have hbase : Address.add arena.size (aligned - arena.size) = .ok aligned := by
      rw [hadd (by omega), Nat.add_sub_of_le hlow]
    simp only [hgrow, hbase, hadd (m := aligned) (n := layout.alignment) (by omega), hsub,
      hadd (m := head) (n := layout.minBlock) (by omega), ofFault_ok, ok_bind]
  · simp only [hgrow]
    rfl

theorem writeSentinels_append {layout : Layout} (valid : layout.Valid) {arena : Arena}
    (source : Source) {head bytes : Nat} (fits : arena.size + bytes ≤ maxContiguous)
    (htotal : arena.size + bytes = head + 2 * layout.minBlock + 4)
    (hcap : arena.size + bytes ≤ maxTagged) (exactLinks : Bool) :
    ∃ a, writeSentinels ⟨arena.append bytes source fits, layout, valid, head,
          head + layout.minBlock, exactLinks⟩ =
        .ok ⟨a, layout, valid, head, head + layout.minBlock, exactLinks⟩ ∧
      Sound ⟨a, layout, valid, head, head + layout.minBlock, exactLinks⟩ ⟨[], []⟩ ∧
      a.size = arena.size + bytes ∧ a.source = source ∧
      (arena.append bytes source fits).Keeps a {i | i < head} := by
  have hsize : (arena.append bytes source fits).size = _ := arena.size_append fits
  obtain ⟨a, ha, hedit, hv⟩ := writeSentinels_spec (h := ⟨arena.append _ source fits, layout,
    valid, head, head + layout.minBlock, exactLinks⟩)
    (by simp only [firstBlock, tail, hsize]; omega) (by simp only [hsize]; omega) rfl
  refine ⟨a, ha, hv, hedit.size_eq.trans hsize, hedit.source_eq, hedit.keeps.mono ?_⟩
  exact fun i hi hi' => absurd hi (Nat.not_lt.2 hi'.1)

theorem createValid_built (layout : Layout) (valid : layout.Valid) (arena : Arena)
    (exactLinks : Bool) : Built arena layout (createValid layout valid arena exactLinks) := by
  obtain ⟨head, bytes, hle, hrounds, htotal, hcreate⟩ :=
    createValid_eq layout valid (show arena.size ≤ maxContiguous from arena.size_le)
  have h8 : 8 ≤ layout.alignment := valid.two_words_le
  have hlow : arena.size ≤ head := by
    have := hrounds.le
    omega
  rw [hcreate arena rfl]
  by_cases hcap : maxTagged < arena.size + bytes
  · rw [if_pos hcap]
    exact .inl ⟨_, rfl⟩
  rw [if_neg hcap]
  rw [Nat.not_lt] at hcap
  rcases Arena.grow_cases hcap with ⟨source, fits, hgrow, -⟩ | ⟨source, m, hgrow, -⟩
  · obtain ⟨a, ha, hv, hsize, -, hkeeps⟩ :=
      writeSentinels_append valid source fits htotal hcap exactLinks
    simp only [hgrow, ha, ofFault_ok]
    have haligned := (Nat.mod_eq_sub_mod hle).trans hrounds.mod_eq
    exact .inr ⟨_, rfl, rfl, hv, ⟨hsize.trans_le hcap, haligned⟩, hlow,
      (Arena.append_keeps fits).trans (hkeeps.mono fun i hi => hi.trans_le hlow)⟩
  · simp only [hgrow]
    exact .inl ⟨_, rfl⟩

theorem create_cases (layout : Layout) :
    (∃ flaw, ∀ arena exactLinks,
      create layout arena exactLinks = .error (.failed (.invalidLayout flaw))) ∨
    ∃ valid, ∀ arena exactLinks,
      create layout arena exactLinks = createValid layout valid arena exactLinks := by
  cases hflaw : layout.flaw? with
  | some flaw =>
    refine .inl ⟨flaw, fun arena exactLinks => ?_⟩
    unfold create
    split
    · rename_i hflaw'
      rw [Option.some.inj (hflaw.symm.trans hflaw')]
    · rename_i hflaw'
      cases hflaw.symm.trans hflaw'
  | none =>
    refine .inr ⟨Layout.flaw?_eq_none_iff.1 hflaw, fun arena exactLinks => ?_⟩
    unfold create
    split
    · rename_i hflaw'
      cases hflaw.symm.trans hflaw'
    · rfl

/-- **Building a heap** answers an error or a sound heap without blocks. -/
theorem create_built (layout : Layout) (arena : Arena) (exactLinks : Bool) :
    Built arena layout (create layout arena exactLinks) := by
  rcases create_cases layout with ⟨flaw, hflaw⟩ | ⟨valid, hcreate⟩
  · exact .inl ⟨_, hflaw arena exactLinks⟩
  · rw [hcreate]
    exact createValid_built layout valid arena exactLinks

end Heap

end TaggedHeap
