import TaggedHeap.Proofs.Audit
import TaggedHeap.Proofs.Uniqueness

/-!
# Damage to a single word

The metadata of a heap are the two tags of each block and the two links of each block of the list,
sentinels included (`Heap.MetadataAt`).  If a heap passes the audit and one of these words is
overwritten by any other word, it does not pass any more (`Heap.check_overwritten`), whatever its
payloads are made of.

Suppose it still passed.  Then it would hold a view again.

* A header that changes leaves all footers, and these determine the blocks.  So the blocks are
  what they were, and the header no longer agrees with its footer.  The same goes for a footer,
  with the headers in its place.
* A link forward that changes leaves all links back, and these determine the list.  So the list
  is what it was, and determines the link that changed.  The same goes for a link back.
-/

namespace TaggedHeap

namespace Heap

variable {h : Heap} {v v' : View} {b : Arena} {pos : Nat}

/-- The words of a heap that are not payload, when it holds the view. -/
inductive MetadataAt (h : Heap) (v : View) : Nat → Prop
  /-- The header of a sentinel or a block. -/
  | header {x : Span} (hx : x ∈ h.chain v.spans) : MetadataAt h v x.offset
  /-- The footer of a sentinel or a block. -/
  | footer {x : Span} (hx : x ∈ h.chain v.spans) : MetadataAt h v (x.stop - 4)
  /-- A link of a sentinel or a free block. -/
  | link {n : Nat} (hn : n ∈ h.nodes v.ring) (l : Link) : MetadataAt h v (n + l.slot)

theorem Holds.metadata_le (hv : h.Holds v) (hpos : h.MetadataAt v pos) :
    pos + 4 ≤ h.arena.size := by
  cases hpos with
  | header hx =>
    have hb := hv.bounds hx
    omega
  | footer hx =>
    have hb := hv.bounds hx
    rw [Span.stop]
    omega
  | link hn l =>
    have hb := hv.spaced.inside _ hn
    cases l <;> simp only [Link.slot_next, Link.slot_prev] <;> omega

/-! ### Tags -/

theorem Holds.tags_disjoint (hv : h.Holds v) {x y : Span} (hx : x ∈ h.chain v.spans)
    (hy : y ∈ h.chain v.spans) {i : Nat} (hi : i ∈ Set.Ico x.offset (x.offset + 4)) :
    i ∉ Set.Ico (y.stop - 4) (y.stop - 4 + 4) := by
  have hbx := hv.bounds hx
  have hby := hv.bounds hy
  have hxy := hv.tiles.eq_or_le hx hy
  simp only [Set.mem_Ico, Span.stop] at hi hxy ⊢
  rcases hxy with rfl | hxy
  · omega
  · omega

/-- A heap whose header changed holds no view: the footers lead to the same blocks, and one of
them disagrees with its header. -/
theorem Sound.header_overwritten (hv : h.Sound v) {x : Span} (hx : x ∈ h.chain v.spans)
    (hedit : h.arena.Edit b (Set.Ico x.offset (x.offset + 4)))
    (hv' : { h with arena := b : Heap }.Sound v') : b.peek x.offset = h.arena.peek x.offset := by
  have hfooters : ∀ y ∈ h.chain v.spans, b.tagAt (y.stop - 4) = h.arena.tagAt (y.stop - 4) :=
    fun y hy => hedit.keeps.tagAt_eq fun i hi hi' => hv.holds.tags_disjoint hx hy hi' hi
  have htiles := hv'.tiles
  rw [hedit.size_eq] at htiles
  have hchain := hv.tiles.eq_of_footers h.valid htiles hv.tagged hv'.tagged hfooters
  have hfoot := (hv'.tagged x (hchain ▸ hx)).footer_eq
  rw [hfooters x hx, (hv.tagged x hx).footer_eq] at hfoot
  exact (congrArg Tag.raw hfoot).symm

theorem Sound.footer_overwritten (hv : h.Sound v) {x : Span} (hx : x ∈ h.chain v.spans)
    (hedit : h.arena.Edit b (Set.Ico (x.stop - 4) (x.stop - 4 + 4)))
    (hv' : { h with arena := b : Heap }.Sound v') :
    b.peek (x.stop - 4) = h.arena.peek (x.stop - 4) := by
  have hheaders : ∀ y ∈ h.chain v.spans, b.tagAt y.offset = h.arena.tagAt y.offset :=
    fun y hy => hedit.keeps.tagAt_eq fun i hi hi' => hv.holds.tags_disjoint hy hx hi hi'
  have htiles := hv'.tiles
  rw [hedit.size_eq] at htiles
  have hchain := hv.tiles.eq_of_headers h.valid htiles hv.tagged hv'.tagged hheaders
  have hfoot := (hv'.tagged x (hchain ▸ hx)).footer_eq
  rw [hheaders x hx, ← (hv.tagged x hx).footer_eq] at hfoot
  exact congrArg Tag.raw hfoot

/-! ### Links -/

theorem Sound.spans_eq_of_link (hv : h.Sound v) {n : Nat} (hn : n ∈ h.nodes v.ring) {l : Link}
    (hedit : h.arena.Edit b (Arena.linkBytes n l))
    (hv' : { h with arena := b : Heap }.Sound v') : v.spans = v'.spans := by
  have hheaders : ∀ y ∈ h.chain v.spans, b.tagAt y.offset = h.arena.tagAt y.offset := by
    intro y hy
    refine hedit.keeps.tagAt_eq fun i hi hi' => ?_
    exact tagBytes_disjoint_of_tile hv.tiles hv.holds.headers.subset hy (.inl hi)
      (linkBytes_subset_ringBytes hn l hi')
  have htiles := hv'.tiles
  rw [hedit.size_eq] at htiles
  exact List.append_cancel_left
    (hv.tiles.eq_of_headers h.valid htiles hv.tagged hv'.tagged hheaders)

/-- A heap one of whose links changed holds no view: the links in the other direction lead along
the same list, which has only one link in this place. -/
theorem Sound.link_overwritten (hv : h.Sound v) {n : Nat} (hn : n ∈ h.nodes v.ring) {l : Link}
    (hedit : h.arena.Edit b (Arena.linkBytes n l))
    (hv' : { h with arena := b : Heap }.Sound v') :
    b.peek (n + l.slot) = h.arena.peek (n + l.slot) := by
  have hother : ∀ m, ∀ k ≠ l, m ∈ h.nodes v.ring → b.link? m k = h.arena.link? m k :=
    fun m k hk hm => hedit.link?_eq
      (hv.holds.spaced.linkBytes_disjoint hm hn (.inr hk))
  have hring : v.ring = v'.ring := by
    cases l with
    | next =>
      refine hv.threads.eq_of_prev hv'.threads hv.holds.head_not_mem hv'.holds.head_not_mem ?_
      exact fun m hm => hother m _ (by decide) (List.mem_cons_of_mem _ hm)
    | prev =>
      refine hv.threads.eq_of_next hv'.threads hv.holds.tail_not_mem hv'.holds.tail_not_mem ?_
      intro m hm
      refine hother m _ (by decide) ?_
      rw [nodes, ← List.cons_append]
      exact List.mem_append_left _ hm
  have hview : v = v' := by
    have hspans := hv.spans_eq_of_link hn hedit hv'
    cases v
    cases v'
    simp_all
  subst hview
  exact Arena.peek_eq_of_link? (hv.holds.link?_eq hv'.holds rfl rfl hn l)

/-! ### The audit -/

theorem stop_eq_of_concludeAudit {xs : List Span} {stop : Nat} {r : Report}
    (hpass : h.concludeAudit xs stop = .ok r) : stop + 4 = h.arena.size := by
  rw [concludeAudit] at hpass
  obtain ⟨_, hsum, hpass⟩ := exists_of_bind_ok hpass
  obtain ⟨-, rfl⟩ := Address.add_eq_ok_iff.1 (ofFault_eq_ok hsum)
  by_contra hne
  rw [if_pos hne] at hpass
  cases hpass

theorem firstBlock_le_of_check {r : Report} (hcheck : h.check = .ok r) :
    h.firstBlock + 4 ≤ h.arena.size := by
  rw [check, audit] at hcheck
  split at hcheck
  · cases hcheck
  · split at hcheck
    · cases hcheck
    · rename_i hwalk
      have hle := (tile_of_checkChain hwalk).le
      have hstop := stop_eq_of_concludeAudit hcheck
      omega

theorem Sound.metadata_overwritten (hv : h.Sound v) (hpos : h.MetadataAt v pos)
    (hedit : h.arena.Edit b (Set.Ico pos (pos + 4)))
    (hv' : { h with arena := b : Heap }.Sound v') : b.peek pos = h.arena.peek pos := by
  cases hpos with
  | header hx => exact hv.header_overwritten hx hedit hv'
  | footer hx => exact hv.footer_overwritten hx hedit hv'
  | link hn l => exact hv.link_overwritten hn hedit hv'

/-- **Damage to any one word of the metadata is found.**  Once a heap has passed the audit, each
word of a tag or a link that is overwritten by another one makes the audit report damage. -/
theorem check_overwritten (h : Heap) (r : Report) (hcheck : h.check = .ok r) :
    ∃ v, h.Sound v ∧ h.blocks = .ok (v.spans.map h.blockOf) ∧
      (∃ xs : List Span, xs.map Span.offset = v.ring ∧ h.freeBlocks = .ok (xs.map h.blockOf)) ∧
      ∀ pos, h.MetadataAt v pos → ∃ old, h.arena.word pos = .ok old ∧
        ∀ w, w ≠ old → ∃ h', h.setWord pos w = .ok h' ∧
          ∃ offset damage, h'.check = .error (.failed (.corrupted offset damage)) := by
  have hroom := firstBlock_le_of_check hcheck
  obtain ⟨v, hv, -⟩ := (h.check_judges hroom |>.ok_iff r).1 hcheck
  obtain ⟨xs, hperm, hring⟩ := hv.exists_listing
  refine ⟨v, hv, hv.holds.blocks_eq hv.top_eq, ⟨xs, hring, hv.freeBlocks_eq hperm hring⟩, ?_⟩
  intro pos hpos
  have hle := hv.holds.metadata_le hpos
  refine ⟨_, Arena.word_of_le hle, fun w hw => ?_⟩
  obtain ⟨b, hset, hedit, hpeek⟩ := setWord_spec w hle
  have hj := { h with arena := b : Heap }.check_judges (hedit.size_eq ▸ hroom)
  refine ⟨_, hset, ?_⟩
  cases hverdict : { h with arena := b : Heap }.check with
  | ok r' =>
    obtain ⟨v', hv', -⟩ := (hj.ok_iff r').1 hverdict
    exact absurd (hpeek.symm.trans (hv.metadata_overwritten hpos hedit hv')) hw
  | error e =>
    obtain ⟨offset, damage, rfl⟩ := hj.damage e hverdict
    exact ⟨offset, damage, rfl⟩

/-- Two blocks in use in an arena of 28 words.  The payload of the first one, at offset 44, reads
like the footer of a block of 16 bytes and the header of one of 32 bytes above it. -/
def ofForgedChain : Heap where
  arena.bytes := (List.flatMap Word.toBytes [0, 0, 0, 17, 4, 0, 17, 17, 0, 0xfffffffc, 17, 49, 0, 0,
    17, 33, 0, 0, 0, 0, 0, 0, 49, 17, 0, 0, 17, 0]).toArray
  arena.source := .buffer 112
  layout := {}
  valid := Layout.valid_default
  head := 12
  top := 92

theorem check_overwritten_ofForgedChain :
    ofForgedChain.check = .ok ⟨2, 0, 0, 64, 112⟩ ∧
      ∃ h', ofForgedChain.setWord 44 17 = .ok h' ∧
        ∃ offset damage, h'.check = .error (.failed (.corrupted offset damage)) := by
  have hcheck : ofForgedChain.check = .ok ⟨2, 0, 0, 64, 112⟩ := by decide +kernel
  have hblocks : ofForgedChain.blocks = .ok [⟨44, 48, .used⟩, ⟨92, 16, .used⟩] := by
    decide +kernel
  have hword : ofForgedChain.arena.word 44 = .ok 49 := by decide +kernel
  obtain ⟨v, -, hlisted, -, hfound⟩ := check_overwritten ofForgedChain _ hcheck
  -- the first of the two blocks is one of the blocks that the heap holds
  have hmem : ⟨44, 48, .used⟩ ∈ v.spans.map ofForgedChain.blockOf := by
    rw [Except.ok.inj (hlisted.symm.trans hblocks)]
    simp
  obtain ⟨x, hx, hxblock⟩ := List.mem_map.1 hmem
  have hoffset : x.offset = 44 := congrArg Block.offset hxblock
  obtain ⟨old, hold, hother⟩ := hfound 44 (hoffset ▸ .header (mem_chain_of_mem hx))
  have hne : (17 : UInt32) ≠ old := by
    rw [← Except.ok.inj (hword.symm.trans hold)]
    decide
  exact ⟨hcheck, hother 17 hne⟩

end Heap

end TaggedHeap
