import TaggedHeap.Proofs.Ring
import TaggedHeap.Proofs.Tiling

/-!
# Words that are read back

Two kinds of words in an arena are the heap's own: links, which hold the distance to another
header, and tags, which hold a size and a flag.  Either fits in 32 bits, as long as the arena is not
larger than a heap may become.  So what is stored is what is read afterwards, however far apart
headers lie and however large a block is, and nothing else changes (`Heap.words_read_back`).
-/

namespace TaggedHeap

namespace Heap

open Arena

variable {h : Heap}

theorem setLink_reads {x y : Nat} {l : Link} (hx : x + l.slot + 4 ≤ h.arena.size)
    (hsize : h.arena.size ≤ maxTagged) (hy : y ≤ h.arena.size) (hmod : x % 4 = y % 4)
    (hne : x ≠ y) : ∃ b, h.setLink x l y = .ok { h with arena := b } ∧
      { h with arena := b : Heap }.neighbour? x l = .ok (some y) ∧
      { h with arena := b : Heap }.neighbour x l = .ok y ∧ h.arena.Edit b (linkBytes x l) := by
  obtain ⟨b, hb, hedit, hlink⟩ := setLink_of_slot_le hx hsize hy hmod hne
  have hx' : x + l.slot + 4 ≤ b.size := hedit.size_eq ▸ hx
  refine ⟨b, hb, ?_, neighbour_of_slot_le (h := { h with arena := b }) hx' hlink, hedit⟩
  rw [neighbour?_of_slot_le (h := { h with arena := b }) hx', hlink]

-- the longest distances
example : Link.resolve 0 (Link.encode 0 0xffff_fffc) = 0xffff_fffc := by decide

example : Link.resolve 0xffff_fffc (Link.encode 0xffff_fffc 0) = 0 := by decide

theorem setTags_reads {block size : Nat} (used : Bool) (hle : 8 ≤ size) (heven : size % 2 = 0)
    (hmax : size ≤ maxTagged) (hin : block + size ≤ h.arena.size) :
    ∃ b t footer, h.setTags block size used = .ok { h with arena := b } ∧
      { h with arena := b : Heap }.tag block = .ok t ∧ t.size = size ∧ t.isUsed = used ∧
      footerOf block t.size = .ok footer ∧ { h with arena := b : Heap }.tag footer = .ok t ∧
      h.arena.Edit b (Set.Ico block (block + 4) ∪ Set.Ico footer (footer + 4)) := by
  obtain ⟨b, hb, hedit, htagged⟩ := setTags_spec (h := h) block size used hle heven hmax hin
  have hsize := hedit.size_eq
  have htagSize : (b.tagAt block).size = size := htagged.size_eq
  refine ⟨b, b.tagAt block, block + size - 4, hb, tag_of_le (show block + 4 ≤ b.size by omega),
    htagSize, ?_, ?_, ?_, hedit⟩
  · have hfree : (!(b.tagAt block).isUsed) = !used := htagged.free_eq
    simpa using hfree
  · rw [htagSize]
    exact footerOf_of_le (h := h) (x := ⟨block, size, !used⟩) hin
      (show 4 ≤ block + size by omega)
  · rw [tag_of_le (show block + size - 4 + 4 ≤ b.size by omega)]
    exact congrArg _ htagged.footer_eq

/-- **What a heap stores is what it reads.**  A link from one header to another that is a whole
number of words away leads there, in either direction and over any distance.  The tags of a block
say how large it is and whether it is in use.  Either is stored without changing any other byte. -/
theorem words_read_back (h : Heap) :
    (h.arena.size ≤ maxTagged → ∀ x y l, x ≠ y → x % 4 = y % 4 → y ≤ h.arena.size →
      x + l.slot + 4 ≤ h.arena.size → ∃ b, h.setLink x l y = .ok { h with arena := b } ∧
        { h with arena := b : Heap }.neighbour? x l = .ok (some y) ∧
        { h with arena := b : Heap }.neighbour x l = .ok y ∧ h.arena.Edit b (linkBytes x l)) ∧
    ∀ block size used, 8 ≤ size → size % 2 = 0 → size ≤ maxTagged →
      block + size ≤ h.arena.size → ∃ b t footer,
        h.setTags block size used = .ok { h with arena := b } ∧
        { h with arena := b : Heap }.tag block = .ok t ∧ t.size = size ∧ t.isUsed = used ∧
        footerOf block t.size = .ok footer ∧ { h with arena := b : Heap }.tag footer = .ok t ∧
        h.arena.Edit b (Set.Ico block (block + 4) ∪ Set.Ico footer (footer + 4)) :=
  ⟨fun hsize _ _ _ hne hmod hy hx => setLink_reads hx hsize hy hmod hne,
    fun _ _ used hle heven hmax hin => setTags_reads used hle heven hmax hin⟩

/-- A heap in an arena of 24 words, with blocks at offsets 44, 60 and 76.  The first and the last
are free, and listed in this order. -/
def ofThreeBlocks : Heap where
  arena.bytes := (List.flatMap Word.toBytes [0, 0, 0, 17, 8, 0, 17, 17, 0, 12, 17,
    16, 8, 0xfffffff8, 16, 17, 0, 0, 17, 16, 0xfffffff4, 0xfffffff8, 16, 0]).toArray
  arena.source := .buffer 96
  layout := {}
  valid := Layout.valid_default
  head := 12
  top := 76

theorem words_read_back_ofThreeBlocks :
    (∃ b, ofThreeBlocks.setLink 60 .prev 12 = .ok { ofThreeBlocks with arena := b } ∧
      { ofThreeBlocks with arena := b : Heap }.neighbour? 60 .prev = .ok (some 12)) ∧
    ∃ b t, ofThreeBlocks.setTags 44 48 true = .ok { ofThreeBlocks with arena := b } ∧
      { ofThreeBlocks with arena := b : Heap }.tag 44 = .ok t ∧ t.size = 48 ∧ t.isUsed = true := by
  obtain ⟨hlinks, htags⟩ := words_read_back ofThreeBlocks
  obtain ⟨b, hb, hread, -⟩ := hlinks (by decide) 60 12 .prev (by decide) (by decide) (by decide)
    (by decide)
  obtain ⟨c, t, -, hc, htag, hsize, hused, -⟩ := htags 44 48 true (by decide) (by decide)
    (by decide) (by decide)
  exact ⟨⟨b, hb, hread⟩, c, t, hc, htag, hsize, hused⟩

end Heap

end TaggedHeap
