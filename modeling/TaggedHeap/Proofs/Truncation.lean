import Mathlib.Tactic.MkIffOfInductiveProp
import TaggedHeap.Proofs.Contract

/-!
# Auditing an arena that was cut

Whatever becomes of the arena behind the back of a heap, the audit should name some damage at
worst.  It reads a header only once it knows that the header lies inside the arena, and the footer
of a block likewise.  The footer of a sentinel it reads without looking: an arena that ends between
an intact header of a sentinel and its footer (`Heap.CutShort`) makes the audit fault.

That is the only way (`Heap.check_faults_iff`), for every size and all bytes of the arena.
-/

namespace TaggedHeap

namespace Heap

variable {h : Heap} {block : Nat}

/-- The arena ends between the header of the sentinel at `block`, which is intact, and its
footer. -/
@[mk_iff]
structure CutShort (h : Heap) (block : Nat) : Prop where
  /-- The header lies inside the arena. -/
  header_le : block + 4 ≤ h.arena.size
  /-- It has the size of a sentinel. -/
  size_eq : (h.arena.tagAt block).size = h.layout.minBlock
  /-- It is in use. -/
  free_eq : (h.arena.tagAt block).isFree = false
  /-- The footer does not lie inside the arena. -/
  lt_footer : h.arena.size < block + h.layout.minBlock

instance (h : Heap) (block : Nat) : Decidable (h.CutShort block) :=
  decidable_of_iff' _ (cutShort_iff h block)

/-! ### Reading beyond the end -/

theorem tag_of_lt {pos : Nat} (hlt : h.arena.size < pos + 4) (hspace : pos + 4 < Address.space) :
    h.tag pos = .error .outOfBounds := by
  have hle : ¬ pos + 4 ≤ h.arena.size := Nat.not_le.2 hlt
  rw [tag, Arena.word, Address.add_of_lt hspace, ok_bind, if_neg hle]
  rfl

theorem checkedTag_of_lt (hlt : h.arena.size < block + 4) (hspace : block + 4 < Address.space) :
    h.checkedTag block = Damage.tagOutside.found block := by
  rw [checkedTag, Address.add_of_lt hspace, ofFault_ok, ok_bind, if_pos hlt]
  rfl

/-! ### Sentinels -/

/-- The footer of a sentinel that is cut short is read all the same. -/
theorem checkSentinel_of_cutShort (hcut : h.CutShort block) :
    h.checkSentinel block = .error (.fault .outOfBounds) := by
  have h16 : 16 ≤ h.layout.minBlock := h.valid.four_words_le
  have hmax : h.layout.minBlock ≤ maxTagged := h.valid.minBlock_le
  have heven := h.valid.admits_minBlock.mod_eight h.valid
  have hsize : h.arena.size ≤ maxContiguous := h.arena.size_le
  have hheader := hcut.header_le
  have hlt := hcut.lt_footer
  simp only [maxTagged, maxContiguous] at hmax hsize
  have hspace : block + h.layout.minBlock < Address.space := by
    rw [Address.space]
    omega
  have hfooter : footerOf block h.layout.minBlock = .ok (block + h.layout.minBlock - 4) := by
    rw [footerOf, Address.add_of_lt hspace, ok_bind]
    exact Address.sub_of_le (show 4 ≤ block + h.layout.minBlock by omega)
  obtain ⟨t, hpack, hsizeₜ, hfree⟩ := Tag.pack_spec true (by omega) h.valid.minBlock_le
  have heq : h.arena.tagAt block = t :=
    Tag.ext_size_isFree (hcut.size_eq.trans hsizeₜ.symm) (hcut.free_eq.trans hfree.symm)
  rw [checkSentinel, checkedTag_of_le hheader, ok_bind, hpack, ofFault_ok, ok_bind, heq, hsizeₜ,
    hfooter, ofFault_ok, ok_bind, tag_of_lt (by omega) (by omega), if_neg (not_not.2 rfl)]
  rfl

theorem checkSentinel_judges_of_whole (hspace : block + 4 < Address.space)
    (hwhole : ¬ h.CutShort block) : Judges (h.checkSentinel block) fun _ =>
      block + h.layout.minBlock ≤ h.arena.size ∧
        h.arena.Tagged ⟨block, h.layout.minBlock, false⟩ := by
  by_cases hle : block + h.layout.minBlock ≤ h.arena.size
  · exact (checkSentinel_judges hle).congr fun _ => (and_iff_right hle).symm
  have heven := h.valid.admits_minBlock.mod_eight h.valid
  obtain ⟨t, hpack, hsize, hfree⟩ := Tag.pack_spec true (by omega) h.valid.minBlock_le
  rw [checkSentinel]
  by_cases hin : block + 4 ≤ h.arena.size
  · rw [checkedTag_of_le hin, ok_bind, hpack, ofFault_ok, ok_bind]
    refine .guard (fun _ _ hpass => hle hpass.1) fun heq => absurd ?_ hwhole
    rw [not_not] at heq
    exact ⟨hin, heq ▸ hsize, heq ▸ hfree, Nat.not_le.1 hle⟩
  · rw [checkedTag_of_lt (Nat.not_le.1 hin) hspace]
    exact .found fun _ hpass => hle hpass.1

/-! ### The whole audit -/

section Whole

variable (hspace : h.firstBlock + 4 < Address.space) (hhead : ¬ h.CutShort h.head)
  (htail : h.arena.Tagged ⟨h.head, h.layout.minBlock, false⟩ → ¬ h.CutShort h.tail)

include hspace hhead htail

theorem beginAudit_judges_of_whole : Judges h.beginAudit fun first =>
    h.firstBlock ≤ h.arena.size ∧ (h.arena.Tagged ⟨h.head, h.layout.minBlock, false⟩ ∧
      h.arena.Tagged ⟨h.tail, h.layout.minBlock, false⟩) ∧
      first = if h.tail = h.top then none else some h.firstBlock := by
  have hlt := h.head_lt_tail
  have hstop : h.firstBlock = h.tail + h.layout.minBlock := rfl
  rw [beginAudit]
  have hfirst : Judges (h.checkSentinel h.head) _ :=
    checkSentinel_judges_of_whole (by omega) hhead
  refine (hfirst.bind (R := fun _ first => ∃ _ : Unit, (h.firstBlock ≤ h.arena.size ∧
    h.arena.Tagged ⟨h.tail, h.layout.minBlock, false⟩) ∧
      first = if h.tail = h.top then none else some h.firstBlock) fun _ hh => ?_).congr
        fun first => ?_
  · have hsecond : Judges (h.checkSentinel h.tail) _ :=
      checkSentinel_judges_of_whole (by omega) (htail hh.2)
    refine hsecond.bind fun _ ht => ?_
    rw [nextBlock?_tail ht.1 ht.2]
    exact .pass rfl fun _ he => he
  · constructor
    · rintro ⟨_, ⟨-, hh⟩, _, ⟨hle, ht⟩, he⟩
      exact ⟨hle, ⟨hh, ht⟩, he⟩
    · rintro ⟨hle, ⟨hh, ht⟩, he⟩
      exact ⟨(), ⟨by rw [tail] at hstop; omega, hh⟩, (), ⟨hle, ht⟩, he⟩

/-- An arena that ends with the sentinels, or before, passes as none of them. -/
theorem check_judges_of_short (hshort : h.arena.size < h.firstBlock + 4) :
    Judges h.check fun _ => False := by
  rw [check_eq]
  refine ((beginAudit_judges_of_whole hspace hhead htail).bind (R := fun _ _ => False)
    fun first hfirst => ?_).congr fun _ => by simp
  obtain ⟨hle, -, rfl⟩ := hfirst
  split
  · -- there are no blocks, but the last word is missing
    have hne : h.firstBlock + 4 ≠ h.arena.size := by omega
    have hchain : passed (h.checkChain (h.arena.size + 1) none h.firstBlock false) =
        .ok ([], h.firstBlock) := by rw [checkChain]; rfl
    rw [hchain, ok_bind, concludeAudit, Address.add_of_lt hspace, ofFault_ok, ok_bind, if_pos hne]
    exact .found fun _ h => h
  · -- the header of the first block is missing
    have hblock : h.checkBlock h.firstBlock h.firstBlock false =
        Damage.tagOutside.found h.firstBlock := by
      rw [checkBlock, if_neg (not_not.2 rfl), checkedTag_of_lt hshort hspace]
      rfl
    rw [checkChain, hblock]
    exact .found fun _ h => h

theorem check_judges_of_whole : Judges h.check fun r =>
    h.firstBlock + 4 ≤ h.arena.size ∧ ∃ v, h.Sound v ∧ r = h.reportOf v.spans := by
  by_cases hroom : h.firstBlock + 4 ≤ h.arena.size
  · exact (h.check_judges hroom).congr fun _ => (and_iff_right hroom).symm
  · exact (check_judges_of_short hspace hhead htail (Nat.not_le.1 hroom)).congr fun _ => by
      simp [hroom]

end Whole

theorem check_of_cutShort_head (hcut : h.CutShort h.head) :
    h.check = .error (.fault .outOfBounds) := by
  rw [check_eq, beginAudit, checkSentinel_of_cutShort hcut]
  rfl

theorem check_of_cutShort_tail (hhead : h.arena.Tagged ⟨h.head, h.layout.minBlock, false⟩)
    (hcut : h.CutShort h.tail) : h.check = .error (.fault .outOfBounds) := by
  have hle : h.head + h.layout.minBlock ≤ h.arena.size := by
    have := hcut.header_le
    rw [tail] at this
    omega
  rw [check_eq, beginAudit, ((checkSentinel_judges hle).ok_iff ()).2 hhead, ok_bind,
    checkSentinel_of_cutShort hcut]
  rfl

/-- The heap after somebody else has replaced its arena, and its topmost block. -/
def meddled (h : Heap) (arena : Arena) (top : Nat) : Heap := { h with arena, top }

/-- **The audit faults only where the arena ends inside a sentinel**, between an intact header and
its footer.  Otherwise a heap that was built passes or is found damaged, whatever its arena and its
topmost block have become. -/
theorem check_faults_iff {layout : Layout} {arena : Arena} {exactLinks : Bool}
    (hcreate : create layout arena exactLinks = .ok h) (b : Arena) (top : Nat) :
    ((∃ r, (h.meddled b top).check = .ok r) ∨
      (∃ offset damage, (h.meddled b top).check = .error (.failed (.corrupted offset damage))) ∨
      (h.meddled b top).check = .error (.fault .outOfBounds)) ∧
    ((h.meddled b top).check = .error (.fault .outOfBounds) ↔
      (h.meddled b top).CutShort h.head ∨
        b.Tagged ⟨h.head, h.layout.minBlock, false⟩ ∧ (h.meddled b top).CutShort h.tail) := by
  have hspace : h.firstBlock + 4 < Address.space := by
    rcases create_built layout arena exactLinks with ⟨e, he⟩ | ⟨h', hh', -, hv, hplaced, -⟩
    · cases hcreate.symm.trans he
    · cases hcreate.symm.trans hh'
      have hle := hplaced.size_le
      have htotals := hv.totals
      simp only [maxTagged] at hle
      rw [Address.space]
      omega
  by_cases hcut : (h.meddled b top).CutShort h.head ∨
      b.Tagged ⟨h.head, h.layout.minBlock, false⟩ ∧ (h.meddled b top).CutShort h.tail
  · have hfault : (h.meddled b top).check = .error (.fault .outOfBounds) := by
      rcases hcut with hhead | ⟨hhead, htail⟩
      · exact check_of_cutShort_head hhead
      · exact check_of_cutShort_tail hhead htail
    exact ⟨.inr (.inr hfault), iff_of_true hfault hcut⟩
  · have hj := check_judges_of_whole (h := h.meddled b top) hspace (fun hhead => hcut (.inl hhead))
      fun hhead htail => hcut (.inr ⟨hhead, htail⟩)
    cases hcheck : (h.meddled b top).check with
    | ok r => exact ⟨.inl ⟨r, rfl⟩, iff_of_false (by simp) hcut⟩
    | error e =>
      obtain ⟨offset, damage, rfl⟩ := hj.damage e hcheck
      exact ⟨.inr (.inl ⟨offset, damage, rfl⟩), iff_of_false (by simp) hcut⟩

/-- In a new heap, whose tail sentinel has its tags at 28 and 40: an arena that ends with the first
of them makes the audit fault, one that ends before it does not. -/
theorem check_faults_iff_ofCutTail : ∃ h : Heap, create {} .ofLimit = .ok h ∧
    (h.meddled (h.arena.truncate 40) h.top).check = .error (.fault .outOfBounds) ∧
    (h.meddled (h.arena.truncate 28) h.top).check ≠ .error (.fault .outOfBounds) := by
  have hsees : (create {} .ofLimit).toOption.any (fun h =>
      (((h.arena.truncate 40).tagAt h.head).size = h.layout.minBlock ∧
        ((h.arena.truncate 40).tagAt h.head).isFree = false ∧
        (h.arena.truncate 40).tagAt (h.head + h.layout.minBlock - 4) =
          (h.arena.truncate 40).tagAt h.head) ∧
      (h.meddled (h.arena.truncate 40) h.top).CutShort h.tail ∧
      ¬ (h.meddled (h.arena.truncate 28) h.top).CutShort h.head ∧
      ¬ (h.meddled (h.arena.truncate 28) h.top).CutShort h.tail) := by decide +kernel
  obtain ⟨h, hcreate, hsees⟩ := (Option.any_eq_true _ _).1 hsees
  obtain ⟨⟨hsize, hfree, hfooter⟩, htail, hhead', htail'⟩ := of_decide_eq_true hsees
  replace hcreate := Client.ok_of_toOption hcreate
  refine ⟨h, hcreate, (check_faults_iff hcreate (h.arena.truncate 40) h.top).2.2
    (.inr ⟨⟨hsize, hfree, hfooter⟩, htail⟩), fun hfault => ?_⟩
  rcases (check_faults_iff hcreate (h.arena.truncate 28) h.top).2.1 hfault with hcut | ⟨-, hcut⟩
  · exact hhead' hcut
  · exact htail' hcut

/-- The audit of a new heap faults once its arena is cut to 24 bytes, inside the head sentinel. -/
theorem check_faults_ofCutHead : ∃ h : Heap, create {} .ofLimit = .ok h ∧
    (h.meddled (h.arena.truncate 24) h.top).check = .error (.fault .outOfBounds) := by
  have hsees : (create {} .ofLimit).toOption.any (fun h =>
      (h.meddled (h.arena.truncate 24) h.top).check = .error (.fault .outOfBounds)) := by
    decide +kernel
  obtain ⟨h, hcreate, hfault⟩ := (Option.any_eq_true _ _).1 hsees
  exact ⟨h, Client.ok_of_toOption hcreate, of_decide_eq_true hfault⟩

end Heap

end TaggedHeap
