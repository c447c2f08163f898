import TaggedHeap.Proofs.Audit
import TaggedHeap.Proofs.Disguise
import TaggedHeap.Proofs.Request
import TaggedHeap.Proofs.Uniqueness

/-!
# Heaps that differ in data only

Twins are heaps in the same place that hold the same blocks, in arenas of the same size that grow
from the same source (`Heap.Twins`).  The bytes of payloads, and those below the heaps, may be
anything.  Whatever a request looks up is the same in twins, and whatever it does to them makes
them twins again, so requests come to the same on both (`SessionM.Lockstep`).
-/

namespace TaggedHeap

namespace Heap

variable {h h' : Heap} {v : View} {x : Span} {a a' : Arena} {s s' : Set Nat}

/-- The heaps lie in the same place, and hold the same blocks. -/
structure Twins (h h' : Heap) : Prop where
  /-- The layouts are the same. -/
  layout_eq : h'.layout = h.layout
  /-- The heaps start at the same offset. -/
  head_eq : h'.head = h.head
  /-- The arenas are equally large. -/
  size_eq : h'.arena.size = h.arena.size
  /-- They are not larger than a heap may become. -/
  size_le : h.arena.size ≤ maxTagged
  /-- They grow from the same source. -/
  source_eq : h'.arena.source = h.arena.source
  /-- The blocks are the same, by address and in the list. -/
  sound : ∃ v, h.Sound v ∧ h'.Sound v

namespace Twins

theorem sound_right (ht : h.Twins h') (hv : h.Sound v) : h'.Sound v := by
  obtain ⟨v', hv', hsound⟩ := ht.sound
  exact hv.unique hv' ▸ hsound

theorem refl (ht : h.Twins h') : h.Twins h := by
  obtain ⟨v, hv, -⟩ := ht.sound
  exact ⟨rfl, rfl, rfl, ht.size_le, rfl, v, hv, hv⟩

theorem size_le_right (ht : h.Twins h') : h'.arena.size ≤ maxTagged :=
  ht.size_eq.trans_le ht.size_le

/-! ### What is looked up -/

theorem tag_eq (ht : h.Twins h') (hv : h.Sound v) (hx : x ∈ v.spans) :
    h'.tag x.offset = h.tag x.offset := by
  have hv' := ht.sound_right hv
  obtain ⟨t, htag, hsize, hfree⟩ := hv.holds.tag_eq (mem_chain_of_mem hx)
  obtain ⟨t', htag', hsize', hfree'⟩ := hv'.holds.tag_eq (mem_chain_of_mem hx)
  rw [htag, htag', Tag.ext_size_isFree (hsize'.trans hsize.symm) (hfree'.trans hfree.symm)]

theorem bestFit?_eq (ht : h.Twins h') (need : Nat) : h'.bestFit? need = h.bestFit? need := by
  obtain ⟨v, hv, hv'⟩ := ht.sound
  obtain ⟨xs, hperm, hring⟩ := hv.exists_listing
  rw [hv.bestFit?_eq need hperm hring, hv'.bestFit?_eq need hperm hring]

theorem roomAbove?_eq (ht : h.Twins h') (hv : h.Sound v) (hx : x ∈ v.spans) (need : Nat) :
    roomAbove? x.offset x.size need h' = roomAbove? x.offset x.size need h := by
  have hv' := ht.sound_right hv
  obtain ⟨lo, hi, ring, rfl⟩ := View.exists_split hx
  obtain ⟨hlo, hhi⟩ := hv.separated.sides
  obtain ⟨pre, left, right, post, hn⟩ := Span.exists_around hlo hhi
  rw [hv.roomAbove?_eq need hn, hv'.roomAbove?_eq need hn]

/-! ### What is seen -/

theorem top_eq (ht : h.Twins h') : h'.top = h.top := by
  obtain ⟨v, hv, hv'⟩ := ht.sound
  rw [hv.top_eq, hv'.top_eq, lastOf, lastOf, tail, tail, ht.head_eq, ht.layout_eq]

theorem blockOf_eq (ht : h.Twins h') (hv : h.Sound v) (hx : x ∈ v.spans) :
    h'.blockOf x = h.blockOf x := by
  have hv' := ht.sound_right hv
  cases hfree : x.free with
  | false => simp [blockOf, hfree]
  | true =>
    have hnode : x.offset ∈ h.nodes v.ring := by
      simp [nodes, (hv.mem_ring_iff hx).2 hfree]
    have hlink : ∀ l, h'.arena.link? x.offset l = h.arena.link? x.offset l :=
      hv.holds.link?_eq hv'.holds ht.layout_eq ht.head_eq hnode
    simp only [blockOf, hfree, hlink]

theorem blocks_eq (ht : h.Twins h') : h'.blocks = h.blocks := by
  obtain ⟨v, hv, hv'⟩ := ht.sound
  rw [hv.holds.blocks_eq hv.top_eq, hv'.holds.blocks_eq hv'.top_eq]
  exact congrArg _ (List.map_congr_left fun x hx => ht.blockOf_eq hv hx)

theorem freeBlocks_eq (ht : h.Twins h') : h'.freeBlocks = h.freeBlocks := by
  obtain ⟨v, hv, hv'⟩ := ht.sound
  obtain ⟨xs, hperm, hring⟩ := hv.exists_listing
  rw [hv.freeBlocks_eq hperm hring, hv'.freeBlocks_eq hperm hring]
  refine congrArg _ (List.map_congr_left fun x hx => ht.blockOf_eq hv ?_)
  exact List.mem_of_mem_filter (hperm.subset hx)

theorem check_eq (ht : h.Twins h') : h'.check = h.check := by
  obtain ⟨v, hv, hv'⟩ := ht.sound
  rw [hv.check_eq, hv'.check_eq, reportOf, reportOf, ht.size_eq]

theorem usableSize_eq (ht : h.Twins h') (hv : h.Sound v) (hx : x ∈ v.spans) :
    h'.usableSize x.pointer = h.usableSize x.pointer :=
  ((ht.sound_right hv).holds.usableSize_eq (mem_chain_of_mem hx)).trans
    (hv.holds.usableSize_eq (mem_chain_of_mem hx)).symm

/-! ### What is changed -/

/-- Payloads may differ. -/
theorem edit_inner (ht : h.Twins h') (hv : h.Sound v) (hx : x ∈ Span.used v.spans)
    (hedit : h.arena.Edit a s) (hs : s ⊆ x.inner) (hedit' : h'.arena.Edit a' s')
    (hs' : s' ⊆ x.inner) : Twins { h with arena := a } { h' with arena := a' } := by
  obtain ⟨hmem, hused⟩ := Span.mem_used.1 hx
  exact ⟨ht.layout_eq, ht.head_eq, hedit'.size_eq.trans (ht.size_eq.trans hedit.size_eq.symm),
    hedit.size_eq.trans_le ht.size_le,
    hedit'.source_eq.trans (ht.source_eq.trans hedit.source_eq.symm),
    v, hv.edit_inner hmem hused hedit hs, (ht.sound_right hv).edit_inner hmem hused hedit' hs'⟩

theorem with_source (ht : h.Twins h') (source : Source) :
    Twins { h with arena := { h.arena with source } }
      { h' with arena := { h'.arena with source } } := by
  obtain ⟨v, hv, hv'⟩ := ht.sound
  exact ⟨ht.layout_eq, ht.head_eq, ht.size_eq, ht.size_le, rfl, v, hv.with_source source,
    hv'.with_source source⟩

end Twins

end Heap

namespace SessionM

variable {α β : Type} {s t : Session}

/-- Both computations answer the same, or the same error, and leave twins behind. -/
def Lockstep (act act' : SessionM α) (s t : Session) : Prop :=
  (∃ a s' t', act s = .ok a s' ∧ act' t = .ok a t' ∧ s'.heap.Twins t'.heap) ∨
    ∃ e s' t', act s = .error (.failed e) s' ∧ act' t = .error (.failed e) t' ∧
      s'.heap.Twins t'.heap

namespace Lockstep

variable {act act' : SessionM α} {f f' : α → SessionM β}

theorem bind (h : Lockstep act act' s t) (hf : ∀ a s' t', act s = .ok a s' →
    s'.heap.Twins t'.heap → Lockstep (f a) (f' a) s' t') :
    Lockstep (act >>= f) (act' >>= f') s t := by
  rcases h with ⟨a, s', t', hrun, hrun', ht⟩ | ⟨e, s', t', hrun, hrun', ht⟩
  · rw [Lockstep, bind_ok hrun, bind_ok hrun']
    exact hf a s' t' hrun ht
  · exact .inr ⟨e, s', t', bind_error hrun, bind_error hrun', ht⟩

theorem ask_bind {query : Heap → Except Fault α} {a : α} (h : query s.heap = .ok a)
    (hsame : query t.heap = query s.heap) (hf : Lockstep (f a) (f' a) s t) :
    Lockstep (ask query >>= f) (ask query >>= f') s t := by
  rw [Lockstep, bind_ok (ask_ok h), bind_ok (ask_ok (hsame.trans h))]
  exact hf

theorem calculate_bind {result : Except Fault α} {a : α} (h : result = .ok a)
    (hf : Lockstep (f a) (f' a) s t) :
    Lockstep (calculate result >>= f) (calculate result >>= f') s t :=
  .ask_bind h rfl hf

theorem of_get {f f' : Session → SessionM β} (h : Lockstep (f s) (f' t) s t) :
    Lockstep (get >>= f) (get >>= f') s t := h

theorem noteError {record : HeapError → Record} (h : Lockstep act act' s t) :
    Lockstep (noteError act record) (noteError act' record) s t := by
  rcases h with ⟨a, s', t', hrun, hrun', ht⟩ | ⟨e, s', t', hrun, hrun', ht⟩
  · exact .inl ⟨a, s', t', noteError_ok hrun, noteError_ok hrun', ht⟩
  · exact .inr ⟨e, _, _, noteError_failed hrun, noteError_failed hrun', ht⟩

variable (ht : s.heap.Twins t.heap)

include ht

theorem pure (a : α) : Lockstep (Pure.pure a) (Pure.pure a) s t := .inl ⟨a, s, t, rfl, rfl, ht⟩

theorem fail (e : HeapError) : Lockstep (SessionM.fail e : SessionM α) (SessionM.fail e) s t :=
  .inr ⟨e, s, t, rfl, rfl, ht⟩

theorem note (r : Record) : Lockstep (note r) (note r) s t := .inl ⟨(), _, _, rfl, rfl, ht⟩

/-- Whatever is written in the payload of a block in use. -/
theorem alter_inner {v : View} {x : Span} {b b' : Arena} {i j : Set Nat}
    {change change' : Heap → Except Fault Heap}
    (hv : s.heap.Sound v) (hx : x ∈ Span.used v.spans)
    (h : change s.heap = .ok { s.heap with arena := b }) (hedit : s.heap.arena.Edit b i)
    (hi : i ⊆ x.inner) (h' : change' t.heap = .ok { t.heap with arena := b' })
    (hedit' : t.heap.arena.Edit b' j) (hj : j ⊆ x.inner) :
    Lockstep (alter change) (alter change') s t :=
  .inl ⟨(), _, _, alter_ok h, alter_ok h', ht.edit_inner hv hx hedit hi hedit' hj⟩

/-- What answers the same on all twins, and leaves the same view behind. -/
theorem of_runs (a : α) (v : View) (size : Nat) (source : Source)
    (hrun : ∀ u : Session, s.heap.Twins u.heap → ∃ h log kept, act u = .ok a ⟨h, log⟩ ∧ h.Sound v ∧
      u.heap.Evolves h kept ∧ h.arena.size = size ∧ h.arena.source = source) :
    Lockstep act act s t := by
  obtain ⟨h, log, kept, hs, hv, he, hsize, hsource⟩ := hrun s ht.refl
  obtain ⟨h', log', kept', ht', hv', he', hsize', hsource'⟩ := hrun t ht
  exact .inl ⟨a, _, _, hs, ht', he'.layout_eq.trans (ht.layout_eq.trans he.layout_eq.symm),
    he'.head_eq.trans (ht.head_eq.trans he.head_eq.symm), hsize'.trans hsize.symm, he.size_le,
    hsource'.trans hsource.symm, v, hv, hv'⟩

/-- The same, if the arena does not grow. -/
theorem of_parallel (a : α) (v : View) (hpar : ∀ d u, Parallel d act u)
    (hrun : ∀ u : Session, s.heap.Twins u.heap → ∃ h log kept, act u = .ok a ⟨h, log⟩ ∧ h.Sound v ∧
      u.heap.Evolves h kept ∧ h.arena.size = u.heap.arena.size) :
    Lockstep act act s t := by
  refine .of_runs ht a v s.heap.arena.size s.heap.arena.source fun u hu => ?_
  obtain ⟨h, log, kept, hact, hv, he, hsize⟩ := hrun u hu
  exact ⟨h, log, kept, hact, hv, he, hsize.trans hu.size_eq,
    ((hpar _ u).source_eq hact).trans hu.source_eq⟩

end Lockstep

end SessionM

open Heap SessionM

variable {s t : Session} {v : View} {x y : Span} {lo post : List Span} {ring : List Nat}
  {need size : Nat} (ht : s.heap.Twins t.heap)

include ht

theorem lockstep_blockSize (size : Nat) : Lockstep (blockSize size) (blockSize size) s t := by
  refine .of_get ?_
  rw [ht.layout_eq]
  cases s.heap.layout.blockSizeFor? size with
  | none => exact .fail ht _
  | some need =>
    by_cases hle : need ≤ maxTagged
    · simp only [if_pos hle]
      exact .pure ht need
    · simp only [if_neg hle]
      exact .fail ht _

/-! ### Blocks -/

theorem lockstep_occupy (hv : s.heap.Sound v) (hx : x ∈ v.spans) (hfree : x.free)
    (hneed : s.heap.layout.Admits need) (hle : need ≤ x.size) :
    Lockstep (occupy x.offset need) (occupy x.offset need) s t := by
  obtain ⟨pre, post, before, after, rfl⟩ := hv.exists_of_free hx hfree
  refine .of_parallel ht () ⟨pre ++ Span.carved s.heap.layout x x.size need ++ post,
    before ++ Span.freeHeaders (Span.carved s.heap.layout x x.size need) ++ after⟩
    (fun _ _ => parallel_occupy _ _) fun u hu => ?_
  obtain ⟨h, log, hrun, hv', he, hsize⟩ :=
    occupy_spec (hu.sound_right hv) hu.size_le_right (hu.layout_eq ▸ hneed) hle
  rw [hu.layout_eq] at hv'
  exact ⟨h, log, _, hrun, hv', he, hsize⟩

/-- A block takes space of the free block above it. -/
theorem lockstep_carveAbove (hv : s.heap.Sound ⟨lo ++ [x] ++ y :: post, ring⟩)
    (hused : x.free = false) (hfree : y.free) (hneed : s.heap.layout.Admits need)
    (hle : need ≤ x.size + y.size) :
    Lockstep (carveBlock x.offset (x.size + y.size) need y.offset)
      (carveBlock x.offset (x.size + y.size) need y.offset) s t := by
  obtain ⟨before, after, rfl⟩ := List.append_of_mem ((hv.mem_ring_iff (by simp)).2 hfree)
  have hspans : lo ++ [x] ++ y :: post = lo ++ ([x] ++ [y]) ++ post := by simp
  rw [hspans] at hv
  refine .of_parallel ht ()
    ⟨lo ++ Span.carved s.heap.layout x (x.size + y.size) need ++ post,
      before ++ Span.freeHeaders (Span.carved s.heap.layout x (x.size + y.size) need) ++ after⟩
    (fun _ _ => parallel_carveBlock _ _ _ _) fun u hu => ?_
  have hc : u.heap.Carvable lo [x] y post before after :=
    ⟨hu.sound_right hv, by simpa using hused⟩
  obtain ⟨h, log, hrun, hv', he, hsize⟩ := carveBlock_spec hc hu.size_le_right rfl
    (show _ = x.size + y.size by simp) (hu.layout_eq ▸ hneed) hle
  rw [hu.layout_eq] at hv'
  exact ⟨h, log, _, hrun, hv', he, hsize⟩

theorem lockstep_releaseBlock (hv : s.heap.Sound v) (hx : x ∈ Span.used v.spans) :
    Lockstep (releaseBlock x.pointer) (releaseBlock x.pointer) s t := by
  obtain ⟨hmem, hused⟩ := Span.mem_used.1 hx
  obtain ⟨lo, hi, ring, rfl⟩ := View.exists_split hmem
  obtain ⟨hlo, hhi⟩ := hv.separated.sides
  obtain ⟨pre, left, right, post, hn⟩ := Span.exists_around hlo hhi
  refine .of_parallel ht () ⟨pre ++ [Span.merged left x.freed right] ++ post,
    (Span.merged left x.freed right).offset ::
      ring.diff ((left.toList ++ right.toList).map Span.offset)⟩
    (fun _ _ => parallel_releaseBlock _) fun u hu => ?_
  obtain ⟨h, log, hrun, hv', he, hsize⟩ :=
    releaseBlock_merged (hu.sound_right hv) hused hu.size_le_right hn
  exact ⟨h, log, _, hrun, hv', he, hsize⟩

theorem lockstep_shrink (hv : s.heap.Sound v) (hx : x ∈ Span.used v.spans)
    (hneed : s.heap.layout.Admits need) (hlt : need < x.size) (size : Nat) :
    Lockstep (shrink x.offset x.size need size) (shrink x.offset x.size need size) s t := by
  by_cases hrest : s.heap.layout.minBlock ≤ x.size - need
  · obtain ⟨hmem, hused⟩ := Span.mem_used.1 hx
    obtain ⟨lo, hi, ring, rfl⟩ := View.exists_split hmem
    obtain ⟨hlo, hhi⟩ := hv.separated.sides
    obtain ⟨right, post, hn⟩ := Span.exists_around_cut hlo hhi x.offset need
    refine .of_parallel ht () ⟨lo ++ [⟨x.offset, need, false⟩] ++
        [Span.merged none ⟨x.offset + need, x.size - need, true⟩ right] ++ post,
      (x.offset + need) :: ring.diff (right.toList.map Span.offset)⟩
      (fun _ _ => parallel_shrink _ _ _ _) fun u hu => ?_
    obtain ⟨h, log, hrun, hv', he, hsize⟩ := shrink_cut size (hu.sound_right hv) hused
      hu.size_le_right (hu.layout_eq ▸ hneed) (by rw [hu.layout_eq]; omega) hn
    exact ⟨h, log, _, hrun, hv', he, hsize⟩
  · refine .of_get ?_
    rw [ht.layout_eq, if_neg hrest]
    exact .note ht _

/-- Users may write what they like. -/
theorem lockstep_setPayload {count : Nat} (hv : s.heap.Sound v) (hx : x ∈ Span.used v.spans)
    (hcount : count ≤ x.size - 8) (byte byte' : Nat → UInt8) :
    Lockstep (alter (·.setPayload x.pointer count byte))
      (alter (·.setPayload x.pointer count byte')) s t := by
  have hmem := (Span.mem_used.1 hx).1
  obtain ⟨b, hset, hedit, -⟩ := hv.holds.setPayload_spec (mem_chain_of_mem hmem) hcount byte
  obtain ⟨b', hset', hedit', -⟩ :=
    (ht.sound_right hv).holds.setPayload_spec (mem_chain_of_mem hmem) hcount byte'
  have hinner := Span.Ico_subset_inner hcount
  exact .alter_inner ht hv hx hset hedit hinner hset' hedit' hinner

theorem lockstep_raiseBreak (n : Nat) :
    Lockstep (alter fun h => return { h with arena := h.arena.raiseBreak n })
      (alter fun h => return { h with arena := h.arena.raiseBreak n }) s t := by
  refine .inl ⟨(), _, _, alter_ok rfl, alter_ok rfl, ?_⟩
  unfold Arena.raiseBreak
  rw [ht.source_eq]
  split
  · exact ht
  · exact ht.with_source _

/-! ### Growing -/

/-- Arenas of twins grow alike. -/
theorem lockstep_growFor (hneed : s.heap.layout.Admits need) (hle : need ≤ maxTagged) :
    Lockstep (growFor need) (growFor need) s t := by
  have hneed' : t.heap.layout.Admits need := ht.layout_eq ▸ hneed
  by_cases hcap : s.heap.arena.size + need ≤ maxTagged
  · have hcap' : t.heap.arena.size + need ≤ maxTagged := by rwa [ht.size_eq]
    rcases Arena.grow_uniform s.heap.arena.source hcap with ⟨source, hgrow⟩ | ⟨source, m, hgrow⟩
    · obtain ⟨v, hv, -⟩ := ht.sound
      obtain ⟨lo, left, hspans, hleft, hbelow⟩ := Span.exists_left hv.separated
      obtain ⟨x, hx⟩ : ∃ x, x = Span.merged left ⟨s.heap.arena.size - 4, need, true⟩ none :=
        ⟨_, rfl⟩
      refine .of_runs ht x.offset
        ⟨lo ++ [x], x.offset :: v.ring.diff (left.toList.map Span.offset)⟩
        (s.heap.arena.size + need) source fun u hu => ?_
      obtain ⟨fits, hgrow, hlimit⟩ := hgrow u.heap.arena hu.size_eq hu.source_eq
      have hv₀ : u.heap.Sound ⟨lo ++ left.toList, v.ring⟩ := by
        rw [← hspans]
        exact hu.sound_right hv
      have hneed₀ : u.heap.layout.Admits need := hu.layout_eq ▸ hneed
      have hcap₀ : u.heap.arena.size + need ≤ maxTagged := by rwa [hu.size_eq]
      rw [← hu.size_eq] at hgrow hx
      obtain ⟨h, log, hrun, hv', he, hsize⟩ := afterGrowth_spec hv₀ hleft hbelow hneed₀ hcap₀
        (Arena.append_keeps fits) (Arena.size_append _ fits) hlimit hx u.log
      have hsource := (parallel_afterGrowth _ _).source_eq hrun
      exact ⟨h, log, _, (growFor_granted hneed₀ hle hcap₀ hgrow).trans hrun, hv', he,
        hsize.trans (by rw [hu.size_eq]), hsource⟩
    · obtain ⟨hrefused, -⟩ := hgrow s.heap.arena rfl rfl
      obtain ⟨hrefused', -⟩ := hgrow t.heap.arena ht.size_eq ht.source_eq
      exact .inr ⟨.outOfMemory m, _, _, growFor_refused hneed hle hcap hrefused,
        growFor_refused hneed' hle hcap' hrefused', ht.with_source source⟩
  · have hcap' : ¬ t.heap.arena.size + need ≤ maxTagged := by rwa [ht.size_eq]
    exact .inr ⟨.outOfMemory need, s, t, growFor_beyond hneed hle hcap,
      growFor_beyond hneed' hle hcap', ht⟩

omit ht in
/-- The block on top after growing has room. -/
theorem exists_of_growFor {s' : Session} {block : Nat} (hv : s.heap.Sound v)
    (hneed : s.heap.layout.Admits need) (hle : need ≤ maxTagged)
    (hrun : growFor need s = .ok block s') : s'.heap.layout = s.heap.layout ∧
      ∃ v' x, s'.heap.Sound v' ∧ x ∈ v'.spans ∧ x.free ∧ x.offset = block ∧ need ≤ x.size := by
  obtain ⟨lo, left, hspans, hleft, hbelow⟩ := Span.exists_left hv.separated
  have hv₀ : s.heap.Sound ⟨lo ++ left.toList, v.ring⟩ := by rwa [← hspans]
  obtain ⟨rfl, hv', he, -⟩ := (growFor_spec hv₀ hleft hbelow hneed hle rfl).of_ok hrun
  exact ⟨he.layout_eq, _, _, hv', by simp, rfl, rfl,
    Span.size_le_merged left ⟨_, need, true⟩ none⟩

/-! ### Requests -/

theorem lockstep_allocate (size : Nat) : Lockstep (allocate size) (allocate size) s t := by
  unfold allocate
  by_cases hpos : size = 0
  · simp only [if_pos hpos]
    exact .pure ht none
  simp only [if_neg hpos]
  refine (lockstep_blockSize ht size).bind fun need s₁ t₁ hneed ht₁ => ?_
  obtain ⟨rfl, hfor, hmax⟩ := blockSize_ok hneed
  obtain ⟨hserves, -⟩ := (s₁.heap.valid.blockSizeFor?_eq_some_iff).1 hfor
  obtain ⟨v, hv, -⟩ := ht₁.sound
  obtain ⟨xs, hperm, hring⟩ := hv.exists_listing
  have hfit := hv.bestFit?_eq need hperm hring
  refine .ask_bind hfit (ht₁.bestFit?_eq need) ?_
  cases hpick : (Span.pick need none xs).map Candidate.block with
  | some block =>
    obtain ⟨x, hx, hfree, rfl, hle⟩ := hv.exists_of_bestFit? (hfit.trans (congrArg _ hpick))
    refine (lockstep_occupy ht₁ hv hx hfree hserves.admits hle).bind fun _ s₂ t₂ _ ht₂ => ?_
    exact (Lockstep.note ht₂ _).bind fun _ s₃ t₃ _ ht₃ => .pure ht₃ _
  | none =>
    refine (lockstep_growFor ht₁ hserves.admits hmax).noteError.bind fun block s₂ t₂ hgrow ht₂ => ?_
    obtain ⟨hlayout, v', x, hv', hx, hfree, rfl, hle⟩ :=
      exists_of_growFor hv hserves.admits hmax (of_noteError hgrow)
    have hneed₂ : s₂.heap.layout.Admits need := hlayout ▸ hserves.admits
    refine (lockstep_occupy ht₂ hv' hx hfree hneed₂ hle).bind fun _ s₃ t₃ _ ht₃ => ?_
    exact (Lockstep.note ht₃ _).bind fun _ s₄ t₄ _ ht₄ => .pure ht₄ _

theorem lockstep_moveBlock (hv : s.heap.Sound v) (hx : x ∈ Span.used v.spans) (hpos : size ≠ 0) :
    Lockstep (moveBlock x.pointer x.offset x.size size) (moveBlock x.pointer x.offset x.size size)
      s t := by
  refine (lockstep_allocate ht size).bind fun r s₁ t₁ hrun ht₁ => ?_
  obtain ⟨v₁, y, rfl, hv₁, hsuits, hperm, he⟩ := (allocate_spec hv ht.size_le hpos).of_ok hrun
  have hy : y ∈ Span.used v₁.spans := hperm.mem_iff.2 (List.mem_cons_self ..)
  have hx₁ : x ∈ Span.used v₁.spans := hperm.mem_iff.2 (List.mem_cons_of_mem _ hx)
  have hmx := (Span.mem_used.1 hx₁).1
  have hmy := (Span.mem_used.1 hy).1
  have hbx := hv₁.holds.bounds (mem_chain_of_mem hmx)
  refine .calculate_bind (Address.sub_of_le (show 8 ≤ x.size by omega)) ?_
  -- the content is copied, whatever it is
  obtain ⟨b, hcopy, hedit, -⟩ := hv₁.holds.copyBytes_spec hmx hmy hsuits.le
  obtain ⟨b', hcopy', hedit', -⟩ :=
    (ht₁.sound_right hv₁).holds.copyBytes_spec hmx hmy hsuits.le
  refine (Lockstep.alter_inner ht₁ hv₁ hy hcopy hedit subset_rfl hcopy' hedit' subset_rfl).bind
    fun _ s₂ t₂ hrun₂ ht₂ => ?_
  cases hrun₂.symm.trans (alter_ok hcopy)
  have hv₂ := hv₁.edit_inner hmy hsuits.used hedit subset_rfl
  refine (lockstep_releaseBlock ht₂ hv₂ hx₁).bind fun _ s₃ t₃ _ ht₃ => ?_
  refine .calculate_bind (header_ofHeader _) ?_
  exact (Lockstep.note ht₃ _).bind fun _ s₄ t₄ _ ht₄ => .pure ht₄ _

theorem lockstep_resizeBlock (hv : s.heap.Sound v) (hx : x ∈ Span.used v.spans)
    (hpos : size ≠ 0) :
    Lockstep (resizeBlock x.pointer size) (resizeBlock x.pointer size) s t := by
  obtain ⟨hmem, hused⟩ := Span.mem_used.1 hx
  unfold resizeBlock
  refine (lockstep_blockSize ht size).bind fun need s₁ t₁ hneed ht₁ => ?_
  obtain ⟨rfl, hfor, hmax⟩ := blockSize_ok hneed
  obtain ⟨hserves, -⟩ := (s₁.heap.valid.blockSizeFor?_eq_some_iff).1 hfor
  obtain ⟨tag, htag, htagsize, -⟩ := hv.holds.tag_eq (mem_chain_of_mem hmem)
  refine .calculate_bind (header_ofHeader _) (.ask_bind htag (ht₁.tag_eq hv hmem) ?_)
  simp only [htagsize]
  by_cases heq : need = x.size
  · simp only [if_pos heq]
    exact .pure ht₁ _
  simp only [if_neg heq]
  by_cases hlt : need < x.size
  · simp only [if_pos hlt]
    exact (lockstep_shrink ht₁ hv hx hserves.admits hlt size).bind fun _ s₂ t₂ _ ht₂ =>
      .pure ht₂ _
  simp only [if_neg hlt]
  obtain ⟨lo, hi, ring, rfl⟩ := View.exists_split hmem
  obtain ⟨hlo, hhi⟩ := hv.separated.sides
  obtain ⟨pre, left, right, post, hn⟩ := Span.exists_around hlo hhi
  refine .ask_bind (hv.roomAbove?_eq need hn) (ht₁.roomAbove?_eq hv hmem need) ?_
  cases right with
  | none => exact lockstep_moveBlock ht₁ hv hx hpos
  | some y =>
    rw [Option.bind_some]
    by_cases hle : need ≤ x.size + y.size
    · rw [if_pos hle]
      obtain rfl : hi = y :: post := hn.hi_eq
      refine (lockstep_carveAbove ht₁ hv hused (hn.right_free y rfl) hserves.admits hle).bind
        fun _ s₂ t₂ _ ht₂ => ?_
      exact (Lockstep.note ht₂ _).bind fun _ s₃ t₃ _ ht₃ => .pure ht₃ _
    · rw [if_neg hle]
      exact lockstep_moveBlock ht₁ hv hx hpos

theorem lockstep_release {gone : Option Span} (hv : s.heap.Sound v)
    (hgone : ∀ x ∈ gone, x ∈ Span.used v.spans) :
    Lockstep (release (gone.map Span.pointer)) (release (gone.map Span.pointer)) s t := by
  cases gone with
  | none => exact .pure ht ()
  | some x => exact lockstep_releaseBlock ht hv (hgone x rfl)

theorem lockstep_resize {gone : Option Span} (hv : s.heap.Sound v)
    (hgone : ∀ x ∈ gone, x ∈ Span.used v.spans) (size : Nat) :
    Lockstep (resize (gone.map Span.pointer) size) (resize (gone.map Span.pointer) size) s t := by
  unfold resize
  by_cases hpos : size = 0
  · simp only [if_pos hpos]
    exact (lockstep_release ht hv hgone).bind fun _ s₁ t₁ _ ht₁ => .pure ht₁ none
  simp only [if_neg hpos]
  cases gone with
  | none => exact lockstep_allocate ht size
  | some x => exact lockstep_resizeBlock ht hv (hgone x rfl) hpos

theorem lockstep_allocateCleared (bytes : Nat) :
    Lockstep (allocateCleared bytes) (allocateCleared bytes) s t := by
  refine (lockstep_allocate ht bytes).bind fun r s₁ t₁ hrun ht₁ => ?_
  cases r with
  | none => exact .pure ht₁ none
  | some p =>
    obtain ⟨v, hv, -⟩ := ht.sound
    obtain ⟨v₁, fresh, hfresh, hserved⟩ := (allocate_served hv ht.size_le bytes).of_ok hrun
    obtain ⟨x, rfl, rfl⟩ := Option.map_eq_some_iff.1 hfresh.symm
    have hx : x ∈ Span.used v₁.spans := hserved.after.mem_iff.2 (by simp)
    have hroom := (hserved.suits x rfl).le
    exact (lockstep_setPayload ht₁ hserved.sound hx (by omega) _ _).bind
      fun _ s₂ t₂ _ ht₂ => .pure ht₂ _

theorem lockstep_zeroAllocate (count size : Nat) :
    Lockstep (zeroAllocate count size) (zeroAllocate count size) s t := by
  obtain ⟨log, hlog⟩ := zeroAllocate_eq count size s
  obtain ⟨log', hlog'⟩ := zeroAllocate_eq count size t
  rw [Lockstep, hlog, hlog']
  exact lockstep_allocateCleared (s := ⟨s.heap, log⟩) (t := ⟨t.heap, log'⟩) ht _

end TaggedHeap
