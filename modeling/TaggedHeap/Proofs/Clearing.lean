import TaggedHeap.Proofs.Independence
import TaggedHeap.Proofs.Position
import TaggedHeap.Proofs.Tampering

/-!
# Cleared memory

A request for cleared memory comes to allocating as many bytes as the product says, modulo the
address space, and clearing just as many (`Client.Reachable.zeroAllocate_clears`).  The bytes that
are cleared are among those that may be used of the new block, so `Heap.Cleared` holds: neither
tags nor links are touched, nor any other block.
-/

namespace TaggedHeap

namespace Heap

variable {h : Heap} {v : View} {x : Span} {b : Arena} {pos count : Nat}

theorem Sound.metadata_not_inner (hv : h.Sound v) (hx : x ∈ Span.used v.spans)
    (hpos : h.MetadataAt v pos) {i : Nat} (hi : pos ≤ i) (hi' : i < pos + 4) : i ∉ x.inner := by
  have hmx := mem_chain_of_mem (h := h) (Span.mem_used.1 hx).1
  intro hix
  cases hpos with
  | header hy => exact hv.holds.not_mem_tagBytes hmx hy hix (.inl ⟨hi, hi'⟩)
  | footer hy => exact hv.holds.not_mem_tagBytes hmx hy hix (.inr ⟨hi, hi'⟩)
  | link hn l =>
    exact hv.not_mem_ringBytes hx (x.inner_subset hix)
      (linkBytes_subset_ringBytes hn l (Arena.mem_linkBytes.2 ⟨hi, hi'⟩))

/-- `h'` is `h` after clearing the first `count` bytes of the payload of the pointer. -/
structure Cleared (h h' : Heap) (p : Pointer) (count : Nat) : Prop where
  /-- Nothing differs but the bytes of the arena in this range. -/
  edit : ∃ b, h' = { h with arena := b } ∧
    h.arena.Edit b (Set.Ico p.offset (p.offset + count))
  /-- These are zero. -/
  byte_eq : ∀ i < count, h'.arena.byte (p.offset + i) = 0
  /-- They are among those that may be used. -/
  usable : ∃ n, h.usableSize p = .ok n ∧ count ≤ n
  /-- What is seen of the blocks is the same. -/
  survey_eq : h'.survey = h.survey
  /-- The tags and links are the same words, and all blocks but that of the pointer have the same
  bytes. -/
  others : ∃ v, h.Sound v ∧ (∀ pos, h.MetadataAt v pos → h'.arena.peek pos = h.arena.peek pos) ∧
    ∃ x ∈ Span.used v.spans, x.pointer = p ∧
      ∀ y ∈ h.chain v.spans, y ≠ x → h.arena.Keeps h'.arena y.bytes

/-- **Clearing a payload** leaves all else as it is. -/
theorem Sound.clear (hv : h.Sound v) (hsize : h.arena.size ≤ maxTagged)
    (hx : x ∈ Span.used v.spans) (hcount : count + 8 ≤ x.size) :
    ∃ h', h.setPayload x.pointer count (fun _ => 0) = .ok h' ∧ h.Cleared h' x.pointer count := by
  obtain ⟨hmem, hused⟩ := Span.mem_used.1 hx
  have hmx : x ∈ h.chain v.spans := mem_chain_of_mem hmem
  have hcount : count ≤ x.size - 8 := by omega
  obtain ⟨b, hclear, hedit, hzero⟩ := hv.holds.setPayload_spec hmx hcount fun _ => 0
  have hinner := Span.Ico_subset_inner hcount
  have htwins : h.Twins { h with arena := b } := ⟨rfl, rfl, hedit.size_eq, hsize,
    hedit.source_eq, v, hv, hv.edit_inner hmem hused hedit hinner⟩
  refine ⟨_, hclear, ⟨b, rfl, hedit⟩, hzero, ⟨_, hv.holds.usableSize_eq hmx, hcount⟩,
    htwins.survey_eq, v, hv, fun pos hpos => ?_, x, hx, rfl, fun y hy hne => ?_⟩
  · exact hedit.keeps.peek_eq fun i hi hi' his =>
      hv.metadata_not_inner hx hpos hi hi' (hinner his)
  · exact hedit.keeps.mono fun i hi his =>
      hne (hv.holds.eq_of_mem_bytes hy hmx hi (x.inner_subset (hinner his)))

end Heap

namespace Client

open Heap SessionM

variable {c c' : Client} {layout : Layout} {arena : Arena} {v : View} {a : Action}
  {r : Except HeapError (Option Pointer)}

theorem act_logged (hact : c.act a = .ok (r, c')) (log : Array Record) :
    ∃ log', act ⟨⟨c.heap, log⟩, c.live⟩ a = .ok (r, ⟨⟨c'.heap, log'⟩, c'.live⟩) := by
  have hparallel : Parallel .plain a.perform c.session :=
    a.parallel_perform (fun n _ => Disguise.withstands_of_id rfl _ n) fun _ _ => rfl
  obtain ⟨records, -, hsame⟩ := act_disguise hparallel hact
  exact ⟨_, hsame log⟩

/-- **Cleared memory** is allocated like any other, and then cleared.  The request answers what
allocating the product modulo the address space answers.  If that is a pointer, as many bytes are
cleared, and otherwise the heap is the same. -/
theorem Reachable.zeroAllocate_clears (hc : Reachable layout arena c) (count size : Nat) :
    ∃ r c' d, c.act (.allocate (count * size % Address.space)) = .ok (r, c') ∧
      c.act (.zeroAllocate count size) = .ok (r, d) ∧ d.live = c'.live ∧
      ((∀ p, r ≠ .ok (some p)) → d.heap = c'.heap) ∧
      ∀ p, r = .ok (some p) → c'.heap.Cleared d.heap p (count * size % Address.space) := by
  obtain ⟨v, hv⟩ := hc.consistent
  obtain ⟨r, c', v', hact, hv', -⟩ :=
    hv.act (a := .allocate (count * size % Address.space)) trivial
  -- a product that does not fit is logged before anything else happens
  obtain ⟨log, hzero⟩ := zeroAllocate_eq count size c.session
  obtain ⟨log', hact'⟩ := act_logged hact log
  cases r with
  | error e =>
    obtain ⟨hrun, hlive⟩ := error_of_act hact'
    have hfailed : zeroAllocate count size c.session = .error (.failed e) ⟨c'.heap, log'⟩ :=
      hzero.trans (bind_error hrun)
    exact ⟨_, c', _, hact, act_failed (a := .zeroAllocate count size) hfailed, hlive.symm,
      fun _ => rfl, by simp⟩
  | ok r =>
    obtain ⟨hrun, hlive⟩ := live_of_act hact'
    cases r with
    | none =>
      have hnone : zeroAllocate count size c.session = .ok none ⟨c'.heap, log'⟩ :=
        hzero.trans (bind_ok hrun)
      exact ⟨_, c', _, hact, act_ok (a := .zeroAllocate count size) hnone, hlive.symm,
        fun _ => rfl, by simp⟩
    | some p =>
      have hheld : ⟨p, count * size % Address.space⟩ ∈ c'.live := hlive.symm ▸ List.mem_cons_self
      obtain ⟨x, hx, rfl⟩ := hv'.exists_of_held (List.mem_map_of_mem hheld)
      obtain ⟨h', hclear, hcleared⟩ := hv'.sound.clear hv'.anchored.placed.size_le hx
        (hv'.suits _ hheld x hx rfl).le
      have hsome : zeroAllocate count size c.session = .ok (some x.pointer) ⟨h', log'⟩ :=
        hzero.trans ((bind_ok hrun).trans ((bind_ok (alter_ok hclear)).trans rfl))
      refine ⟨_, c', _, hact, act_ok (a := .zeroAllocate count size) hsome, hlive.symm,
        fun hne => absurd rfl (hne _), ?_⟩
      rintro _ ⟨⟩
      exact hcleared

/-- The product of the factors exceeds the address space by 8.  So many bytes are cleared of the
block that is used again, and not the ones after them. -/
theorem Reachable.zeroAllocate_clears_ofWrapped : ∃ c c' d, Reachable ⟨16, 64⟩ (.ofLimit 600) c ∧
    0x8000_0000_0000_0004 * 2 % Address.space = 8 ∧
    c.act (.allocate 8) = .ok (.ok (some ⟨144⟩), c') ∧
    c.act (.zeroAllocate 0x8000_0000_0000_0004 2) = .ok (.ok (some ⟨144⟩), d) ∧
    c'.heap.Cleared d.heap ⟨144⟩ 8 ∧ d.heap.arena.byte 151 = 0 ∧ d.heap.arena.byte 152 = 0xFF := by
  obtain ⟨c, hc, hsees⟩ := exists_reachable ⟨16, 64⟩ (.ofLimit 600)
    [.allocate 40, .write ⟨144⟩ 40 fun _ => 0xFF, .release (some ⟨144⟩)]
    (fun c => (c.act (.zeroAllocate 0x8000_0000_0000_0004 2)).toOption.any fun step =>
      step.1.toOption = some (some ⟨144⟩) ∧ step.2.heap.arena.byte 152 = 0xFF)
    (by decide +kernel)
  obtain ⟨⟨r, d⟩, hact, hshows⟩ := (Option.any_eq_true _ _).1 hsees
  obtain ⟨hr, hdirty⟩ := of_decide_eq_true hshows
  obtain rfl : r = .ok (some ⟨144⟩) := ok_of_toOption hr
  have hbytes : 0x8000_0000_0000_0004 * 2 % Address.space = 8 := by decide
  obtain ⟨r, c', d, hact', hzero, -, -, hcleared⟩ :=
    Reachable.zeroAllocate_clears hc 0x8000_0000_0000_0004 2
  cases hzero.symm.trans (ok_of_toOption hact)
  rw [hbytes] at hact' hcleared
  have hclear := hcleared _ rfl
  exact ⟨c, c', d, hc, hbytes, hact', hzero, hclear, hclear.byte_eq 7 (by decide), hdirty⟩

end Client

end TaggedHeap
