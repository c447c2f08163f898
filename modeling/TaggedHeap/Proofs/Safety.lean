import TaggedHeap.Proofs.Refusal

/-!
# Runs without faults

A fault stands for an access outside the arena, a sum or difference that leaves the address space,
a size that no tag holds, or a walk that does not end.  None of these ever happens in a run
(`Client.Reachable.never_faults`), and neither does an inexact link: a heap that checks its links
does the same as one that does not (`Client.Consistent.act_checking`).
-/

namespace TaggedHeap

/-! ### Sums that are not checked -/

/-- The bytes that a new heap asks for, alignment gap included, stay in the address space. -/
theorem Layout.Valid.prologueBytes_lt {layout : Layout} (valid : layout.Valid) :
    0 < layout.alignment ∧ overhead ≤ layout.minBlock ∧ layout.prologueBytes < Address.space := by
  have hmin : 16 ≤ layout.minBlock := valid.four_words_le
  have hmax : layout.minBlock ≤ maxTagged := valid.minBlock_le
  have halign := valid.alignment_le
  refine ⟨valid.alignment_pos, (show 8 ≤ layout.minBlock by omega), ?_⟩
  rw [Layout.prologueBytes, Address.space]
  simp only [maxTagged] at hmax
  omega

/-- Rounding the break up to where a region may start stays in the address space. -/
theorem ProgramBreak.aligned_lt (brk : ProgramBreak) :
    brk.top + Region.baseAlignment < Address.space := by
  have htop := brk.top_lt
  rw [ProgramBreak.ceiling] at htop
  rw [Region.baseAlignment, Address.space]
  omega

namespace Heap

variable {h : Heap}

/-- The heap, which checks its links or does not. -/
def checking (h : Heap) (exactLinks : Bool) : Heap := { h with exactLinks }

theorem checking_eq {exactLinks : Bool} (hflag : h.exactLinks = exactLinks) :
    h.checking exactLinks = h := by
  rw [checking, ← hflag]

/-! ### Building a heap -/

theorem createValid_checking (layout : Layout) (valid : layout.Valid) (arena : Arena) :
    (∃ e, ∀ exactLinks, createValid layout valid arena exactLinks = .error (.failed e)) ∨
      ∃ h : Heap, ∀ exactLinks,
        createValid layout valid arena exactLinks = .ok (h.checking exactLinks) := by
  obtain ⟨head, bytes, -, -, htotal, hcreate⟩ :=
    createValid_eq layout valid (show arena.size ≤ maxContiguous from arena.size_le)
  simp only [hcreate arena rfl]
  by_cases hcap : maxTagged < arena.size + bytes
  · simp only [if_pos hcap]
    exact .inl ⟨_, fun _ => rfl⟩
  simp only [if_neg hcap]
  rw [Nat.not_lt] at hcap
  rcases Arena.grow_cases hcap with ⟨source, fits, hgrow, -⟩ | ⟨source, m, hgrow, -⟩
  · obtain ⟨a, ha, -⟩ := writeSentinels_append valid source fits htotal hcap true
    simp only [hgrow]
    refine .inr ⟨⟨a, layout, valid, head, head + layout.minBlock, true⟩, fun exactLinks => ?_⟩
    cases exactLinks with
    | true =>
      rw [ha]
      rfl
    | false => exact congrArg Stop.ofFault (writeSentinels_disguise .unchecked ha)
  · simp only [hgrow]
    exact .inl ⟨_, fun _ => rfl⟩

/-- **A heap that checks its links is built like one that does not.** -/
theorem create_checking (layout : Layout) (arena : Arena) :
    (∃ e, ∀ exactLinks, create layout arena exactLinks = .error (.failed e)) ∨
      ∃ h : Heap, ∀ exactLinks, create layout arena exactLinks = .ok (h.checking exactLinks) := by
  rcases create_cases layout with ⟨flaw, hflaw⟩ | ⟨valid, hcreate⟩
  · exact .inl ⟨_, hflaw arena⟩
  · simp only [hcreate]
    exact createValid_checking layout valid arena

end Heap

/-- The session of a heap that checks its links or does not. -/
def Session.checking (s : Session) (exactLinks : Bool) : Session :=
  { s with heap := s.heap.checking exactLinks }

theorem Session.create_checking (layout : Layout) (arena : Arena) :
    (∃ e, ∀ exactLinks, create layout arena exactLinks = .error (.failed e)) ∨
      ∃ s : Session, ∀ exactLinks,
        create layout arena exactLinks = .ok (s.checking exactLinks) := by
  rcases Heap.create_checking layout arena with ⟨e, he⟩ | ⟨h, hh⟩
  · refine .inl ⟨e, fun exactLinks => ?_⟩
    rw [create, he]
    rfl
  · refine .inr ⟨⟨h, #[.ofCreated h]⟩, fun exactLinks => ?_⟩
    rw [create, hh]
    rfl

open Heap

namespace Client

variable {c c' : Client} {layout : Layout} {arena : Arena} {v : View} {a : Action}
  {r : Except HeapError (Option Pointer)}

/-- The client of a heap that checks its links or does not. -/
def checking (c : Client) (exactLinks : Bool) : Client :=
  { c with session := c.session.checking exactLinks }

theorem checking_eq {exactLinks : Bool} (hflag : c.heap.exactLinks = exactLinks) :
    c.checking exactLinks = c := by
  rw [checking, Session.checking, show c.session.heap.checking exactLinks = c.session.heap from
    Heap.checking_eq hflag]

theorem allows_checking (exactLinks : Bool) : (c.checking exactLinks).Allows a ↔ c.Allows a := by
  cases a <;> exact Iff.rfl

namespace Consistent

theorem checking (hc : c.Consistent layout arena v) (exactLinks : Bool) :
    (c.checking exactLinks).Consistent layout arena v where
  anchored := ⟨hc.anchored.layout_eq, ⟨hc.anchored.placed.size_le, hc.anchored.placed.aligned⟩,
    hc.anchored.base_le, hc.anchored.keeps⟩
  sound := ⟨hc.sound.tiles, hc.sound.tagged, hc.sound.top_eq, hc.sound.separated, hc.sound.listed,
    hc.sound.threads, hc.sound.head_prev, hc.sound.tail_next⟩
  owned := hc.owned
  suits := hc.suits

/-- **A heap that checks its links does the same as one that does not.** -/
theorem act_checking (hc : c.Consistent layout arena v) (ha : c.Allows a) :
    ∃ r, ∃ c' : Client, ∀ exactLinks,
      (c.checking exactLinks).act a = .ok (r, c'.checking exactLinks) := by
  have ha' := (allows_checking true).2 ha
  obtain ⟨r, c', v', hact, -⟩ := (hc.checking true).act ha'
  refine ⟨r, c', fun exactLinks => ?_⟩
  cases exactLinks with
  | true =>
    have hflag : c'.heap.exactLinks = true := ((hc.checking true).evolves ha' hact).exactLinks_eq
    rw [hact, checking_eq hflag]
  | false =>
    have hparallel : SessionM.Parallel .unchecked a.perform (c.checking true).session :=
      a.parallel_perform (fun n _ => Disguise.withstands_of_id rfl _ n) fun _ _ => rfl
    obtain ⟨records, hlog, hsame⟩ := act_disguise hparallel hact
    have hsame := hsame c.session.log
    rw [show c.session.log ++ records = c'.session.log from hlog.symm] at hsame
    exact hsame

end Consistent

/-- **No run ever faults.**  Building a heap is carried out or refused, and so is every action that
is allowed, with the same result if links are checked.  Payloads, both listings and the audit are
answered in every state.  The sums that are not checked stay far below the address space. -/
theorem Reachable.never_faults (layout : Layout) (arena : Arena) :
    ((∃ e, ∀ exactLinks, Session.create layout arena exactLinks = .error (.failed e)) ∨
      ∃ s : Session, ∀ exactLinks,
        Session.create layout arena exactLinks = .ok (s.checking exactLinks)) ∧
    (layout.Valid → 0 < layout.alignment ∧ overhead ≤ layout.minBlock ∧
      layout.prologueBytes < Address.space) ∧
    (∀ brk : ProgramBreak, brk.top + Region.baseAlignment < Address.space) ∧
    ∀ c, Reachable layout arena c →
      (∀ a, c.Allows a → ∃ r, ∃ c' : Client, c.act a = .ok (r, c') ∧
        ∀ exactLinks, (c.checking exactLinks).act a = .ok (r, c'.checking exactLinks)) ∧
      (∀ p ∈ c.pointers, ∃ bytes, c.heap.usableSize p = .ok bytes.length ∧
        c.heap.payload p = .ok bytes) ∧
      (∃ report, c.heap.check = .ok report ∧ report.blocks ≤ report.arenaBytes ∧
        report.freeBytes + report.usedBytes ≤ report.arenaBytes ∧
        report.arenaBytes = c.heap.arena.size) ∧
      (∃ bs : List Block, (∀ limit, bs.length ≤ limit → c.heap.blocks limit = .ok bs) ∧
        ∀ b ∈ bs, b.offset + b.size + wordBytes ≤ c.heap.arena.size) ∧
      (∃ bs : List Block, ∀ limit, bs.length ≤ limit → c.heap.freeBlocks limit = .ok bs) ∧
      c.heap.firstBlock + wordBytes ≤ c.heap.arena.size ∧ c.heap.arena.size ≤ maxTagged := by
  refine ⟨Session.create_checking layout arena, Layout.Valid.prologueBytes_lt,
    ProgramBreak.aligned_lt, fun c hc => ?_⟩
  obtain ⟨v, hv⟩ := hc.consistent
  obtain ⟨xs, hperm, hring⟩ := hv.sound.exists_listing
  have htotals := hv.sound.totals
  have hfits : c.heap.firstBlock + 4 ≤ c.heap.arena.size := by omega
  refine ⟨fun a ha => ?_, fun p hp => ?_,
    ⟨_, hv.sound.check_eq, hv.sound.holds.length_le, ?_, rfl⟩,
    ⟨v.spans.map c.heap.blockOf, fun limit hlimit => ?_, fun b hb => ?_⟩,
    ⟨xs.map c.heap.blockOf, fun limit hlimit => ?_⟩, hfits, hv.anchored.placed.size_le⟩
  · obtain ⟨r, c', hsame⟩ := hv.act_checking ha
    refine ⟨r, c'.checking c.heap.exactLinks, ?_, hsame⟩
    have hact := hsame c.heap.exactLinks
    rwa [checking_eq rfl] at hact
  · obtain ⟨x, hx, rfl⟩ := hv.exists_of_held hp
    refine ⟨_, ?_, hv.payload_eq hx⟩
    rw [hv.usableSize_eq hx, List.length_map, List.length_range]
  · show (c.heap.reportOf v.spans).freeBytes + (c.heap.reportOf v.spans).usedBytes ≤
      c.heap.arena.size
    omega
  · rw [List.length_map] at hlimit
    exact hv.sound.holds.blocks_eq_of_le hv.sound.top_eq hlimit
  · obtain ⟨x, hx, rfl⟩ := List.mem_map.1 hb
    exact (hv.sound.holds.bounds (mem_chain_of_mem hx)).2.2
  · rw [List.length_map] at hlimit
    exact hv.sound.freeBlocks_eq_of_le hperm hring hlimit

theorem Reachable.never_faults_ofLargestSize : ∃ (c c' : Client)
    (r : Except HeapError (Option Pointer)) (report : Report),
      Reachable {} .ofLimit c ∧ c.pointers = [⟨80⟩] ∧
      c.act (.resize (some ⟨80⟩) (Address.space - 1)) = .ok (r, c') ∧
      (c.checking true).act (.resize (some ⟨80⟩) (Address.space - 1)) = .ok (r, c'.checking true) ∧
      c.heap.check = .ok report ∧ report.freeBytes + report.usedBytes ≤ report.arenaBytes := by
  obtain ⟨c, hc, hpointers⟩ := exists_reachable {} .ofLimit
    [.allocate 24, .allocate 40, .release (some ⟨48⟩)] (fun c => c.pointers = [⟨80⟩])
    (by decide +kernel)
  have hheld := of_decide_eq_true hpointers
  obtain ⟨-, -, -, hsafe⟩ := never_faults {} .ofLimit
  obtain ⟨hacts, -, ⟨report, hcheck, -, htotal, -⟩, -⟩ := hsafe c hc
  obtain ⟨r, c', hact, hsame⟩ := hacts (.resize (some ⟨80⟩) (Address.space - 1))
    (by rintro q ⟨⟩; rw [hheld]; exact List.mem_singleton_self _)
  exact ⟨c, c', r, report, hc, hheld, hact, hsame true, hcheck, htotal⟩

end Client

end TaggedHeap
