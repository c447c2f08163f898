import TaggedHeap.Proofs.Contract
import TaggedHeap.Proofs.Twins

/-!
# Placement does not depend on data

Users see pointers, refusals and what a heap answers about its blocks (`Heap.survey`).  Two runs
whose actions are alike, over arenas that differ in their bytes only, cannot be told apart by any
of this (`Client.transcriptOf_eq`), whatever the users write in their payloads.  The clients of the
two runs are twins in every step (`Client.Twins.act`).
-/

namespace TaggedHeap

/-- What a heap answers about its blocks. -/
structure Survey where
  /-- Bytes in the arena. -/
  arenaBytes : Nat
  /-- The header of the topmost block. -/
  top : Nat
  /-- The blocks by address. -/
  blocks : Except Fault (List Block)
  /-- The free blocks in the order of the list. -/
  freeBlocks : Except Fault (List Block)
  /-- What the audit finds. -/
  verdict : Except Stop Report
deriving DecidableEq

/-- What the heap answers about its blocks. -/
def Heap.survey (h : Heap) : Survey where
  arenaBytes := h.arena.size
  top := h.top
  blocks := h.blocks
  freeBlocks := h.freeBlocks
  verdict := h.check

/-- The same actions, apart from the bytes that are written. -/
inductive Action.Alike : Action → Action → Prop
  | same (a : Action) : Alike a a
  | write (p : Pointer) (count : Nat) (byte byte' : Nat → UInt8) :
    Alike (.write p count byte) (.write p count byte')

theorem Action.Alike.settle_eq {a a' : Action} (haa : a.Alike a') : a'.settle = a.settle := by
  cases haa <;> rfl

namespace Heap

variable {h h' : Heap}

theorem Twins.survey_eq (ht : h.Twins h') : h'.survey = h.survey := by
  rw [survey, survey, ht.blocks_eq, ht.freeBlocks_eq, ht.check_eq, ht.top_eq, ht.size_eq]

/-! ### Building a heap -/

section Building

variable (layout : Layout) {arena arena' : Arena} (hsize : arena'.size = arena.size)
  (hsource : arena'.source = arena.source) (exactLinks : Bool)

include hsize hsource

theorem createValid_twins (valid : layout.Valid) :
    (∃ e, createValid layout valid arena exactLinks = .error e ∧
        createValid layout valid arena' exactLinks = .error e) ∨
      ∃ h h', createValid layout valid arena exactLinks = .ok h ∧
        createValid layout valid arena' exactLinks = .ok h' ∧ h.Twins h' := by
  obtain ⟨head, bytes, -, -, htotal, hcreate⟩ :=
    createValid_eq layout valid (show arena.size ≤ maxContiguous from arena.size_le)
  rw [hcreate arena rfl, hcreate arena' hsize]
  by_cases hcap : maxTagged < arena.size + bytes
  · rw [if_pos hcap, if_pos hcap]
    exact .inl ⟨_, rfl, rfl⟩
  rw [if_neg hcap, if_neg hcap]
  rw [Nat.not_lt] at hcap
  rcases Arena.grow_uniform arena.source hcap with ⟨source, hgrow⟩ | ⟨source, m, hgrow⟩
  · obtain ⟨fits, hgrow₁, -⟩ := hgrow arena rfl rfl
    obtain ⟨fits', hgrow₂, -⟩ := hgrow arena' hsize hsource
    obtain ⟨a, ha, hv, hasize, hasource, -⟩ :=
      writeSentinels_append valid source fits htotal hcap exactLinks
    rw [← hsize] at htotal hcap
    obtain ⟨a', ha', hv', hasize', hasource', -⟩ :=
      writeSentinels_append valid source fits' htotal hcap exactLinks
    simp only [hgrow₁, hgrow₂, ha, ha', ofFault_ok]
    refine .inr ⟨_, _, rfl, rfl, rfl, rfl, ?_, ?_, ?_, ⟨[], []⟩, hv, hv'⟩
    · exact hasize'.trans ((congrArg (· + bytes) hsize).trans hasize.symm)
    · rw [hasize, ← hsize]
      exact hcap
    · exact hasource'.trans hasource.symm
  · obtain ⟨hgrow₁, -⟩ := hgrow arena rfl rfl
    obtain ⟨hgrow₂, -⟩ := hgrow arena' hsize hsource
    simp only [hgrow₁, hgrow₂]
    exact .inl ⟨_, rfl, rfl⟩

theorem create_twins :
    (∃ e, create layout arena exactLinks = .error e ∧
        create layout arena' exactLinks = .error e) ∨
      ∃ h h', create layout arena exactLinks = .ok h ∧ create layout arena' exactLinks = .ok h' ∧
        h.Twins h' := by
  rcases create_cases layout with ⟨flaw, hflaw⟩ | ⟨valid, hcreate⟩
  · exact .inl ⟨_, hflaw arena exactLinks, hflaw arena' exactLinks⟩
  · rw [hcreate, hcreate]
    exact createValid_twins layout hsize hsource exactLinks valid

end Building

end Heap

theorem Session.create_twins (layout : Layout) {arena arena' : Arena}
    (hsize : arena'.size = arena.size) (hsource : arena'.source = arena.source)
    (exactLinks : Bool) :
    (∃ e, create layout arena exactLinks = .error e ∧
        create layout arena' exactLinks = .error e) ∨
      ∃ s t, create layout arena exactLinks = .ok s ∧ create layout arena' exactLinks = .ok t ∧
        s.heap.Twins t.heap := by
  rcases Heap.create_twins layout hsize hsource exactLinks with
    ⟨e, hcreate, hcreate'⟩ | ⟨h, h', hcreate, hcreate', ht⟩
  · exact .inl ⟨e, by rw [create, hcreate]; rfl, by rw [create, hcreate']; rfl⟩
  · exact .inr ⟨_, _, by rw [create, hcreate]; rfl, by rw [create, hcreate']; rfl, ht⟩

/-! ### Runs -/

namespace Client

variable {c c' d d' : Client} {layout : Layout} {arena arena' : Arena} {v : View} {a a' : Action}
  {as as' : List Action}

/-- The answers to the actions, and the survey of the heap after each of them, if all of them are
allowed. -/
def transcript (c : Client) :
    List Action → Option (List (Except HeapError (Option Pointer) × Survey))
  | [] => some []
  | a :: as =>
    if c.Allows a then
      match c.act a with
      | .ok (r, d) => (d.transcript as).map fun steps => (r, d.heap.survey) :: steps
      | .error _ => none
    else none

/-- The survey of a heap built with the layout at the end of the arena, or why it is not built, and
then the transcript of the actions. -/
def transcriptOf (layout : Layout) (arena : Arena) (as : List Action) :
    Except Stop (Survey × Option (List (Except HeapError (Option Pointer) × Survey))) := do
  let session ← Session.create layout arena
  return (session.heap.survey, transcript { session } as)

/-- The same pointers are held, and the heaps differ in data only. -/
structure Twins (c c' : Client) : Prop where
  /-- The heaps. -/
  heap : c.heap.Twins c'.heap
  /-- The leases. -/
  live_eq : c'.live = c.live

namespace Twins

theorem pointers_eq (ht : c.Twins c') : c'.pointers = c.pointers := by
  rw [pointers, pointers, ht.live_eq]

theorem allows_iff (ht : c.Twins c') (hc : c.Consistent layout arena v) (haa : a.Alike a') :
    c'.Allows a' ↔ c.Allows a := by
  have hwrite : ∀ p count byte byte',
      c'.Allows (.write p count byte') ↔ c.Allows (.write p count byte) := by
    intro p count byte byte'
    simp only [Allows, ht.pointers_eq]
    refine and_congr_right fun hp => ?_
    obtain ⟨x, hx, rfl⟩ := hc.exists_of_held hp
    rw [ht.heap.usableSize_eq hc.sound (Span.mem_used.1 hx).1]
  cases haa with
  | write p count byte byte' => exact hwrite p count byte byte'
  | same a =>
    cases a with
    | write p count byte => exact hwrite p count byte byte
    | resize p size => simp only [Allows, ht.pointers_eq]
    | release p => simp only [Allows, ht.pointers_eq]
    | allocate | zeroAllocate | raiseBreak => exact Iff.rfl

theorem lockstep (ht : c.Twins c') (hc : c.Consistent layout arena v) (haa : a.Alike a')
    (ha : c.Allows a) : SessionM.Lockstep a.perform a'.perform c.session c'.session := by
  have hwrite : ∀ p count byte byte', c.Allows (.write p count byte) →
      SessionM.Lockstep (Action.perform (.write p count byte))
        (Action.perform (.write p count byte')) c.session c'.session := by
    rintro p count byte byte' ⟨hp, n, hn, hle⟩
    obtain ⟨x, hx, rfl⟩ := hc.exists_of_held hp
    obtain rfl := Except.ok.inj ((hc.usableSize_eq hx).symm.trans hn)
    exact (lockstep_setPayload ht.heap hc.sound hx hle byte byte').bind
      fun _ s t _ hst => .pure hst none
  cases haa with
  | write p count byte byte' => exact hwrite p count byte byte' ha
  | same a =>
    cases a with
    | allocate size => exact lockstep_allocate ht.heap size
    | zeroAllocate count size => exact lockstep_zeroAllocate ht.heap count size
    | resize p size =>
      obtain ⟨gone, rest, rfl, hgone⟩ := hc.exists_gone ha
      exact lockstep_resize ht.heap hc.sound
        (fun x hx => hgone.mem_iff.2 (List.mem_append_left _ (Option.mem_toList.2 hx))) size
    | release p =>
      obtain ⟨gone, rest, rfl, hgone⟩ := hc.exists_gone ha
      exact (lockstep_release ht.heap hc.sound
        fun x hx => hgone.mem_iff.2 (List.mem_append_left _ (Option.mem_toList.2 hx))).bind
          fun _ s t _ hst => .pure hst none
    | write p count byte => exact hwrite p count byte byte ha
    | raiseBreak n =>
      refine (lockstep_raiseBreak ht.heap n).bind fun _ s t _ hst => .pure hst none

/-- **Twins answer the same**, and stay twins. -/
theorem act (ht : c.Twins c') (hc : c.Consistent layout arena v) (haa : a.Alike a')
    (ha : c.Allows a) :
    ∃ r d d', c.act a = .ok (r, d) ∧ c'.act a' = .ok (r, d') ∧ d.Twins d' := by
  rcases ht.lockstep hc haa ha with
    ⟨r, s, t, hrun, hrun', hst⟩ | ⟨e, s, t, hrun, hrun', hst⟩
  · refine ⟨.ok r, ⟨s, a.settle r c.live⟩, ⟨t, a.settle r c.live⟩, ?_, ?_, hst, rfl⟩
    · rw [Client.act, hrun]
    · rw [Client.act, hrun', haa.settle_eq, ht.live_eq]
  · refine ⟨.error e, ⟨s, c.live⟩, ⟨t, c.live⟩, ?_, ?_, hst, rfl⟩
    · rw [Client.act, hrun]
    · rw [Client.act, hrun', ht.live_eq]

theorem transcript_eq (ht : c.Twins c') (hc : c.Consistent layout arena v)
    (has : List.Forall₂ Action.Alike as as') : c'.transcript as' = c.transcript as := by
  induction has generalizing c c' v with
  | nil => rfl
  | @cons a a' as as' haa _ ih =>
    unfold transcript
    by_cases ha : c.Allows a
    · obtain ⟨r, d, d', hact, hact', htd⟩ := ht.act hc haa ha
      obtain ⟨r', e, v', hact'', hv', -⟩ := hc.act ha
      cases hact.symm.trans hact''
      rw [if_pos ha, if_pos ((ht.allows_iff hc haa).2 ha), hact, hact']
      simp only [ih htd hv', htd.heap.survey_eq]
    · rw [if_neg ha, if_neg fun ha' => ha ((ht.allows_iff hc haa).1 ha')]

end Twins

/-- **Placement does not depend on data**: neither on the bytes that the arena held before, nor on
those that are written in payloads. -/
theorem transcriptOf_eq (layout : Layout) (hsize : arena'.size = arena.size)
    (hsource : arena'.source = arena.source) (has : List.Forall₂ Action.Alike as as') :
    transcriptOf layout arena' as' = transcriptOf layout arena as := by
  unfold transcriptOf
  rcases Session.create_twins layout hsize hsource false with
    ⟨e, hcreate, hcreate'⟩ | ⟨s, t, hcreate, hcreate', hst⟩
  · rw [hcreate, hcreate']
    rfl
  · have ht : Twins { session := s } { session := t } := ⟨hst, rfl⟩
    rw [hcreate, hcreate', ok_bind, ok_bind, hst.survey_eq,
      ht.transcript_eq (consistent_create hcreate) has]

/-- What was in the buffers, and what is written in a payload that is given back and used again,
shows nowhere. -/
theorem transcriptOf_eq_ofFilled : ∃ survey steps,
    transcriptOf {} { bytes := #[1, 2, 3], source := .buffer 200 }
      [.allocate 24, .write ⟨64⟩ 24 fun _ => 0, .allocate 8, .release (some ⟨64⟩), .allocate 4,
        .allocate 500] = .ok (survey, some steps) ∧
    transcriptOf {} { bytes := #[4, 5, 6], source := .buffer 200 }
      [.allocate 24, .write ⟨64⟩ 24 UInt8.ofNat, .allocate 8, .release (some ⟨64⟩), .allocate 4,
        .allocate 500] = .ok (survey, some steps) ∧
    steps.map Prod.fst = [.ok (some ⟨64⟩), .ok none, .ok (some ⟨96⟩), .ok none, .ok (some ⟨64⟩),
      .error (.outOfMemory 512)] := by
  have hruns : (transcriptOf {} { bytes := #[1, 2, 3], source := .buffer 200 }
      [.allocate 24, .write ⟨64⟩ 24 fun _ => 0, .allocate 8, .release (some ⟨64⟩), .allocate 4,
        .allocate 500]).toOption.any fun seen => seen.2.any fun steps =>
      steps.map Prod.fst = [.ok (some ⟨64⟩), .ok none, .ok (some ⟨96⟩), .ok none,
        .ok (some ⟨64⟩), .error (.outOfMemory 512)] := by
    decide +kernel
  obtain ⟨⟨survey, steps⟩, hseen, hsteps⟩ := (Option.any_eq_true _ _).1 hruns
  obtain ⟨steps, rfl, hanswers⟩ := (Option.any_eq_true _ _).1 hsteps
  have hrun := ok_of_toOption hseen
  rw [decide_eq_true_eq] at hanswers
  refine ⟨survey, steps, hrun, ?_, hanswers⟩
  rw [← hrun]
  refine transcriptOf_eq {} rfl rfl ?_
  exact .cons (.same _) (.cons (.write ..) (.cons (.same _) (.cons (.same _) (.cons (.same _)
    (.cons (.same _) .nil)))))

end Client

end TaggedHeap
