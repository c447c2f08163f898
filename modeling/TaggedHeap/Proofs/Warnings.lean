import TaggedHeap.Proofs.Position

/-!
# Warnings

The log of a session only grows, and what an action adds to it warns of two things: of a product
that does not fit the address space, and of memory that the arena could not supply
(`Client.act_warns_iff`).

A request that is refused because no block may have room for it (`Layout.Oversized`) is out of
memory as well, but nothing is said about that in the log.
-/

namespace TaggedHeap

/-- Between the two states of a session records were logged, with warnings among them if and only
if `p`. -/
def Session.Warns (s s' : Session) (p : Prop) : Prop :=
  ∃ records, s'.log = s.log ++ records ∧ ((∃ x ∈ records, x.level = .warn) ↔ p)

namespace Session.Warns

variable {s s' s'' : Session} {p q : Prop}

theorem of_log_eq (h : s'.log = s.log) : s.Warns s' False := ⟨#[], by simp [h], by simp⟩

theorem push (h : s'.log = s.log) (x : Record) :
    s.Warns { s' with log := s'.log.push x } (x.level = .warn) :=
  ⟨#[x], by simp [h], by simp⟩

theorem congr (h : s.Warns s' p) (hpq : p ↔ q) : s.Warns s' q := by
  obtain ⟨records, hlog, hwarn⟩ := h
  exact ⟨records, hlog, hwarn.trans hpq⟩

theorem trans (h : s.Warns s' p) (h' : s'.Warns s'' q) : s.Warns s'' (p ∨ q) := by
  obtain ⟨records, hlog, hwarn⟩ := h
  obtain ⟨records', hlog', hwarn'⟩ := h'
  refine ⟨records ++ records', by rw [hlog', hlog, Array.append_assoc], ?_⟩
  rw [← hwarn, ← hwarn']
  simp only [Array.mem_append]
  constructor
  · rintro ⟨x, hx | hx, hlevel⟩
    · exact .inl ⟨x, hx, hlevel⟩
    · exact .inr ⟨x, hx, hlevel⟩
  · rintro (⟨x, hx, hlevel⟩ | ⟨x, hx, hlevel⟩)
    · exact ⟨x, .inl hx, hlevel⟩
    · exact ⟨x, .inr hx, hlevel⟩

/-- After steps without warnings only the others count. -/
theorem of_quiet (h : s.Warns s' False) (h' : s'.Warns s'' p) : s.Warns s'' p :=
  (h.trans h').congr (by rw [false_or])

end Session.Warns

namespace SessionM

variable {α β : Type} {act : SessionM α} {s : Session} {p q : Prop}

/-- Begun in `s`, the computation logs no warnings if it answers.  If it is refused, it does so if
and only if `p`. -/
structure Reports (act : SessionM α) (s : Session) (p : Prop) : Prop where
  /-- No warnings come with an answer. -/
  quiet : ∀ a s', act s = .ok a s' → s.Warns s' False
  /-- They come with an error, if and only if `p`. -/
  alarm : ∀ e s', act s = .error (.failed e) s' → s.Warns s' p

namespace Reports

theorem pure (a : α) : Reports (Pure.pure a) s p := by
  constructor
  · rintro _ _ ⟨⟩
    exact .of_log_eq rfl
  · rintro _ _ ⟨⟩

theorem note {r : Record} (hr : r.level ≠ .warn) : Reports (SessionM.note r) s p := by
  constructor
  · rintro _ _ ⟨⟩
    exact (Session.Warns.push rfl r).congr (iff_false_intro hr)
  · rintro _ _ ⟨⟩

theorem trace {r : Record} (hr : r.level = .trace) : Reports (SessionM.note r) s p :=
  .note (by simp [hr])

theorem edit (change : Heap → Except Fault (α × Heap)) : Reports (SessionM.edit change) s p := by
  constructor
  · intro a s' h
    obtain ⟨heap, -, rfl⟩ := of_edit h
    exact .of_log_eq rfl
  · intro e s' h
    exact absurd h (Unfailing.edit change s e s')

theorem alter (change : Heap → Except Fault Heap) : Reports (SessionM.alter change) s p := .edit _

theorem ask (query : Heap → Except Fault α) : Reports (SessionM.ask query) s p := by
  constructor
  · intro a s' h
    obtain ⟨rfl, -⟩ := of_ask h
    exact .of_log_eq rfl
  · intro e s' h
    exact absurd h (Unfailing.ask query s e s')

theorem calculate (result : Except Fault α) : Reports (SessionM.calculate result) s p := .ask _

theorem fail (e : HeapError) : Reports (SessionM.fail e : SessionM α) s False := by
  constructor
  · rintro _ _ ⟨⟩
  · rintro _ _ ⟨⟩
    exact .of_log_eq rfl

theorem growArena (n : Nat) : Reports (SessionM.growArena n) s False := by
  constructor
  · intro a s' h
    obtain ⟨arena, -, rfl⟩ := of_growArena h
    exact .of_log_eq rfl
  · intro e s' h
    unfold SessionM.growArena at h
    split at h <;> cases h
    exact .of_log_eq rfl

theorem congr (h : Reports act s p) (hpq : p ↔ q) : Reports act s q :=
  ⟨h.quiet, fun e s' hrun => (h.alarm e s' hrun).congr hpq⟩

theorem bind {f : α → SessionM β} (h : Reports act s p)
    (hf : ∀ a s', act s = .ok a s' → Reports (f a) s' p) : Reports (act >>= f) s p := by
  constructor
  · intro b s' hrun
    obtain ⟨a, s₁, ha, hb⟩ := ok_of_bind hrun
    exact (h.quiet a s₁ ha).of_quiet ((hf a s₁ ha).quiet b s' hb)
  · intro e s' hrun
    rcases failed_of_bind hrun with hrun | ⟨a, s₁, ha, hrun⟩
    · exact h.alarm e s' hrun
    · exact (h.quiet a s₁ ha).of_quiet ((hf a s₁ ha).alarm e s' hrun)

theorem of_get {f : Session → SessionM β} (h : Reports (f s) s p) : Reports (get >>= f) s p :=
  ⟨h.quiet, h.alarm⟩

/-- A note of the error makes sure that there is a warning, whatever the computation logs. -/
theorem noteError {record : HeapError → Record} (h : Reports act s q)
    (hrecord : ∀ e, (record e).level = .warn) (hp : p) :
    Reports (SessionM.noteError act record) s p := by
  constructor
  · intro a s' hrun
    exact h.quiet a s' (of_noteError hrun)
  · intro e s' hrun
    unfold SessionM.noteError at hrun
    split at hrun
    · rename_i e s₁ hact
      cases hrun
      exact ((h.alarm e s₁ hact).trans (.push rfl (record e))).congr
        (iff_of_true (.inr (hrecord e)) hp)
    · rename_i hact
      exact absurd hrun (hact e s')

end Reports

end SessionM

open SessionM

section Requests

variable {s : Session} {p : Prop} {size : Nat}

/-! ### What may not be refused -/

theorem reports_mergeBlock (block : Nat) : Reports (mergeBlock block) s p :=
  (Reports.edit _).bind fun _ _ _ => (Reports.trace rfl).bind fun _ _ _ => .pure _

theorem reports_carveBlock (block total need node : Nat) :
    Reports (carveBlock block total need node) s p :=
  (Reports.edit _).bind fun _ _ _ => .trace rfl

theorem reports_occupy (block need : Nat) : Reports (occupy block need) s p :=
  (Reports.ask _).bind fun _ _ _ => reports_carveBlock _ _ _ _

theorem reports_releaseBlock (q : Pointer) : Reports (releaseBlock q) s p :=
  (Reports.calculate _).bind fun block _ _ => (Reports.ask _).bind fun _ _ _ =>
    (Reports.alter _).bind fun _ _ _ => (reports_mergeBlock block).bind fun _ _ _ => .trace rfl

theorem reports_release (q : Option Pointer) : Reports (release q) s p := by
  cases q with
  | none => exact .pure _
  | some q => exact reports_releaseBlock q

theorem reports_shrink (block oldSize need size : Nat) :
    Reports (shrink block oldSize need size) s p := by
  refine .of_get ?_
  split
  · exact (Reports.edit _).bind fun rest _ _ =>
      (reports_mergeBlock rest).bind fun _ _ _ => .trace rfl
  · exact .trace rfl

theorem reports_afterGrowth (offset size : Nat) : Reports (afterGrowth offset size) s p :=
  (Reports.edit _).bind fun block _ _ => (Reports.note (by simp [Record.level])).bind fun _ _ _ =>
    reports_mergeBlock block

/-! ### What may be refused -/

/-- The arena's own refusal is logged, unlike that of a heap which would become too large. -/
theorem reports_growFor (need : Nat) :
    Reports (growFor need) s (growthFor? s.heap need).isSome := by
  refine .of_get ?_
  cases growthFor? s.heap need with
  | none => exact (Reports.fail _).congr (by simp)
  | some size =>
    exact ((Reports.growArena size).noteError (fun _ => rfl) rfl).bind fun offset _ _ =>
      reports_afterGrowth offset size

theorem reports_blockSize (hpos : size ≠ 0) :
    Reports (blockSize size) s (¬ s.heap.layout.Oversized size) := by
  constructor
  · intro need s' h
    obtain ⟨rfl, -⟩ := blockSize_ok h
    exact .of_log_eq rfl
  · intro e s' h
    have hover := oversized_of_blockSize hpos h
    cases (blockSize_oversized hover).symm.trans h
    exact (Session.Warns.of_log_eq rfl).congr (iff_of_false id (not_not.2 hover))

theorem reports_allocate (size : Nat) :
    Reports (allocate size) s (¬ s.heap.layout.Oversized size) := by
  unfold allocate
  by_cases hpos : size = 0
  · rw [if_pos hpos]
    exact .pure _
  rw [if_neg hpos]
  -- the size of the block is refused before anything could be noted
  refine (reports_blockSize hpos).bind fun need s₁ hneed => ?_
  obtain ⟨rfl, hfor, hle⟩ := blockSize_ok hneed
  have hfits : ¬ s₁.heap.layout.Oversized size := by
    intro hover
    exact absurd (hover.2 need hfor) (Nat.not_lt.2 hle)
  refine (Reports.ask _).bind fun fit _ _ => ?_
  cases fit with
  | some block =>
    exact (reports_occupy block need).bind fun _ _ _ =>
      (Reports.trace rfl).bind fun _ _ _ => .pure _
  | none =>
    exact ((reports_growFor need).noteError (fun _ => rfl) hfits).bind fun block _ _ =>
      (reports_occupy block need).bind fun _ _ _ =>
        (Reports.trace rfl).bind fun _ _ _ => .pure _

theorem reports_moveBlock (q : Pointer) (block oldSize size : Nat) :
    Reports (moveBlock q block oldSize size) s (¬ s.heap.layout.Oversized size) := by
  refine (reports_allocate size).bind fun r _ _ => ?_
  cases r with
  | none => exact .pure _
  | some _ =>
    exact (Reports.calculate _).bind fun _ _ _ => (Reports.alter _).bind fun _ _ _ =>
      (reports_releaseBlock q).bind fun _ _ _ => (Reports.calculate _).bind fun _ _ _ =>
        (Reports.trace rfl).bind fun _ _ _ => .pure _

theorem reports_resizeBlock (q : Pointer) (hpos : size ≠ 0) :
    Reports (resizeBlock q size) s (¬ s.heap.layout.Oversized size) := by
  refine (reports_blockSize hpos).bind fun need s₁ hneed => ?_
  obtain ⟨rfl, -⟩ := blockSize_ok hneed
  refine (Reports.calculate _).bind fun block s₂ hblock => ?_
  obtain ⟨rfl, -⟩ := of_ask hblock
  refine (Reports.ask _).bind fun t s₃ ht => ?_
  obtain ⟨rfl, -⟩ := of_ask ht
  dsimp only
  split
  · exact .pure _
  split
  · exact (reports_shrink _ _ _ _).bind fun _ _ _ => .pure _
  refine (Reports.ask _).bind fun room s₄ hroom => ?_
  obtain ⟨rfl, -⟩ := of_ask hroom
  cases room with
  | some room =>
    exact (reports_carveBlock _ _ _ _).bind fun _ _ _ =>
      (Reports.trace rfl).bind fun _ _ _ => .pure _
  | none => exact reports_moveBlock _ _ _ _

theorem reports_resize (q : Option Pointer) (size : Nat) :
    Reports (resize q size) s (¬ s.heap.layout.Oversized size) := by
  unfold resize
  by_cases hpos : size = 0
  · rw [if_pos hpos]
    exact (reports_release q).bind fun _ _ _ => .pure _
  rw [if_neg hpos]
  cases q with
  | none => exact reports_allocate size
  | some q => exact reports_resizeBlock q hpos

theorem reports_allocateCleared (bytes : Nat) :
    Reports (allocateCleared bytes) s (¬ s.heap.layout.Oversized bytes) := by
  refine (reports_allocate bytes).bind fun r _ _ => ?_
  cases r with
  | none => exact .pure _
  | some q => exact (Reports.alter _).bind fun _ _ _ => .pure _

end Requests

/-! ### Actions -/

/-- The number of bytes asked for does not fit the address space. -/
def Action.Wraps : Action → Prop
  | .zeroAllocate count size => Address.space ≤ count * size
  | _ => False

/-- Any action but a request for cleared memory that wraps. -/
theorem Action.reports_perform {a : Action} {s : Session} (ha : ¬ a.Wraps) :
    Reports a.perform s (¬ s.heap.layout.Oversized a.requested) := by
  cases a with
  | allocate size => exact reports_allocate size
  | zeroAllocate count size =>
    rw [Action.perform, zeroAllocate_of_lt (Nat.not_le.1 ha)]
    exact reports_allocateCleared _
  | resize q size => exact reports_resize q size
  | release q => exact (reports_release q).bind fun _ _ _ => .pure _
  | write q count byte => exact (Reports.alter _).bind fun _ _ _ => .pure _
  | raiseBreak n => exact (Reports.alter _).bind fun _ _ _ => .pure _

/-- One that wraps says so before anything else. -/
theorem Action.warns_of_wraps {a : Action} {s s' : Session} (ha : a.Wraps)
    (hrun : (∃ r, a.perform s = .ok r s') ∨ ∃ e, a.perform s = .error (.failed e) s') :
    s.Warns s' True := by
  cases a with
  | zeroAllocate count size =>
    have hnote := Session.Warns.push (s := s) rfl (.productWrapped count size)
    have hrest := reports_allocateCleared (count * size % Address.space)
      (s := { s with log := s.log.push (.productWrapped count size) })
    rw [Action.perform, zeroAllocate_of_le ha] at hrun
    rcases hrun with ⟨r, hrun⟩ | ⟨e, hrun⟩
    · exact (hnote.trans (hrest.quiet r s' hrun)).congr (iff_of_true (.inl rfl) trivial)
    · exact (hnote.trans (hrest.alarm e s' hrun)).congr (iff_of_true (.inl rfl) trivial)
  | allocate | resize | release | write | raiseBreak => cases ha

namespace Client

variable {c c' : Client} {a : Action} {r : Except HeapError (Option Pointer)}

/-- **Warnings are logged for two reasons**: the product of a request for cleared memory wraps, or
the memory for a block that may be had is refused. -/
theorem act_warns_iff (hact : c.act a = .ok (r, c')) :
    c.session.Warns c'.session (a.Wraps ∨
      (∃ n, r = .error (.outOfMemory n)) ∧ ¬ c.heap.layout.Oversized a.requested) := by
  cases r with
  | ok p =>
    have hrun := (live_of_act hact).1
    by_cases ha : a.Wraps
    · exact (Action.warns_of_wraps ha (.inl ⟨p, hrun⟩)).congr (iff_of_true trivial (.inl ha))
    · exact ((Action.reports_perform ha).quiet p _ hrun).congr (by simp [ha])
  | error e =>
    have hrun := (error_of_act hact).1
    obtain ⟨⟨n, rfl⟩, -⟩ := a.atomic_perform _ _ _ hrun
    by_cases ha : a.Wraps
    · exact (Action.warns_of_wraps ha (.inr ⟨_, hrun⟩)).congr (iff_of_true trivial (.inl ha))
    · exact ((Action.reports_perform ha).alarm _ _ hrun).congr (by simp [ha, heap])

/-- A buffer of 64 bytes has room for one block, and the second one is refused with a warning. -/
theorem act_warns_iff_ofFullBuffer : ∃ c c' n, Reachable {} (.ofLimit 64) c ∧
    c.act (.allocate 8) = .ok (.error (.outOfMemory n), c') ∧
    c.session.Warns c'.session True := by
  obtain ⟨c, hc, hsees⟩ := exists_reachable {} (.ofLimit 64) [.allocate 8]
    (fun c => c.heap.layout.blockSizeFor? 8 = some 16 ∧
      (c.act (.allocate 8)).toOption.any fun x => x.1.toOption = none) (by decide +kernel)
  obtain ⟨hfor, hrefused⟩ := of_decide_eq_true hsees
  obtain ⟨⟨r, c'⟩, hsome, hr⟩ := (Option.any_eq_true _ _).1 hrefused
  have hact := ok_of_toOption hsome
  cases r with
  | ok p => cases of_decide_eq_true hr
  | error e =>
    obtain ⟨⟨n, rfl⟩, -⟩ := act_refused hact
    have hfits : ¬ c.heap.layout.Oversized 8 := by
      intro hover
      exact absurd (hover.2 16 hfor) (by decide)
    exact ⟨c, c', n, hc, hact, (act_warns_iff hact).congr
      (iff_of_true (.inr ⟨⟨n, rfl⟩, hfits⟩) trivial)⟩

/-- A request for all bytes of the address space but one is out of memory, and nothing is logged. -/
theorem act_warns_ofOversized : ∃ c c' n, Reachable {} (.ofLimit 64) c ∧
    c.act (.allocate (2 ^ 64 - 1)) = .ok (.error (.outOfMemory n), c') ∧
    c'.session.log = c.session.log := by
  obtain ⟨c, hc, hsees⟩ := exists_reachable {} (.ofLimit 64) []
    (fun c => (c.act (.allocate (2 ^ 64 - 1))).toOption.any fun x =>
      x.1.toOption = none ∧ x.2.session.log = c.session.log) (by decide +kernel)
  obtain ⟨⟨r, c'⟩, hsome, hr⟩ := (Option.any_eq_true _ _).1 hsees
  obtain ⟨hrefused, hlog⟩ := of_decide_eq_true hr
  have hact := ok_of_toOption hsome
  cases r with
  | ok p => cases hrefused
  | error e =>
    obtain ⟨⟨n, rfl⟩, -⟩ := act_refused hact
    exact ⟨c, c', n, hc, hact, hlog⟩

end Client

end TaggedHeap
