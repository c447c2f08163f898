import TaggedHeap.Proofs.Refusal
import TaggedHeap.Proofs.Shift

/-!
# Requests to heaps that lie apart

Computations on sessions are compared like the steps they consist of: carried out on heaps that
are shifted, they leave shifted heaps and give corresponding answers, whenever both answer
(`SessionM.Translates`).  All requests do (`Action.translates_perform`).

Where a request does not answer a pointer but an error, it needs new bytes, or it asks for more
than any block may have (`Action.failed_cases`); then it is refused wherever the heap lies
(`Action.perform_oversized`).
-/

namespace TaggedHeap

namespace SessionM

variable {α β γ δ : Type} {d : Nat} {R : α → β → Prop} {Q : γ → δ → Prop} {s s' : Session}

theorem ok_of_bind {act : SessionM α} {f : α → SessionM γ} {c : γ}
    (h : (act >>= f) s = .ok c s') : ∃ a s₁, act s = .ok a s₁ ∧ f a s₁ = .ok c s' := by
  cases hact : act s with
  | ok a s₁ => exact ⟨a, s₁, rfl, (bind_ok hact).symm.trans h⟩
  | error e s₁ => cases (bind_error hact).symm.trans h

/-- Either part of a computation may be the one that ends with an error. -/
theorem failed_of_bind {act : SessionM α} {f : α → SessionM γ} {e : HeapError}
    (h : (act >>= f) s = .error (.failed e) s') : act s = .error (.failed e) s' ∨
      ∃ a s₁, act s = .ok a s₁ ∧ f a s₁ = .error (.failed e) s' := by
  cases hact : act s with
  | ok a s₁ => exact .inr ⟨a, s₁, rfl, (bind_ok hact).symm.trans h⟩
  | error e' s₁ =>
    cases (bind_error hact).symm.trans h
    exact .inl rfl

theorem of_edit {change : Heap → Except Fault (α × Heap)} {a : α} (h : edit change s = .ok a s') :
    ∃ heap, change s.heap = .ok (a, heap) ∧ s' = { s with heap } := by
  unfold edit at h
  split at h
  · rename_i hchange
    cases h
    exact ⟨_, hchange, rfl⟩
  · cases h

theorem of_growArena {n offset : Nat} (h : growArena n s = .ok offset s') :
    ∃ arena, Arena.grow n s.heap.arena = .ok offset arena ∧
      s' = { s with heap := { s.heap with arena } } := by
  unfold growArena at h
  split at h
  · rename_i hgrow
    cases h
    exact ⟨_, hgrow, rfl⟩
  · cases h

/-- Carried out on heaps that lie `d` bytes apart, the computations answer related results and leave
heaps that lie `d` bytes apart, whenever both answer. -/
def Translates (d : Nat) (R : α → β → Prop) (act : SessionM α) (act' : SessionM β) : Prop :=
  ∀ s t, s.heap.Shifted d t.heap → ∀ a s' b t', act s = .ok a s' → act' t = .ok b t' →
    R a b ∧ s'.heap.Shifted d t'.heap

namespace Translates

variable {act : SessionM α} {act' : SessionM β} {f : α → SessionM γ} {f' : β → SessionM δ}

theorem pure {a : α} {b : β} (h : R a b) : Translates d R (Pure.pure a) (Pure.pure b) := by
  rintro s t hs _ _ _ _ ⟨⟩ ⟨⟩
  exact ⟨h, hs⟩

theorem fail_left (e : HeapError) : Translates d R (fail e) act' := by
  rintro s t hs _ _ _ _ ⟨⟩

theorem fail_right (e : HeapError) : Translates d R act (fail e) := by
  rintro s t hs _ _ _ _ - ⟨⟩

theorem note (r r' : Record) : Translates d (fun _ _ => True) (note r) (note r') := by
  rintro s t hs _ _ _ _ ⟨⟩ ⟨⟩
  exact ⟨trivial, hs⟩

theorem ask {query : Heap → Except Fault α} {query' : Heap → Except Fault β}
    (h : ∀ g g' : Heap, g.Shifted d g' → Agree R (query g) (query' g')) :
    Translates d R (SessionM.ask query) (SessionM.ask query') := by
  intro s t hs a s' b t' ha hb
  obtain ⟨rfl, ha⟩ := of_ask ha
  obtain ⟨rfl, hb⟩ := of_ask hb
  exact ⟨h _ _ hs a b ha hb, hs⟩

theorem calculate {result : Except Fault α} {result' : Except Fault β}
    (h : Agree R result result') :
    Translates d R (SessionM.calculate result) (SessionM.calculate result') := .ask fun _ _ _ => h

theorem edit {change : Heap → Except Fault (α × Heap)} {change' : Heap → Except Fault (β × Heap)}
    (h : ∀ g g' : Heap, g.Shifted d g' →
      Agree (fun r r' => R r.1 r'.1 ∧ r.2.Shifted d r'.2) (change g) (change' g')) :
    Translates d R (SessionM.edit change) (SessionM.edit change') := by
  intro s t hs a s' b t' ha hb
  obtain ⟨g, hrun, rfl⟩ := of_edit ha
  obtain ⟨g', hrun', rfl⟩ := of_edit hb
  exact h _ _ hs _ _ hrun hrun'

theorem alter {change change' : Heap → Except Fault Heap}
    (h : ∀ g g' : Heap, g.Shifted d g' → Agree (Heap.Shifted d) (change g) (change' g')) :
    Translates d (fun _ _ => True) (SessionM.alter change) (SessionM.alter change') :=
  .edit fun g g' hg => (h g g' hg).bind fun _ _ hk => .pure ⟨trivial, hk⟩

theorem bind (h : Translates d R act act')
    (hf : ∀ a b, R a b → Translates d Q (f a) (f' b)) :
    Translates d Q (act >>= f) (act' >>= f') := by
  intro s t hs c s' c' t' hc hc'
  obtain ⟨a, s₁, ha, hc⟩ := ok_of_bind hc
  obtain ⟨b, t₁, hb, hc'⟩ := ok_of_bind hc'
  obtain ⟨hab, hs₁⟩ := h s t hs a s₁ b t₁ ha hb
  exact hf a b hab s₁ t₁ hs₁ c s' c' t' hc hc'

theorem of_get {f : Session → SessionM α} {f' : Session → SessionM β}
    (h : ∀ s t : Session, s.heap.Shifted d t.heap → Translates d R (f s) (f' t)) :
    Translates d R (get >>= f) (get >>= f') := fun s t hs => h s t hs s t hs

theorem noteError {record record' : HeapError → Record} (h : Translates d R act act') :
    Translates d R (noteError act record) (noteError act' record') :=
  fun s t hs a s' b t' ha hb => h s t hs a s' b t' (of_noteError ha) (of_noteError hb)

theorem growArena (n : Nat) :
    Translates d (fun x y => y = x + d) (growArena n) (growArena n) := by
  intro s t hs x s' y t' hx hy
  obtain ⟨a, hgrow, rfl⟩ := of_growArena hx
  obtain ⟨b, hgrow', rfl⟩ := of_growArena hy
  obtain ⟨rfl, hab⟩ := hs.arena.grow hgrow hgrow'
  exact ⟨rfl, hs.of_arena hab⟩

end Translates

end SessionM

open Heap SessionM

variable {d : Nat}

/-! ### Blocks -/

theorem translates_mergeBlock (block : Nat) : Translates d (fun m n => n = m + d)
    (mergeBlock block) (mergeBlock (block + d)) :=
  (Translates.edit (R := fun r r' => r'.block = r.block + d) fun _ _ hs => hs.merge block).bind
    fun _ _ hr => (Translates.note _ _).bind fun _ _ _ => .pure hr

theorem translates_carveBlock (block total need node : Nat) : Translates d (fun _ _ => True)
    (carveBlock block total need node) (carveBlock (block + d) total need (node + d)) :=
  (Translates.edit (R := fun _ _ => True) fun _ _ hs =>
    (hs.carve block total need node).mono fun _ _ hr => ⟨trivial, hr⟩).bind
      fun _ _ _ => .note _ _

theorem translates_occupy (block need : Nat) : Translates d (fun _ _ => True)
    (occupy block need) (occupy (block + d) need) := by
  refine (Translates.ask fun _ _ hs => hs.tag (.refl d block)).bind ?_
  rintro t _ ⟨rfl, -⟩
  exact translates_carveBlock _ _ _ _

theorem translates_releaseBlock (p : Pointer) : Translates d (fun _ _ => True)
    (releaseBlock p) (releaseBlock (p.shift d)) := by
  refine (Translates.calculate (p.agree_header d)).bind ?_
  rintro block _ rfl
  refine (Translates.ask fun _ _ hs => hs.tag (.refl d block)).bind ?_
  rintro t _ ⟨rfl, -⟩
  refine (Translates.alter fun _ _ hs => hs.setTags block t.size false).bind fun _ _ _ => ?_
  exact (translates_mergeBlock block).bind fun _ _ _ => .note _ _

theorem translates_release (p : Option Pointer) : Translates d (fun _ _ => True)
    (release p) (release (p.map (Pointer.shift d))) := by
  cases p with
  | none => exact .pure trivial
  | some p => exact translates_releaseBlock p

theorem translates_shrink (block oldSize need size : Nat) : Translates d (fun _ _ => True)
    (shrink block oldSize need size) (shrink (block + d) oldSize need size) := by
  refine .of_get fun s t hs => ?_
  rw [hs.layout_eq]
  split
  · refine (Translates.edit (R := fun m n => n = m + d) fun _ _ hs =>
      hs.cutDown block oldSize need).bind ?_
    rintro rest _ rfl
    exact (translates_mergeBlock rest).bind fun _ _ _ => .note _ _
  · exact .note _ _

/-! ### Growing -/

theorem translates_afterGrowth (offset size : Nat) : Translates d (fun m n => n = m + d)
    (afterGrowth offset size) (afterGrowth (offset + d) size) := by
  refine (Translates.edit (R := fun m n => n = m + d) fun _ _ hs =>
    hs.addTopBlock offset size).bind ?_
  rintro block _ rfl
  exact (Translates.note _ _).bind fun _ _ _ => translates_mergeBlock block

/-- How much a heap grows by does not depend on where it lies, but whether it may does. -/
theorem growthFor?_inj {h h' : Heap} {need m n : Nat} (hlayout : h'.layout = h.layout)
    (hm : growthFor? h need = some m) (hn : growthFor? h' need = some n) : m = n := by
  rw [growthFor?, Option.filter_eq_some_iff] at hm hn
  rw [hlayout] at hn
  exact Option.some.inj (hm.1.symm.trans hn.1)

theorem translates_growFor (need : Nat) : Translates d (fun m n => n = m + d)
    (growFor need) (growFor need) := by
  refine .of_get fun s t hs => ?_
  cases hm : growthFor? s.heap need with
  -- the cap on the arena may be met on one side only
  | none => exact .fail_left _
  | some m =>
    cases hn : growthFor? t.heap need with
    | none => exact .fail_right _
    | some n =>
      obtain rfl := growthFor?_inj hs.layout_eq hm hn
      refine (Translates.growArena m).noteError.bind ?_
      rintro offset _ rfl
      exact translates_afterGrowth offset m

/-! ### Requests -/

theorem translates_blockSize (size : Nat) :
    Translates d Eq (blockSize size) (blockSize size) := by
  refine .of_get fun s t hs => ?_
  rw [hs.layout_eq]
  cases s.heap.layout.blockSizeFor? size with
  | none => exact .fail_left _
  | some need =>
    by_cases hle : need ≤ maxTagged
    · simp only [if_pos hle]
      exact .pure rfl
    · simp only [if_neg hle]
      exact .fail_left _

/-- The answers are no pointer, or pointers that lie `d` bytes apart. -/
def PointerShifted (d : Nat) (r r' : Option Pointer) : Prop := r' = r.map (Pointer.shift d)

theorem translates_allocate (size : Nat) :
    Translates d (PointerShifted d) (allocate size) (allocate size) := by
  unfold allocate
  split
  · exact .pure rfl
  refine (translates_blockSize size).bind ?_
  rintro need _ rfl
  refine (Translates.ask fun _ _ hs => hs.bestFit? need).bind ?_
  -- a block is taken alike, whether it was found or has been added
  have hserve : ∀ block origin, Translates d (PointerShifted d)
      (do occupy block need; note (.allocated size block origin); return some (.ofHeader block))
      (do
        occupy (block + d) need
        note (.allocated size (block + d) origin)
        return some (.ofHeader (block + d))) := fun block origin =>
    (translates_occupy block need).bind fun _ _ _ => (Translates.note _ _).bind fun _ _ _ =>
      .pure (congrArg some (Pointer.shift_ofHeader d block).symm)
  rintro fit _ rfl
  cases fit with
  | some block => exact hserve block .reused
  | none =>
    refine (translates_growFor need).noteError.bind ?_
    rintro block _ rfl
    exact hserve block .grown

theorem translates_moveBlock (p : Pointer) (block oldSize size : Nat) :
    Translates d (PointerShifted d) (moveBlock p block oldSize size)
      (moveBlock (p.shift d) (block + d) oldSize size) := by
  refine (translates_allocate size).bind ?_
  rintro r _ rfl
  cases r with
  | none => exact .pure rfl
  | some q =>
    refine (Translates.calculate (Agree.same (Address.sub oldSize overhead))).bind ?_
    rintro room _ rfl
    refine (Translates.alter fun _ _ hs =>
      hs.copyBytes p.offset q.offset (min room size)).bind fun _ _ _ => ?_
    refine (translates_releaseBlock p).bind fun _ _ _ => ?_
    exact (Translates.calculate (q.agree_header d)).bind fun _ _ _ =>
      (Translates.note _ _).bind fun _ _ _ => .pure rfl

theorem translates_resizeBlock (p : Pointer) (size : Nat) :
    Translates d (PointerShifted d) (resizeBlock p size) (resizeBlock (p.shift d) size) := by
  refine (translates_blockSize size).bind ?_
  rintro need _ rfl
  refine (Translates.calculate (p.agree_header d)).bind ?_
  rintro block _ rfl
  refine (Translates.ask fun _ _ hs => hs.tag (.refl d block)).bind ?_
  rintro t _ ⟨rfl, -⟩
  dsimp only
  split
  · exact .pure rfl
  split
  · exact (translates_shrink block t.size need size).bind fun _ _ _ => .pure rfl
  refine (Translates.ask fun _ _ hs => hs.roomAbove? block t.size need).bind ?_
  rintro room _ rfl
  cases room with
  | none => exact translates_moveBlock p block t.size size
  | some room =>
    exact (translates_carveBlock block room.2 need room.1).bind fun _ _ _ =>
      (Translates.note _ _).bind fun _ _ _ => .pure rfl

theorem translates_resize (p : Option Pointer) (size : Nat) :
    Translates d (PointerShifted d) (resize p size) (resize (p.map (Pointer.shift d)) size) := by
  unfold resize
  split
  · exact (translates_release p).bind fun _ _ _ => .pure rfl
  · cases p with
    | none => exact translates_allocate size
    | some p => exact translates_resizeBlock p size

theorem translates_zeroAllocate (count size : Nat) :
    Translates d (PointerShifted d) (zeroAllocate count size) (zeroAllocate count size) := by
  have hclear : ∀ bytes, Translates d (PointerShifted d) (allocateCleared bytes)
      (allocateCleared bytes) := by
    intro bytes
    refine (translates_allocate bytes).bind ?_
    rintro r _ rfl
    cases r with
    | none => exact .pure rfl
    | some p =>
      exact (Translates.alter fun _ _ hs => hs.setPayload p bytes _).bind fun _ _ _ => .pure rfl
  unfold zeroAllocate
  split
  · exact (Translates.note _ _).bind fun _ _ _ => hclear _
  · exact hclear _

/-- The action with all pointers `d` bytes further up. -/
def Action.shift (d : Nat) : Action → Action
  | .resize p size => .resize (p.map (Pointer.shift d)) size
  | .release p => .release (p.map (Pointer.shift d))
  | .write p count byte => .write (p.shift d) count byte
  | a => a

/-- **Actions answer alike wherever the heap lies.** -/
theorem Action.translates_perform (d : Nat) (a : Action) :
    Translates d (PointerShifted d) a.perform (a.shift d).perform := by
  cases a with
  | allocate size => exact translates_allocate size
  | zeroAllocate count size => exact translates_zeroAllocate count size
  | resize p size => exact translates_resize p size
  | release p => exact (translates_release p).bind fun _ _ _ => .pure rfl
  | write p count byte =>
    exact (Translates.alter fun _ _ hs => hs.setPayload p count byte).bind fun _ _ _ => .pure rfl
  | raiseBreak n =>
    refine (Translates.alter fun g g' hs => ?_).bind fun _ _ _ => .pure rfl
    exact .pure (hs.of_stays (g.stays_raiseBreak n) (g'.stays_raiseBreak n)
      ⟨hs.arena.blank.1.raiseBreak n, hs.arena.blank.2.raiseBreak n⟩)

/-! ### Refusals -/

/-- Bytes are asked for, and no block may have room for that many. -/
def Layout.Oversized (l : Layout) (size : Nat) : Prop :=
  size ≠ 0 ∧ ∀ need, l.blockSizeFor? size = some need → maxTagged < need

section Refusals

variable {s s' : Session} {size : Nat} {e : HeapError}

theorem blockSize_oversized (h : s.heap.layout.Oversized size) :
    blockSize size s = .error (.failed (.outOfMemory size)) s := by
  rw [blockSize, get_bind]
  cases hfor : s.heap.layout.blockSizeFor? size with
  | none => rfl
  | some need =>
    simp only [if_neg (Nat.not_le.2 (h.2 need hfor))]
    rfl

theorem oversized_of_blockSize (hpos : size ≠ 0)
    (h : blockSize size s = .error (.failed e) s') : s.heap.layout.Oversized size := by
  refine ⟨hpos, fun need hfor => ?_⟩
  by_contra hle
  simp only [blockSize, get_bind, hfor, if_pos (Nat.not_lt.1 hle)] at h
  cases h

theorem allocate_failed (h : allocate size s = .error (.failed e) s') :
    s.heap.NeedsGrowth none size ∨ s.heap.layout.Oversized size := by
  unfold allocate at h
  by_cases hpos : size = 0
  · rw [if_pos hpos] at h
    cases h
  rw [if_neg hpos] at h
  rcases failed_of_bind h with h | ⟨need, s₁, hneed, h₁⟩
  · exact .inr (oversized_of_blockSize hpos h)
  obtain ⟨rfl, hfor, hle⟩ := blockSize_ok hneed
  rcases failed_of_bind h₁ with h₁ | ⟨fit, s₂, hfit, h₂⟩
  · exact absurd h₁ (Unfailing.ask _ _ _ _)
  obtain ⟨rfl, hfit⟩ := of_ask hfit
  cases fit with
  | none => exact .inl ⟨hpos, need, hfor, hle, hfit, by simp⟩
  | some block =>
    exact absurd h₂ (((unfailing_occupy block need).bind fun _ => (Unfailing.note _).bind fun _ =>
      .pure _) _ _ _)

theorem moveBlock_failed {p : Pointer} {block oldSize : Nat}
    (h : moveBlock p block oldSize size s = .error (.failed e) s') :
    s.heap.NeedsGrowth none size ∨ s.heap.layout.Oversized size := by
  rcases failed_of_bind h with h | ⟨r, s₁, -, h₁⟩
  · exact allocate_failed h
  cases r with
  | none => cases h₁
  | some q =>
    exact absurd h₁ (((Unfailing.calculate _).bind fun _ => (Unfailing.alter _).bind fun _ =>
      (unfailing_releaseBlock p).bind fun _ => (Unfailing.calculate _).bind fun _ =>
        (Unfailing.note _).bind fun _ => .pure _) _ _ _)

theorem resizeBlock_failed {p : Pointer} (hpos : size ≠ 0)
    (h : resizeBlock p size s = .error (.failed e) s') :
    s.heap.NeedsGrowth (some p) size ∨ s.heap.layout.Oversized size := by
  rcases failed_of_bind h with h | ⟨need, s₁, hneed, h₁⟩
  · exact .inr (oversized_of_blockSize hpos h)
  obtain ⟨rfl, hfor, hle⟩ := blockSize_ok hneed
  rcases failed_of_bind h₁ with h₁ | ⟨block, s₂, hblock, h₂⟩
  · exact absurd h₁ (Unfailing.calculate _ _ _ _)
  obtain ⟨rfl, hheader⟩ := of_ask hblock
  rcases failed_of_bind h₂ with h₂ | ⟨t, s₃, ht, h₃⟩
  · exact absurd h₂ (Unfailing.ask _ _ _ _)
  obtain ⟨rfl, ht⟩ := of_ask ht
  dsimp only at h₃
  split at h₃
  · cases h₃
  split at h₃
  · exact absurd h₃ (((unfailing_shrink _ _ _ _).bind fun _ => .pure _) _ _ _)
  rcases failed_of_bind h₃ with h₃ | ⟨room, s₄, hroom, h₄⟩
  · exact absurd h₃ (Unfailing.ask _ _ _ _)
  obtain ⟨rfl, hroom⟩ := of_ask hroom
  cases room with
  | some room =>
    exact absurd h₄ (((unfailing_carveBlock _ _ _ _).bind fun _ => (Unfailing.note _).bind fun _ =>
      .pure _) _ _ _)
  | none =>
    refine (moveBlock_failed h₄).imp_left ?_
    rintro ⟨-, n, hn, -, hfit, -⟩
    obtain rfl := Option.some.inj (hfor.symm.trans hn)
    refine ⟨hpos, need, hfor, hle, hfit, ?_⟩
    rintro _ ⟨⟩
    exact ⟨block, t, hheader, ht, by omega, hroom⟩

theorem resize_failed {p : Option Pointer} (h : resize p size s = .error (.failed e) s') :
    s.heap.NeedsGrowth p size ∨ s.heap.layout.Oversized size := by
  unfold resize at h
  by_cases hpos : size = 0
  · rw [if_pos hpos] at h
    exact absurd h (((unfailing_release p).bind fun _ => .pure _) _ _ _)
  rw [if_neg hpos] at h
  cases p with
  | none => exact allocate_failed h
  | some p => exact resizeBlock_failed hpos h

theorem zeroAllocate_failed {count : Nat} (h : zeroAllocate count size s = .error (.failed e) s') :
    s.heap.NeedsGrowth none (count * size % Address.space) ∨
      s.heap.layout.Oversized (count * size % Address.space) := by
  obtain ⟨log, hlog⟩ := zeroAllocate_eq count size s
  rcases failed_of_bind (hlog.symm.trans h) with h | ⟨r, s₁, -, h₁⟩
  · exact allocate_failed (s := ⟨s.heap, log⟩) h
  cases r with
  | none => cases h₁
  | some p => exact absurd h₁ (((Unfailing.alter _).bind fun _ => .pure _) _ _ _)

theorem allocate_oversized (h : s.heap.layout.Oversized size) :
    allocate size s = .error (.failed (.outOfMemory size)) s := by
  rw [allocate, if_neg h.1]
  exact bind_error (blockSize_oversized h)

theorem resize_oversized (p : Option Pointer) (h : s.heap.layout.Oversized size) :
    resize p size s = .error (.failed (.outOfMemory size)) s := by
  rw [resize.eq_def, if_neg h.1]
  cases p with
  | none => exact allocate_oversized h
  | some p => exact bind_error (blockSize_oversized h)

/-- An action answers an error if it needs new bytes, or if it asks for more than a block may
have. -/
theorem Action.failed_cases {a : Action} (h : a.perform s = .error (.failed e) s') :
    a.NeedsGrowth s.heap ∨ s.heap.layout.Oversized a.requested := by
  cases a with
  | allocate size => exact allocate_failed h
  | zeroAllocate count size => exact zeroAllocate_failed h
  | resize p size => exact resize_failed h
  | release p => exact absurd h (((unfailing_release p).bind fun _ => .pure _) _ _ _)
  | write p count byte => exact absurd h (((Unfailing.alter _).bind fun _ => .pure _) _ _ _)
  | raiseBreak n => exact absurd h (((Unfailing.alter _).bind fun _ => .pure _) _ _ _)

/-- In the second case it does so in every state. -/
theorem Action.perform_oversized {a : Action} (h : s.heap.layout.Oversized a.requested) :
    ∃ log, a.perform s = .error (.failed (.outOfMemory a.requested)) ⟨s.heap, log⟩ := by
  cases a with
  | allocate size => exact ⟨s.log, allocate_oversized h⟩
  | zeroAllocate count size =>
    obtain ⟨log, hlog⟩ := zeroAllocate_eq count size s
    exact ⟨log, hlog.trans (bind_error (allocate_oversized (s := ⟨s.heap, log⟩) h))⟩
  | resize p size => exact ⟨s.log, resize_oversized p h⟩
  | release | write | raiseBreak => exact absurd rfl h.1

end Refusals

end TaggedHeap
