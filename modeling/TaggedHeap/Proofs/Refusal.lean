import TaggedHeap.Proofs.Contract
import TaggedHeap.Proofs.Disguise

/-!
# Refused requests

A request that is refused memory has done nothing to the heap (`SessionM.Atomic`): whatever can be
refused comes before the first change, and changes are not refused (`SessionM.Unfailing`).

Only what the arena grows from may be different afterwards, and that shows in no answer that needs
no new bytes (`Client.Resembles.act`).  So a client whose request was refused goes on like one that
has not made it (`Client.act_refused`); `Client.Replies` are the answers that both are given.
-/

namespace TaggedHeap

/-- An arena that is refused bytes keeps its own. -/
theorem Arena.grow_failed {a b : Arena} {n : Nat} {e : HeapError}
    (h : Arena.grow n a = .error (.failed e) b) :
    (∃ m, e = .outOfMemory m) ∧ (∃ source, b = { a with source }) ∧ b.limit? = a.limit? := by
  obtain ⟨_, rfl, ⟨rfl, rfl⟩ | ⟨region, region', hsource, hextend, rfl⟩⟩ := grow_refused h
  · exact ⟨⟨n, rfl⟩, ⟨a.source, rfl⟩, rfl⟩
  · obtain ⟨⟨m, hm⟩, -⟩ := Region.extend_error hextend
    exact ⟨⟨m, Stop.failed.inj hm⟩, ⟨_, rfl⟩, by simp only [limit?, hsource]⟩

/-- With a buffer behind the arena, a heap that stays is the same heap. -/
theorem Heap.Stays.eq_of_limit {h h' : Heap} {limit : Nat} (hs : h.Stays h')
    (hlimit : h.arena.limit? = some limit) : h' = h := by
  have hbuffer : ∀ a : Arena, a.limit? = some limit → a.source = .buffer limit := by
    intro a ha
    unfold Arena.limit? at ha
    split at ha
    · rename_i hsource
      rw [hsource, Option.some.inj ha]
    · cases ha
  obtain ⟨⟨source, rfl⟩, hsame⟩ := hs
  obtain rfl : source = .buffer limit := hbuffer _ (hsame.trans hlimit)
  rw [← hbuffer _ hlimit]

namespace SessionM

variable {α β : Type} {act act' : SessionM α} {f : α → SessionM β}

/-- The computation answers no error, though it may fault. -/
def Unfailing (act : SessionM α) : Prop :=
  ∀ s e s', act s ≠ .error (.failed e) s'

namespace Unfailing

theorem pure (a : α) : Unfailing (Pure.pure a) := by
  rintro s e s' ⟨⟩

theorem note (r : Record) : Unfailing (SessionM.note r) := by
  rintro s e s' ⟨⟩

theorem edit (change : Heap → Except Fault (α × Heap)) : Unfailing (SessionM.edit change) := by
  intro s e s' h
  unfold SessionM.edit at h
  split at h <;> cases h

theorem alter (change : Heap → Except Fault Heap) : Unfailing (SessionM.alter change) := .edit _

theorem ask (query : Heap → Except Fault α) : Unfailing (SessionM.ask query) := by
  intro s e s' h
  unfold SessionM.ask at h
  split at h <;> cases h

theorem calculate (result : Except Fault α) : Unfailing (SessionM.calculate result) := .ask _

theorem bind (h : Unfailing act) (hf : ∀ a, Unfailing (f a)) : Unfailing (act >>= f) := by
  intro s e s' he
  cases hact : act s with
  | ok a s₁ =>
    rw [bind_ok hact] at he
    exact hf a _ _ _ he
  | error e₁ s₁ =>
    rw [bind_error hact] at he
    cases he
    exact h _ _ _ hact

theorem of_get {f : Session → SessionM β} (hf : ∀ s, Unfailing (f s)) : Unfailing (get >>= f) :=
  fun s => hf s s

end Unfailing

/-- The computation changes nothing but the log. -/
def Looks (act : SessionM α) : Prop :=
  ∀ s a s', act s = .ok a s' → s'.heap = s.heap

namespace Looks

theorem note (r : Record) : Looks (SessionM.note r) := by
  rintro s a s' ⟨⟩
  rfl

theorem ask (query : Heap → Except Fault α) : Looks (SessionM.ask query) := by
  intro s a s' h
  unfold SessionM.ask at h
  split at h <;> cases h
  rfl

end Looks

/-- An error that the computation answers is for want of memory, and leaves the heap as it was. -/
def Atomic (act : SessionM α) : Prop :=
  ∀ s e s', act s = .error (.failed e) s' → (∃ n, e = .outOfMemory n) ∧ s.heap.Stays s'.heap

namespace Atomic

theorem of_unfailing (h : Unfailing act) : Atomic act := fun s e s' he => absurd he (h s e s')

theorem fail (n : Nat) : Atomic (SessionM.fail (.outOfMemory n) : SessionM α) := by
  rintro s e s' ⟨⟩
  exact ⟨⟨n, rfl⟩, .refl _⟩

theorem growArena (n : Nat) : Atomic (SessionM.growArena n) := by
  intro s e s' h
  unfold SessionM.growArena at h
  split at h
  · cases h
  · rename_i hgrow
    cases h
    obtain ⟨he, ⟨source, rfl⟩, hlimit⟩ := Arena.grow_failed hgrow
    exact ⟨he, ⟨source, rfl⟩, hlimit⟩

theorem noteError {record : HeapError → Record} (h : Atomic act) :
    Atomic (SessionM.noteError act record) := by
  intro s e s' he
  obtain ⟨log, hact⟩ := failed_of_noteError he
  exact h s e ⟨s'.heap, log⟩ hact

/-- What comes before the part that can be refused may not change the heap. -/
theorem bind_looks (h : Atomic act) (hlooks : Looks act) (hf : ∀ a, Atomic (f a)) :
    Atomic (act >>= f) := by
  intro s e s' he
  cases hact : act s with
  | ok a s₁ =>
    rw [bind_ok hact] at he
    obtain ⟨hmemory, hstays⟩ := hf a _ _ _ he
    rw [hlooks _ _ _ hact] at hstays
    exact ⟨hmemory, hstays⟩
  | error e₁ s₁ =>
    rw [bind_error hact] at he
    cases he
    exact h _ _ _ hact

/-- What comes after it may not be refused. -/
theorem bind_unfailing (h : Atomic act) (hf : ∀ a, Unfailing (f a)) : Atomic (act >>= f) := by
  intro s e s' he
  cases hact : act s with
  | ok a s₁ =>
    rw [bind_ok hact] at he
    exact absurd he (hf a _ _ _)
  | error e₁ s₁ =>
    rw [bind_error hact] at he
    cases he
    exact h _ _ _ hact

theorem of_get {f : Session → SessionM β} (hf : ∀ s, Atomic (f s)) : Atomic (get >>= f) :=
  fun s => hf s s

end Atomic

end SessionM

open SessionM

/-! ### Requests are atomic -/

theorem unfailing_mergeBlock (block : Nat) : Unfailing (mergeBlock block) :=
  (Unfailing.edit _).bind fun _ => (Unfailing.note _).bind fun _ => .pure _

theorem unfailing_carveBlock (block total need node : Nat) :
    Unfailing (carveBlock block total need node) :=
  (Unfailing.edit _).bind fun _ => .note _

theorem unfailing_occupy (block need : Nat) : Unfailing (occupy block need) :=
  (Unfailing.ask _).bind fun _ => unfailing_carveBlock _ _ _ _

theorem unfailing_releaseBlock (p : Pointer) : Unfailing (releaseBlock p) :=
  (Unfailing.calculate _).bind fun block => (Unfailing.ask _).bind fun _ =>
    (Unfailing.alter _).bind fun _ => (unfailing_mergeBlock block).bind fun _ => .note _

theorem unfailing_release (p : Option Pointer) : Unfailing (release p) := by
  cases p with
  | none => exact .pure _
  | some p => exact unfailing_releaseBlock p

theorem unfailing_shrink (block oldSize need size : Nat) :
    Unfailing (shrink block oldSize need size) := by
  refine .of_get fun s => ?_
  split
  · exact (Unfailing.edit _).bind fun rest => (unfailing_mergeBlock rest).bind fun _ => .note _
  · exact .note _

theorem unfailing_afterGrowth (offset size : Nat) : Unfailing (afterGrowth offset size) :=
  (Unfailing.edit _).bind fun block => (Unfailing.note _).bind fun _ => unfailing_mergeBlock block

theorem atomic_growFor (need : Nat) : Atomic (growFor need) := by
  refine .of_get fun s => ?_
  cases growthFor? s.heap need with
  | none => exact .fail need
  | some size =>
    exact (Atomic.growArena size).noteError.bind_unfailing fun offset =>
      unfailing_afterGrowth offset size

theorem atomic_blockSize (size : Nat) : Atomic (blockSize size) := by
  refine .of_get fun s => ?_
  cases s.heap.layout.blockSizeFor? size with
  | none => exact .fail size
  | some need =>
    by_cases hle : need ≤ maxTagged
    · simp only [if_pos hle]
      exact .of_unfailing (.pure need)
    · simp only [if_neg hle]
      exact .fail size

theorem looks_blockSize (size : Nat) : Looks (blockSize size) := fun _ _ _ h =>
  congrArg Session.heap (blockSize_ok h).1

theorem atomic_allocate (size : Nat) : Atomic (allocate size) := by
  unfold allocate
  split
  · exact .of_unfailing (.pure _)
  refine (atomic_blockSize size).bind_looks (looks_blockSize size) fun need => ?_
  refine (Atomic.of_unfailing (.ask _)).bind_looks (.ask _) fun fit => ?_
  cases fit with
  | some block =>
    exact .of_unfailing ((unfailing_occupy block need).bind fun _ =>
      (Unfailing.note _).bind fun _ => .pure _)
  | none =>
    exact (atomic_growFor need).noteError.bind_unfailing fun block =>
      (unfailing_occupy block need).bind fun _ => (Unfailing.note _).bind fun _ => .pure _

theorem atomic_moveBlock (p : Pointer) (block oldSize size : Nat) :
    Atomic (moveBlock p block oldSize size) := by
  refine (atomic_allocate size).bind_unfailing fun r => ?_
  cases r with
  | none => exact .pure _
  | some q =>
    exact (Unfailing.calculate _).bind fun _ => (Unfailing.alter _).bind fun _ =>
      (unfailing_releaseBlock p).bind fun _ => (Unfailing.calculate _).bind fun _ =>
        (Unfailing.note _).bind fun _ => .pure _

theorem atomic_resizeBlock (p : Pointer) (size : Nat) : Atomic (resizeBlock p size) := by
  refine (atomic_blockSize size).bind_looks (looks_blockSize size) fun need => ?_
  refine (Atomic.of_unfailing (.calculate _)).bind_looks (.ask _) fun block => ?_
  refine (Atomic.of_unfailing (.ask _)).bind_looks (.ask _) fun t => ?_
  dsimp only
  split
  · exact .of_unfailing (.pure _)
  split
  · exact .of_unfailing ((unfailing_shrink _ _ _ _).bind fun _ => .pure _)
  refine (Atomic.of_unfailing (.ask _)).bind_looks (.ask _) fun room => ?_
  split
  · exact .of_unfailing ((unfailing_carveBlock _ _ _ _).bind fun _ =>
      (Unfailing.note _).bind fun _ => .pure _)
  · exact atomic_moveBlock _ _ _ _

theorem atomic_resize (p : Option Pointer) (size : Nat) : Atomic (resize p size) := by
  unfold resize
  split
  · exact .of_unfailing ((unfailing_release p).bind fun _ => .pure _)
  · cases p with
    | none => exact atomic_allocate size
    | some p => exact atomic_resizeBlock p size

theorem atomic_allocateCleared (bytes : Nat) : Atomic (allocateCleared bytes) := by
  refine (atomic_allocate bytes).bind_unfailing fun r => ?_
  cases r with
  | none => exact .pure _
  | some p => exact (Unfailing.alter _).bind fun _ => .pure _

theorem atomic_zeroAllocate (count size : Nat) : Atomic (zeroAllocate count size) := by
  unfold zeroAllocate
  split
  · exact (Atomic.of_unfailing (.note _)).bind_looks (.note _) fun _ =>
      atomic_allocateCleared _
  · exact atomic_allocateCleared _

theorem Action.atomic_perform (a : Action) : Atomic a.perform := by
  cases a with
  | allocate size => exact atomic_allocate size
  | zeroAllocate count size => exact atomic_zeroAllocate count size
  | resize p size => exact atomic_resize p size
  | release p => exact .of_unfailing ((unfailing_release p).bind fun _ => .pure _)
  | write p count byte => exact .of_unfailing ((Unfailing.alter _).bind fun _ => .pure _)
  | raiseBreak n => exact .of_unfailing ((Unfailing.alter _).bind fun _ => .pure _)

/-! ### Answers afterwards -/

/-- The action is a request that needs new bytes. -/
def Action.NeedsGrowth (h : Heap) : Action → Prop
  | .allocate size => h.NeedsGrowth none size
  | .zeroAllocate count size => h.NeedsGrowth none (count * size % Address.space)
  | .resize p size => h.NeedsGrowth p size
  | _ => False

theorem Action.needsGrowth_disguise (h : Heap) (δ : Disguise) (a : Action) :
    a.NeedsGrowth (h.disguise δ) ↔ a.NeedsGrowth h := by
  cases a <;> simp only [NeedsGrowth, Heap.needsGrowth_disguise]

/-- The action makes the arena grow by `n` bytes, if it is given them. -/
def Action.Asks (h : Heap) (n : Nat) : Action → Prop
  | .allocate size => h.Asks none size n
  | .zeroAllocate count size => h.Asks none (count * size % Address.space) n
  | .resize p size => h.Asks p size n
  | _ => False

theorem Action.Asks.needsGrowth {h : Heap} {n : Nat} {a : Action} (ha : a.Asks h n) :
    a.NeedsGrowth h := by
  cases a with
  | allocate | zeroAllocate | resize => exact ha.1
  | release | write | raiseBreak => exact ha

/-- Only growing the arena, and raising the program break, take notice of another source. -/
theorem Action.parallel_perform {s : Session} {δ : Disguise} (a : Action)
    (hgrowth : ∀ n, a.Asks s.heap n → δ.Withstands s.heap.arena n)
    (hraise : ∀ n, a = .raiseBreak n → δ.source = id) : Parallel δ a.perform s := by
  cases a with
  | allocate size => exact parallel_allocate hgrowth
  | zeroAllocate count size => exact parallel_zeroAllocate count size hgrowth
  | resize p size => exact parallel_resize p hgrowth
  | release p => exact (parallel_release p).bind fun _ _ _ => .pure _
  | write p count byte =>
    exact (Parallel.alter fun _ hrun => Heap.setPayload_disguise δ hrun).bind fun _ _ _ => .pure _
  | raiseBreak n =>
    have hδ := hraise n rfl
    refine (Parallel.alter fun h' hrun => ?_).bind fun _ _ _ => .pure _
    cases hrun
    simp only [Heap.arena_disguise _ _ hδ, Heap.disguise_with_arena _ _ hδ, pure_eq_ok]

namespace Client

variable {c c' d : Client} {a : Action} {r : Except HeapError (Option Pointer)} {δ : Disguise}

/-- The client with its heap in disguise, and some log. -/
def disguise (c : Client) (δ : Disguise) (log : Array Record) : Client :=
  { session := ⟨c.heap.disguise δ, log⟩, live := c.live }

theorem act_disguise (hrun : Parallel δ a.perform c.session) (hact : c.act a = .ok (r, c')) :
    ∃ records, c'.session.log = c.session.log ++ records ∧
      ∀ log, (c.disguise δ log).act a = .ok (r, c'.disguise δ (log ++ records)) := by
  obtain ⟨records, hsame⟩ := hrun
  unfold act at hact
  split at hact
  · rename_i hperform
    rw [hperform] at hsame
    cases hact
    refine ⟨records, (hsame #[]).1, fun log => ?_⟩
    rw [act, show a.perform (c.disguise δ log).session = _ from (hsame log).2]
    rfl
  · rename_i hperform
    rw [hperform] at hsame
    cases hact
    refine ⟨records, (hsame #[]).1, fun log => ?_⟩
    rw [act, show a.perform (c.disguise δ log).session = _ from (hsame log).2]
    rfl
  · cases hact

/-- The same pointers are held, and the heaps differ at most in what their arenas grow from. -/
def Resembles (c d : Client) : Prop := ∃ source log, d = c.disguise (.supply source) log

theorem Resembles.symm (h : c.Resembles d) : d.Resembles c := by
  obtain ⟨source, log, rfl⟩ := h
  exact ⟨c.heap.arena.source, c.session.log, rfl⟩

/-- **What the arena grows from shows in no answer that needs no new bytes.** -/
theorem Resembles.act (h : c.Resembles d) (hgrowth : ¬ a.NeedsGrowth c.heap)
    (hact : c.act a = .ok (r, c')) : ∃ d', d.act a = .ok (r, d') ∧ c'.Resembles d' := by
  obtain ⟨source, log, rfl⟩ := h
  by_cases hraise : ∃ n, a = .raiseBreak n
  · obtain ⟨n, rfl⟩ := hraise
    have hover : ∀ arena : Arena, ∃ source, arena.raiseBreak n = { arena with source } := by
      intro arena
      unfold Arena.raiseBreak
      split
      · exact ⟨arena.source, rfl⟩
      · exact ⟨_, rfl⟩
    cases hact
    refine ⟨_, rfl, ?_⟩
    obtain ⟨source', hd⟩ := hover (c.heap.disguise (.supply source)).arena
    obtain ⟨source'', hc⟩ := hover c.heap.arena
    refine ⟨source', log, ?_⟩
    show (⟨⟨{ c.heap.disguise (.supply source) with
      arena := (c.heap.disguise (.supply source)).arena.raiseBreak n }, log⟩, _⟩ : Client) =
      (⟨⟨{ c.heap with arena := c.heap.arena.raiseBreak n }, c.session.log⟩, _⟩ : Client).disguise
        (.supply source') log
    rw [hd, hc]
    rfl
  · obtain ⟨records, -, hact'⟩ := act_disguise
      (a.parallel_perform (fun n h => absurd h.needsGrowth hgrowth)
        fun n ha => absurd ⟨n, ha⟩ hraise) hact
    exact ⟨_, hact' log, source, log ++ records, rfl⟩

/-- From `c` on, the actions are answered as given and lead to `d`, and none of them needs new
bytes. -/
inductive Replies : Client → List (Action × Except HeapError (Option Pointer)) → Client → Prop
  | nil (c : Client) : Replies c [] c
  | cons {c c₁ d : Client} {a : Action} {r : Except HeapError (Option Pointer)}
      {steps : List (Action × Except HeapError (Option Pointer))} :
      ¬ a.NeedsGrowth c.heap → c.act a = .ok (r, c₁) → Replies c₁ steps d →
      Replies c ((a, r) :: steps) d

theorem Replies.of_resembles {steps : List (Action × Except HeapError (Option Pointer))}
    {e : Client} (h : c.Replies steps e) (hcd : c.Resembles d) :
    ∃ e', d.Replies steps e' ∧ e.Resembles e' := by
  induction h generalizing d with
  | nil c => exact ⟨d, .nil d, hcd⟩
  | @cons c _ _ a _ _ hgrowth hact _ ih =>
    obtain ⟨d₁, hact', hcd₁⟩ := hcd.act hgrowth hact
    obtain ⟨e', hreplies, he⟩ := ih hcd₁
    refine ⟨e', .cons ?_ hact' hreplies, he⟩
    obtain ⟨source, log, rfl⟩ := hcd
    rwa [show (c.disguise (.supply source) log).heap = c.heap.disguise (.supply source) from rfl,
      Action.needsGrowth_disguise]

/-- What can be told of a client, apart from what the arena grows from. -/
theorem Resembles.looks (h : c.Resembles d) : d.heap.arena.bytes = c.heap.arena.bytes ∧
    d.heap.layout = c.heap.layout ∧ d.heap.head = c.heap.head ∧ d.heap.tail = c.heap.tail ∧
    d.heap.top = c.heap.top ∧ (∀ limit, d.heap.blocks limit = c.heap.blocks limit) ∧
    (∀ limit, d.heap.freeBlocks limit = c.heap.freeBlocks limit) ∧
    (∀ p, d.heap.usableSize p = c.heap.usableSize p ∧ d.heap.payload p = c.heap.payload p) ∧
    d.heap.check = c.heap.check := by
  obtain ⟨source, log, rfl⟩ := h
  exact ⟨rfl, rfl, rfl, rfl, rfl, c.heap.blocks_disguise _, c.heap.freeBlocks_disguise _,
    fun p => ⟨c.heap.usableSize_disguise _ p, c.heap.payload_disguise _ p⟩,
    c.heap.check_disguise _⟩

/-- **A request that is refused leaves everything as it was**, and actions that need no new bytes
are answered afterwards as if it had not been made.  With a buffer behind the arena not even the
source of bytes can tell. -/
theorem act_refused {e : HeapError} {c' : Client} (hact : c.act a = .ok (.error e, c')) :
    (∃ n, e = .outOfMemory n) ∧ c'.live = c.live ∧
    (c'.heap.arena.bytes = c.heap.arena.bytes ∧
      c'.heap.layout = c.heap.layout ∧ c'.heap.head = c.heap.head ∧ c'.heap.tail = c.heap.tail ∧
      c'.heap.top = c.heap.top ∧ (∀ limit, c'.heap.blocks limit = c.heap.blocks limit) ∧
      (∀ limit, c'.heap.freeBlocks limit = c.heap.freeBlocks limit) ∧
      (∀ p, c'.heap.usableSize p = c.heap.usableSize p ∧ c'.heap.payload p = c.heap.payload p) ∧
      c'.heap.check = c.heap.check) ∧
    (∀ limit, c.heap.arena.limit? = some limit → c'.heap = c.heap) ∧
    (∀ steps d, c.Replies steps d → ∃ d', c'.Replies steps d' ∧ d.Resembles d') ∧
    ∀ steps d', c'.Replies steps d' → ∃ d, c.Replies steps d ∧ d.Resembles d' := by
  obtain ⟨hrun, hlive⟩ : a.perform c.session = .error (.failed e) c'.session ∧
      c'.live = c.live := by
    unfold act at hact
    split at hact <;> cases hact
    rename_i hrun
    exact ⟨hrun, rfl⟩
  obtain ⟨hmemory, ⟨source, hheap⟩, hlimit⟩ := a.atomic_perform _ _ _ hrun
  have hsame : c.Resembles c' := by
    refine ⟨source, c'.session.log, ?_⟩
    show (⟨⟨c'.session.heap, _⟩, c'.live⟩ : Client) = _
    rw [hheap, hlive]
    rfl
  refine ⟨hmemory, hlive, hsame.looks, fun limit hbuffer => ?_,
    fun steps d hreplies => hreplies.of_resembles hsame, fun steps d' hreplies => ?_⟩
  · exact Heap.Stays.eq_of_limit ⟨⟨source, hheap⟩, hlimit⟩ hbuffer
  · obtain ⟨d, hreplies', hd⟩ := hreplies.of_resembles hsame.symm
    exact ⟨d, hreplies', hd.symm⟩

theorem act_refused_ofRaisedBreak : ∃ c c' n d d',
    Reachable {} (.ofBreak { top := 4096, top_lt := by decide }) c ∧ c.pointers = [⟨48⟩] ∧
    c.act (.resize (some ⟨48⟩) 24) = .ok (.error (.outOfMemory n), c') ∧
    c'.heap.arena.bytes = c.heap.arena.bytes ∧ c'.heap.check = c.heap.check ∧
    c.Replies [(.release (some ⟨48⟩), .ok none)] d ∧
    c'.Replies [(.release (some ⟨48⟩), .ok none)] d' := by
  obtain ⟨c, hc, hsees⟩ := exists_reachable {} (.ofBreak { top := 4096, top_lt := by decide })
    [.allocate 8, .raiseBreak 32]
    (fun c => c.pointers = [⟨48⟩] ∧
      ((c.act (.resize (some ⟨48⟩) 24)).toOption.any fun x => x.1.toOption = none) ∧
      (c.act (.release (some ⟨48⟩))).toOption.any fun x => x.1.toOption = some none)
    (by decide +kernel)
  obtain ⟨hp, hresize, hrelease⟩ := of_decide_eq_true hsees
  obtain ⟨⟨r, c'⟩, hsome, hr⟩ := (Option.any_eq_true _ _).1 hresize
  obtain ⟨⟨r', d⟩, hsome', hr'⟩ := (Option.any_eq_true _ _).1 hrelease
  obtain rfl : r' = .ok none := ok_of_toOption (of_decide_eq_true hr')
  have hreplies : c.Replies [(.release (some ⟨48⟩), .ok none)] d :=
    .cons not_false (ok_of_toOption hsome') (.nil d)
  cases r with
  | ok q => cases of_decide_eq_true hr
  | error e =>
    have hact := ok_of_toOption hsome
    obtain ⟨⟨n, rfl⟩, -, ⟨hbytes, -, -, -, -, -, -, -, hcheck⟩, -, hafter, -⟩ := act_refused hact
    obtain ⟨d', hreplies', -⟩ := hafter _ d hreplies
    exact ⟨c, c', n, d, d', hc, hp, hact, hbytes, hcheck, hreplies, hreplies'⟩

end Client

end TaggedHeap
