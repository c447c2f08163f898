import TaggedHeap.Proofs.Request

/-!
# Runs

A client is a session together with the pointers that its users hold.  It goes from state to state
by actions: requests, writing to payloads, and what others do to the program break.  Its users
only pass pointers that they hold (`Client.Allows`).  `Client.Reachable` are the states of all runs
that begin with a heap that has just been built.

What holds in all of them is `Client.Consistent`: the heap is sound, and the blocks in use are
those of the pointers held, each with the room that was asked for.  Every action that is allowed is
carried out or refused, and keeps this up (`Client.Consistent.act`).  It changes nothing in blocks
that it is not about (`Client.Effect`).
-/

namespace TaggedHeap

/-- A pointer that is held, and how many bytes were last asked for with it. -/
structure Lease where
  /-- The pointer. -/
  pointer : Pointer
  /-- Bytes asked for. -/
  requested : Nat
deriving DecidableEq, Repr

/-- What the users of a heap do, and what happens around it. -/
inductive Action
  /-- Allocates `size` bytes. -/
  | allocate (size : Nat)
  /-- Allocates `count` elements of `size` bytes each. -/
  | zeroAllocate (count size : Nat)
  /-- Resizes a block. -/
  | resize (p : Option Pointer) (size : Nat)
  /-- Gives a block back. -/
  | release (p : Option Pointer)
  /-- Sets the first `count` bytes of a payload. -/
  | write (p : Pointer) (count : Nat) (byte : Nat → UInt8)
  /-- Somebody else raises the program break.  Nobody lowers it, but to the heap that would make no
  difference: all it notices is which requests are granted and what the new bytes hold, and both
  are up to the system (`ProgramBreak.grants`, `ProgramBreak.contents`). -/
  | raiseBreak (n : Nat)

namespace Action

/-- Carries out an action. -/
def perform : Action → SessionM (Option Pointer)
  | .allocate size => TaggedHeap.allocate size
  | .zeroAllocate count size => TaggedHeap.zeroAllocate count size
  | .resize p size => TaggedHeap.resize p size
  | .release p => do
    TaggedHeap.release p
    return none
  | .write p count byte => do
    SessionM.alter (·.setPayload p count byte)
    return none
  | .raiseBreak n => do
    SessionM.alter fun h => return { h with arena := h.arena.raiseBreak n }
    return none

/-- The pointer that is given up, if the action is carried out. -/
def returned : Action → Option Pointer
  | .resize p _ => p
  | .release p => p
  | _ => none

/-- The pointer that the action is about. -/
def subject : Action → Option Pointer
  | .write p _ _ => some p
  | a => a.returned

/-- Bytes asked for.  A product beyond the address space is taken modulo it. -/
def requested : Action → Nat
  | .allocate size => size
  | .zeroAllocate count size => count * size % Address.space
  | .resize _ size => size
  | _ => 0

/-- The leases after the action has answered `r`. -/
def settle (a : Action) (r : Option Pointer) (live : List Lease) : List Lease :=
  (r.map fun p => ⟨p, a.requested⟩).toList ++ live.filter fun l => a.returned ≠ some l.pointer

theorem map_settle (a : Action) (r : Option Pointer) (live : List Lease) :
    (a.settle r live).map Lease.pointer =
      r.toList ++ (live.map Lease.pointer).filter fun p => a.returned ≠ some p := by
  rw [settle, List.map_append, List.filter_map]
  cases r <;> rfl

end Action

/-- A session and the leases of its users. -/
structure Client where
  /-- The session. -/
  session : Session
  /-- What is held. -/
  live : List Lease := []

namespace Client

/-- The heap. -/
def heap (c : Client) : Heap := c.session.heap

/-- The pointers held. -/
def pointers (c : Client) : List Pointer := c.live.map Lease.pointer

/-- The action passes no pointer that is not held, and writes no more than the payload. -/
def Allows (c : Client) : Action → Prop
  | .resize p _ => ∀ q ∈ p, q ∈ c.pointers
  | .release p => ∀ q ∈ p, q ∈ c.pointers
  | .write p count _ => p ∈ c.pointers ∧ ∃ n, c.heap.usableSize p = .ok n ∧ count ≤ n
  | _ => True

/-- Carries out an action, and answers what it answers: a pointer or none, or an error. -/
def act (c : Client) (a : Action) : Except Fault (Except HeapError (Option Pointer) × Client) :=
  match a.perform c.session with
  | .ok r session => .ok (.ok r, { session, live := a.settle r c.live })
  | .error (.failed e) session => .ok (.error e, { c with session })
  | .error (.fault f) _ => .error f

theorem act_ok {c : Client} {a : Action} {p : Option Pointer} {s : Session}
    (h : a.perform c.session = .ok p s) : c.act a = .ok (.ok p, ⟨s, a.settle p c.live⟩) := by
  rw [act, h]

theorem act_failed {c : Client} {a : Action} {e : HeapError} {s : Session}
    (h : a.perform c.session = .error (.failed e) s) :
    c.act a = .ok (.error e, ⟨s, c.live⟩) := by
  rw [act, h]

instance (c : Client) (a : Action) : Decidable (c.Allows a) :=
  match a with
  | .allocate _ | .zeroAllocate _ _ | .raiseBreak _ => isTrue trivial
  | .resize p _ => inferInstanceAs (Decidable (∀ q ∈ p, q ∈ c.pointers))
  | .release p => inferInstanceAs (Decidable (∀ q ∈ p, q ∈ c.pointers))
  | .write p count _ =>
    match h : c.heap.usableSize p with
    | .ok n => decidable_of_iff (p ∈ c.pointers ∧ count ≤ n) (by simp [Allows, h])
    | .error _ => isFalse (by simp [Allows, h])

/-- What the actions lead to, one after the other, if all of them are allowed. -/
def after (c : Client) : List Action → Option Client
  | [] => some c
  | a :: as =>
    if c.Allows a then
      match c.act a with
      | .ok (_, c') => c'.after as
      | .error _ => none
    else none

/-- What the actions lead to on a heap built with the layout at the end of the arena. -/
def ofActions (layout : Layout) (arena : Arena) (as : List Action) : Option Client :=
  match Session.create layout arena with
  | .ok session => after { session } as
  | .error _ => none

/-- The states of all runs on a heap built with the layout at the end of the arena. -/
inductive Reachable (layout : Layout) (arena : Arena) : Client → Prop
  | create {exactLinks : Bool} {session : Session} :
      Session.create layout arena exactLinks = .ok session → Reachable layout arena { session }
  | act {c c' : Client} {a : Action} {r : Except HeapError (Option Pointer)} :
      Reachable layout arena c → c.Allows a → c.act a = .ok (r, c') → Reachable layout arena c'

end Client

/-- The heap was built with the layout at the end of the arena. -/
structure Heap.Anchored (h : Heap) (layout : Layout) (arena : Arena) : Prop where
  /-- The layout. -/
  layout_eq : h.layout = layout
  /-- The heap lies as it was built. -/
  placed : h.Placed
  /-- It lies above the arena. -/
  base_le : arena.size ≤ h.head
  /-- The arena is as it was. -/
  keeps : arena.Keeps h.arena {i | i < arena.size}

theorem Heap.Anchored.evolves {h h' : Heap} {layout : Layout} {arena : Arena} {xs : List Span}
    (hh : h.Anchored layout arena) (he : h.Evolves h' (h.safe xs)) : h'.Anchored layout arena where
  layout_eq := he.layout_eq.trans hh.layout_eq
  placed := ⟨he.size_le, by rw [he.head_eq, he.layout_eq]; exact hh.placed.aligned⟩
  base_le := he.head_eq ▸ hh.base_le
  keeps := hh.keeps.trans (he.keeps.mono fun _ hi => .inl (hi.trans_le hh.base_le))

namespace Client

open Heap

/-- The heap is sound, and its blocks in use are those of the pointers held. -/
structure Consistent (c : Client) (layout : Layout) (arena : Arena) (v : View) : Prop where
  /-- The heap lies where it was built. -/
  anchored : c.heap.Anchored layout arena
  /-- It is sound. -/
  sound : c.heap.Sound v
  /-- Each block in use is held once. -/
  owned : c.pointers.Perm ((Span.used v.spans).map Span.pointer)
  /-- Each has the room that was asked for. -/
  suits : ∀ l ∈ c.live, ∀ x ∈ Span.used v.spans, l.pointer = x.pointer → x.Suits layout l.requested

/-- What an action does to the blocks in use. -/
structure Effect (c : Client) (a : Action) (r : Except HeapError (Option Pointer)) (c' : Client)
    (v v' : View) : Prop where
  /-- Blocks that the action is not about stay in use and keep their bytes.  If the action is
  refused, all do. -/
  frame : ∀ x ∈ Span.used v.spans, (a.subject = some x.pointer → ∃ e, r = .error e) →
    x ∈ Span.used v'.spans ∧ c.heap.arena.Keeps c'.heap.arena x.bytes
  /-- The payload of a block that is resized begins as before. -/
  content : ∀ x ∈ Span.used v.spans, ∀ q size, a = .resize (some x.pointer) size →
    r = .ok (some q) → ∃ y ∈ Span.used v'.spans, q = y.pointer ∧ size + 8 ≤ y.size ∧
      ∀ i, i < x.size - 8 → i < size →
        c'.heap.arena.byte (y.offset + 4 + i) = c.heap.arena.byte (x.offset + 4 + i)

end Client

theorem Span.pointer_inj {x y : Span} : x.pointer = y.pointer ↔ x.offset = y.offset := by
  simp [pointer, Pointer.ofHeader]

theorem Heap.Sound.eq_of_pointer {h : Heap} {v : View} {x y : Span} (hv : h.Sound v)
    (hx : x ∈ Span.used v.spans) (hy : y ∈ Span.used v.spans) (hxy : x.pointer = y.pointer) :
    x = y :=
  hv.tiles.offset_inj h.valid (mem_chain_of_mem (Span.mem_used.1 hx).1)
    (mem_chain_of_mem (Span.mem_used.1 hy).1) (Span.pointer_inj.1 hxy)

theorem Heap.Sound.nodup_pointers {h : Heap} {v : View} (hv : h.Sound v) :
    ((Span.used v.spans).map Span.pointer).Nodup := by
  refine List.Nodup.map_on (fun x hx y hy => hv.eq_of_pointer hx hy) ?_
  exact (hv.holds.nodup_offsets.of_map _).filter _

/-- What others do to the program break leaves the heap as it is. -/
theorem Heap.stays_raiseBreak (h : Heap) (n : Nat) :
    h.Stays { h with arena := h.arena.raiseBreak n } := by
  rw [Arena.raiseBreak]
  split
  · exact .refl _
  · rename_i region hsource
    exact ⟨⟨_, rfl⟩, by simp only [Arena.limit?, hsource]⟩

namespace Client

variable {c : Client} {layout : Layout} {arena : Arena} {v v' : View} {a : Action} {h' : Heap}
  {log : Array Record} {gone fresh : Option Span} {rest : List Span}

namespace Consistent

theorem exists_of_held (hc : c.Consistent layout arena v) {p : Pointer} (hp : p ∈ c.pointers) :
    ∃ x ∈ Span.used v.spans, x.pointer = p := List.mem_map.1 (hc.owned.mem_iff.1 hp)

/-- The block of a pointer that is passed, if there is one. -/
theorem exists_gone (hc : c.Consistent layout arena v) {p : Option Pointer}
    (hp : ∀ q ∈ p, q ∈ c.pointers) : ∃ gone rest, p = gone.map Span.pointer ∧
      (Span.used v.spans).Perm (Option.toList gone ++ rest) := by
  cases p with
  | none => exact ⟨none, _, rfl, .refl _⟩
  | some p =>
    obtain ⟨x, hx, rfl⟩ := hc.exists_of_held (hp p rfl)
    exact ⟨some x, _, rfl, List.perm_cons_erase hx⟩

theorem stays (hc : c.Consistent layout arena v) (hs : c.heap.Stays h')
    {r : Except HeapError (Option Pointer)} (hr : ∀ q, r ≠ .ok (some q)) :
    Consistent ⟨⟨h', log⟩, c.live⟩ layout arena v ∧ Effect c a r ⟨⟨h', log⟩, c.live⟩ v v := by
  have he := fun s => hs.evolves hc.anchored.placed.size_le s
  exact ⟨⟨hc.anchored.evolves (he (c.heap.safe [])), hs.sound hc.sound, hc.owned, hc.suits⟩,
    ⟨fun x hx _ => ⟨hx, (he _).keeps⟩, fun _ _ q _ _ h => absurd h (hr q)⟩⟩

theorem owned_settle (hc : c.Consistent layout arena v)
    (hserved : c.heap.Served h' v v' gone rest fresh a.requested)
    (hgone : a.returned = gone.map Span.pointer) :
    ((a.settle (fresh.map Span.pointer) c.live).map Lease.pointer).Perm
      ((Span.used v'.spans).map Span.pointer) := by
  have hnodup := (hserved.before.map Span.pointer).nodup_iff.1 hc.sound.nodup_pointers
  -- pointers differ, so exactly the one that is given up is dropped
  have hkept : (c.pointers.filter fun p => a.returned ≠ some p).Perm (rest.map Span.pointer) := by
    refine ((hc.owned.trans (hserved.before.map _)).filter _).trans (.of_eq ?_)
    rw [hgone, List.map_append, List.filter_append]
    cases gone with
    | none => simp
    | some x =>
      have hx := (List.nodup_cons.1 hnodup).1
      simp only [Option.map_some, Option.toList_some, List.map_cons, List.map_nil, ne_eq,
        Option.some.injEq, not_true_eq_false, decide_false, Bool.false_eq_true, not_false_eq_true,
        List.filter_cons_of_neg, List.filter_nil, List.nil_append, List.filter_eq_self,
        decide_eq_true_eq]
      exact fun p hp he => hx (he ▸ hp)
  have hfresh : (fresh.map Span.pointer).toList ++ rest.map Span.pointer =
      (fresh.toList ++ rest).map Span.pointer := by
    cases fresh <;> simp
  rw [Action.map_settle]
  exact (hkept.append_left _).trans (hfresh ▸ (hserved.after.map Span.pointer).symm)

/-- A request that is served changes the blocks in use and the pointers held alike. -/
theorem served (hc : c.Consistent layout arena v)
    (hserved : c.heap.Served h' v v' gone rest fresh a.requested)
    (hgone : a.returned = gone.map Span.pointer) (hsubject : a.subject = a.returned) :
    Consistent ⟨⟨h', log⟩, a.settle (fresh.map Span.pointer) c.live⟩ layout arena v' ∧
      Effect c a (.ok (fresh.map Span.pointer))
        ⟨⟨h', log⟩, a.settle (fresh.map Span.pointer) c.live⟩ v v' := by
  have hrest : ∀ x ∈ Span.used v.spans, a.returned ≠ some x.pointer → x ∈ rest := by
    intro x hx hne
    refine (List.mem_append.1 (hserved.before.mem_iff.1 hx)).resolve_left fun hx => hne ?_
    rw [hgone, Option.mem_toList.1 hx, Option.map_some]
  have hfresh : ∀ y ∈ fresh, y ∈ Span.used v'.spans := fun y hy =>
    hserved.after.mem_iff.2 (List.mem_append_left _ (Option.mem_toList.2 hy))
  have hused : ∀ x ∈ rest, x ∈ Span.used v'.spans := fun x hx =>
    hserved.after.mem_iff.2 (List.mem_append_right _ hx)
  refine ⟨⟨hc.anchored.evolves hserved.evolves, hserved.sound, hc.owned_settle hserved hgone,
    fun l hl x hx hlx => ?_⟩, fun x hx hne => ?_, ?_⟩
  · -- a lease is either new or it was held before
    rcases List.mem_append.1 hl with hl | hl
    · obtain ⟨y, hy, rfl⟩ : ∃ y ∈ fresh, l = ⟨y.pointer, a.requested⟩ := by
        cases fresh with
        | none => cases hl
        | some y => exact ⟨y, rfl, by simpa using hl⟩
      obtain rfl := hserved.sound.eq_of_pointer (hfresh y hy) hx hlx
      exact hc.anchored.layout_eq ▸ hserved.suits y hy
    · obtain ⟨hl, hne⟩ := List.mem_filter.1 hl
      obtain ⟨y, hy, hyl⟩ := hc.exists_of_held (List.mem_map_of_mem hl)
      have hkept := hused y (hrest y hy (by simpa [hyl] using hne))
      obtain rfl := hserved.sound.eq_of_pointer hkept hx (hyl.trans hlx)
      exact hc.suits l hl y hy hlx
  · have hx := hrest x hx fun he => by
      obtain ⟨e, he⟩ := hne (hsubject.trans he)
      cases he
    exact ⟨hused x hx, hserved.evolves.keeps.mono fun i hi => .inr ⟨x, hx, hi⟩⟩
  · rintro x hx q size rfl hq
    obtain ⟨y, rfl, rfl⟩ : ∃ y, fresh = some y ∧ y.pointer = q := by
      simpa using hq
    obtain ⟨z, rfl, hz⟩ : ∃ z, gone = some z ∧ z.pointer = x.pointer := by
      simpa [Action.returned] using hgone.symm
    have hzx := hc.sound.eq_of_pointer (hserved.before.mem_iff.2 (by simp)) hx hz
    subst hzx
    exact ⟨y, hfresh y rfl, rfl, (hserved.suits y rfl).le, hserved.content z rfl y rfl⟩

theorem written (hc : c.Consistent layout arena v) {p : Pointer} {count : Nat} (byte : Nat → UInt8)
    (ha : c.Allows (.write p count byte)) : ∃ h', Action.perform (.write p count byte) c.session =
        .ok none ⟨h', c.session.log⟩ ∧
      Consistent ⟨⟨h', c.session.log⟩, c.live⟩ layout arena v ∧
      Effect c (.write p count byte) (.ok none) ⟨⟨h', c.session.log⟩, c.live⟩ v v := by
  obtain ⟨hp, n, hn, hle⟩ := ha
  obtain ⟨x, hx, rfl⟩ := hc.exists_of_held hp
  obtain ⟨hmem, hused⟩ := Span.mem_used.1 hx
  have hmx : x ∈ c.heap.chain v.spans := Heap.mem_chain_of_mem hmem
  have hb := hc.sound.holds.bounds hmx
  obtain rfl := Except.ok.inj ((hc.sound.holds.usableSize_eq hmx).symm.trans hn)
  obtain ⟨b, hwrite, hedit, -⟩ := hc.sound.holds.setPayload_spec hmx hle byte
  have hinner := Span.Ico_subset_inner hle
  have hperm := List.perm_cons_erase hx
  have he := hc.sound.evolves_inner hc.anchored.placed.size_le hperm hedit hinner
  refine ⟨{ c.heap with arena := b }, (SessionM.bind_ok (SessionM.alter_ok hwrite)).trans rfl,
    ⟨hc.anchored.evolves he, hc.sound.edit_inner hmem hused hedit hinner, hc.owned, hc.suits⟩,
    fun y hy hne => ⟨hy, he.keeps.mono fun i hi => .inr ⟨y, ?_, hi⟩⟩,
    fun _ _ _ _ h => by cases h⟩
  refine (List.mem_cons.1 (hperm.mem_iff.1 hy)).resolve_left ?_
  rintro rfl
  obtain ⟨e, he⟩ := hne rfl
  cases he

theorem raised (hc : c.Consistent layout arena v) (n : Nat) :
    ∃ h', Action.perform (.raiseBreak n) c.session = .ok none ⟨h', c.session.log⟩ ∧
      Consistent ⟨⟨h', c.session.log⟩, c.live⟩ layout arena v ∧
      Effect c (.raiseBreak n) (.ok none) ⟨⟨h', c.session.log⟩, c.live⟩ v v :=
  ⟨_, rfl, hc.stays (c.heap.stays_raiseBreak n) (by simp)⟩

theorem act_of_answers (hc : c.Consistent layout arena v) (gone : Option Span)
    (hgone : a.returned = gone.map Span.pointer) (hsubject : a.subject = a.returned)
    (hrun : SessionM.Answers a.perform c.session fun r h' => ∃ v' fresh,
      r = fresh.map Span.pointer ∧ c.heap.Served h' v v' gone rest fresh a.requested) :
    ∃ r c' v', c.act a = .ok (r, c') ∧ c'.Consistent layout arena v' ∧ c.Effect a r c' v v' := by
  rcases hrun with ⟨_, h', log, hrun, v', fresh, rfl, hserved⟩ | ⟨m, h', log, hrun, hs⟩
  · exact ⟨_, _, v', by rw [Client.act, hrun], hc.served hserved hgone hsubject⟩
  · exact ⟨_, _, v, by rw [Client.act, hrun], hc.stays hs (by simp)⟩

/-- **Every action that is allowed is carried out or refused**, and keeps the state consistent. -/
theorem act (hc : c.Consistent layout arena v) (ha : c.Allows a) :
    ∃ r c' v', c.act a = .ok (r, c') ∧ c'.Consistent layout arena v' ∧ c.Effect a r c' v v' := by
  have hsize := hc.anchored.placed.size_le
  have hlive : ∀ b : Action, b.returned = none → b.settle none c.live = c.live := fun b hb => by
    simp [Action.settle, hb]
  cases a with
  | allocate size =>
    exact hc.act_of_answers none rfl rfl (allocate_served hc.sound hsize size)
  | zeroAllocate count size =>
    exact hc.act_of_answers none rfl rfl (zeroAllocate_served hc.sound hsize count size)
  | resize p size =>
    obtain ⟨gone, rest, rfl, hgone⟩ := hc.exists_gone ha
    exact hc.act_of_answers _ rfl rfl (resize_served hc.sound hsize size hgone)
  | release p =>
    obtain ⟨gone, rest, rfl, hgone⟩ := hc.exists_gone ha
    obtain ⟨h', log, v', hrun, hserved⟩ := release_served hc.sound hsize 0 hgone
    exact hc.act_of_answers _ rfl rfl
      (.inl ⟨none, h', log, (SessionM.bind_ok hrun).trans rfl, v', none, rfl, hserved⟩)
  | write p count byte =>
    obtain ⟨h', hrun, hspec⟩ := hc.written byte ha
    exact ⟨_, _, v, by simp only [Client.act, hrun, hlive (.write p count byte) rfl], hspec⟩
  | raiseBreak n =>
    obtain ⟨h', hrun, hspec⟩ := hc.raised n
    exact ⟨_, _, v, by simp only [Client.act, hrun, hlive (.raiseBreak n) rfl], hspec⟩

/-- No action moves the heap, or changes how it stores its links. -/
theorem evolves (hc : c.Consistent layout arena v) (ha : c.Allows a)
    {r : Except HeapError (Option Pointer)} {c' : Client} (hact : c.act a = .ok (r, c')) :
    c.heap.Evolves c'.heap (c.heap.safe []) := by
  have hsize := hc.anchored.placed.size_le
  have hserved : ∀ {gone : Option Span} {rest : List Span} {size : Nat},
      SessionM.Answers a.perform c.session (fun p h' => ∃ v' fresh,
        p = fresh.map Span.pointer ∧ c.heap.Served h' v v' gone rest fresh size) →
      c.heap.Evolves c'.heap (c.heap.safe []) := by
    rintro gone rest size
      (⟨p, h', log, hrun, v', fresh, -, hserved⟩ | ⟨m, h', log, hrun, hstays⟩)
    · rw [Client.act, hrun] at hact
      cases hact
      exact hserved.evolves.mono (Heap.safe_mono (List.nil_subset _))
    · rw [Client.act, hrun] at hact
      cases hact
      exact hstays.evolves hsize _
  cases a with
  | allocate size => exact hserved (allocate_served hc.sound hsize size)
  | zeroAllocate count size => exact hserved (zeroAllocate_served hc.sound hsize count size)
  | resize p size =>
    obtain ⟨gone, rest, rfl, hgone⟩ := hc.exists_gone ha
    exact hserved (resize_served hc.sound hsize size hgone)
  | release p =>
    obtain ⟨gone, rest, rfl, hgone⟩ := hc.exists_gone ha
    obtain ⟨h', log, v', hrun, hspec⟩ := release_served hc.sound hsize 0 hgone
    exact hserved
      (.inl ⟨none, h', log, (SessionM.bind_ok hrun).trans rfl, v', none, rfl, hspec⟩)
  | write p count byte =>
    obtain ⟨hp, n, hn, hle⟩ := ha
    obtain ⟨x, hx, rfl⟩ := hc.exists_of_held hp
    have hmem := Heap.mem_chain_of_mem (h := c.heap) (Span.mem_used.1 hx).1
    obtain rfl := Except.ok.inj ((hc.sound.holds.usableSize_eq hmem).symm.trans hn)
    obtain ⟨b, hwrite, hedit, -⟩ := hc.sound.holds.setPayload_spec hmem hle byte
    rw [Client.act, show Action.perform _ c.session = _ from
      (SessionM.bind_ok (SessionM.alter_ok hwrite)).trans rfl] at hact
    cases hact
    exact (hc.sound.evolves_inner hsize (List.perm_cons_erase hx) hedit
      (Span.Ico_subset_inner hle)).mono (Heap.safe_mono (List.nil_subset _))
  | raiseBreak n =>
    cases hact
    exact (c.heap.stays_raiseBreak n).evolves hsize _

end Consistent

/-- A heap that has just been built holds no blocks, and nobody holds a pointer. -/
theorem consistent_create {exactLinks : Bool} {session : Session}
    (h : Session.create layout arena exactLinks = .ok session) :
    Consistent { session } layout arena ⟨[], []⟩ := by
  rw [Session.create] at h
  rcases Heap.create_built layout arena exactLinks with
    ⟨e, he⟩ | ⟨heap, hheap, hlayout, hv, hp, hle, hk⟩
  · rw [he] at h
    cases h
  · rw [hheap] at h
    cases h
    exact ⟨⟨hlayout, hp, hle, hk⟩, hv, .refl _, by simp⟩

theorem Reachable.after {as : List Action} {c' : Client} (hc : Reachable layout arena c)
    (h : c.after as = some c') : Reachable layout arena c' := by
  induction as generalizing c with
  | nil => exact Option.some.inj h ▸ hc
  | cons a as ih =>
    rw [Client.after] at h
    split at h
    · rename_i ha
      split at h
      · rename_i hact
        exact ih (hc.act ha hact) h
      · cases h
    · cases h

theorem reachable_ofActions {as : List Action} (h : ofActions layout arena as = some c) :
    Reachable layout arena c := by
  rw [ofActions] at h
  split at h
  · rename_i hcreate
    exact (Reachable.create hcreate).after h
  · cases h

/-- What can be seen of the state after some actions is true of a state that is reachable. -/
theorem exists_reachable (layout : Layout) (arena : Arena) (as : List Action) (p : Client → Bool)
    (h : (ofActions layout arena as).any p) : ∃ c, Reachable layout arena c ∧ p c := by
  obtain ⟨c, hc, hp⟩ := (Option.any_eq_true _ _).1 h
  exact ⟨c, reachable_ofActions hc, hp⟩

/-- **All states of a run are consistent.** -/
theorem Reachable.consistent (hc : Reachable layout arena c) :
    ∃ v, c.Consistent layout arena v := by
  induction hc with
  | create h => exact ⟨_, consistent_create h⟩
  | act _ ha hact ih =>
    obtain ⟨v, hv⟩ := ih
    obtain ⟨r, c', v', hact', hv', -⟩ := hv.act ha
    cases hact.symm.trans hact'
    exact ⟨v', hv'⟩

end Client

end TaggedHeap
