import TaggedHeap.Proofs.Flush
import TaggedHeap.Proofs.Independence
import TaggedHeap.Proofs.Refusal

/-!
# Arenas are interchangeable

An arena over a buffer and one above the program break that are both given the bytes that they are
asked for have the same bytes, if the system hands out zeros (`Arena.grow_overBuffer`).  A heap asks
for nothing else, so in either arena it does the same (`Client.act_overBuffer`), and whole runs on
both cannot be told apart (`Client.arenas_interchangeable`).  It makes no difference where the break
is when the second arena first grows, since it is moved up to an aligned address then.  From there
on the arena ends at the break, if nobody else moves it.
-/

namespace TaggedHeap

namespace Arena

variable {a b b' : Arena} {limit n offset offset' : Nat} {ns : List Nat} {P : Nat → Source → Prop}

/-- The same bytes over a buffer. -/
def overBuffer (a : Arena) (limit : Nat) : Arena := { a with source := .buffer limit }

/-- Two arenas with the same bytes that are both given `n` zeros more have the same bytes again. -/
theorem grow_overBuffer (hblank : a.source.Blank) (h : Arena.grow n a = .ok offset b)
    (h' : Arena.grow n (a.overBuffer limit) = .ok offset' b') :
    offset' = offset ∧ b' = b.overBuffer limit := by
  have hzeros := hblank.grow h
  obtain ⟨rfl, source, fits, rfl, -⟩ := grow_ok h
  obtain ⟨rfl, _, fits', rfl, ⟨rfl, -⟩ | ⟨region, -, hregion, -⟩⟩ := grow_ok h'
  · have hfresh : source.fresh a.size n = Array.replicate n 0 := hzeros.fresh_eq _ _
    refine ⟨rfl, ?_⟩
    simp only [overBuffer, append, hfresh]
    rfl
  · cases hregion

theorem withstands_overBuffer (hblank : a.source.Blank) (hgives : a.Gives n)
    (hgives' : (a.overBuffer limit).Gives n) :
    (Disguise.supply (.buffer limit)).Withstands a n where
  ok h := by
    obtain ⟨offset, b, h'⟩ := hgives'
    obtain ⟨rfl, rfl⟩ := grow_overBuffer hblank h h'
    exact h'
  failed h := by
    obtain ⟨offset, b, h'⟩ := hgives
    cases h.symm.trans h'

/-- The arena after it has grown by the given numbers of bytes one after the other, if it is given
all of them. -/
def growAll (a : Arena) : List Nat → Option Arena
  | [] => some a
  | n :: ns =>
    match Arena.grow n a with
    | .ok _ b => b.growAll ns
    | .error _ _ => none

theorem growAll_cons (h : a.growAll (n :: ns) = some b) :
    ∃ offset a', Arena.grow n a = .ok offset a' ∧ a'.growAll ns = some b := by
  rw [growAll] at h
  split at h
  · rename_i hgrow
    exact ⟨_, _, hgrow, h⟩
  · cases h

theorem growAll_overBuffer (hblank : a.source.Blank) (h : a.growAll ns = some b)
    (h' : (a.overBuffer limit).growAll ns = some b') : b' = b.overBuffer limit := by
  induction ns generalizing a with
  | nil =>
    obtain rfl := Option.some.inj h
    exact (Option.some.inj h').symm
  | cons n ns ih =>
    obtain ⟨offset, a₁, hgrow, h⟩ := growAll_cons h
    obtain ⟨offset', a₁', hgrow', h'⟩ := growAll_cons h'
    obtain ⟨-, rfl⟩ := grow_overBuffer hblank hgrow hgrow'
    exact ih (hblank.grow hgrow) h h'

theorem growAll_lasting (hP : Lasting P) (ha : P a.size a.source) (h : a.growAll ns = some b) :
    P b.size b.source := by
  induction ns generalizing a with
  | nil => exact Option.some.inj h ▸ ha
  | cons n ns ih =>
    obtain ⟨offset, a', hgrow, h⟩ := growAll_cons h
    exact ih (hP.grow ha hgrow) h

end Arena

/-- Heaps that are built at the end of the same bytes differ in their source only. -/
theorem Heap.create_overBuffer {layout : Layout} {arena : Arena} {limit : Nat} {exactLinks : Bool}
    {h h' : Heap} (hblank : arena.source.Blank) (hh : create layout arena exactLinks = .ok h)
    (hh' : create layout (arena.overBuffer limit) exactLinks = .ok h') :
    h' = h.disguise (.supply (.buffer limit)) := by
  rcases create_cases layout with ⟨flaw, hflaw⟩ | ⟨valid, hcreate⟩
  · cases (hflaw _ _).symm.trans hh
  obtain ⟨head, bytes, -, -, -, hvalid⟩ :=
    createValid_eq layout valid (show arena.size ≤ maxContiguous from arena.size_le)
  rw [hcreate, hvalid arena rfl] at hh
  rw [hcreate, hvalid (arena.overBuffer limit) rfl] at hh'
  by_cases hcap : maxTagged < arena.size + bytes
  · rw [if_pos hcap] at hh
    cases hh
  rw [if_neg hcap] at hh hh'
  cases hgrow : Arena.grow bytes arena with
  | error e b =>
    rw [hgrow] at hh
    cases hh
  | ok offset b =>
    cases hgrow' : Arena.grow bytes (arena.overBuffer limit) with
    | error e b' =>
      rw [hgrow'] at hh'
      cases hh'
    | ok offset' b' =>
      obtain ⟨-, rfl⟩ := Arena.grow_overBuffer hblank hgrow hgrow'
      rw [hgrow] at hh
      rw [hgrow'] at hh'
      have hsame := writeSentinels_disguise (.supply (.buffer limit)) (ofFault_eq_ok hh)
      exact Except.ok.inj ((ofFault_eq_ok hh').symm.trans hsame)

theorem Action.asks_disguise (h : Heap) (δ : Disguise) (a : Action) (n : Nat) :
    a.Asks (h.disguise δ) n ↔ a.Asks h n := by
  have hasks : ∀ p size, (h.disguise δ).Asks p size n ↔ h.Asks p size n := fun p size =>
    and_congr_left' (h.needsGrowth_disguise δ p size)
  cases a with
  | allocate | zeroAllocate | resize => exact hasks _ _
  | release | write | raiseBreak => exact Iff.rfl

namespace Client

variable {c d d' : Client} {layout : Layout} {arena : Arena} {v : View} {a : Action}
  {as : List Action} {r : Except HeapError (Option Pointer)} {limit : Nat} {log : Array Record}
  {steps : List (Except HeapError (Option Pointer) × Client)}

/-- The arena gives what the action asks it for. -/
def Supplied (c : Client) (a : Action) : Prop := ∀ n, a.Asks c.heap n → c.heap.arena.Gives n

/-- The arena gives all that the actions ask it for, one after the other. -/
def SuppliedAll (c : Client) : List Action → Prop
  | [] => True
  | a :: as => c.Supplied a ∧ ∀ r d, c.act a = .ok (r, d) → d.SuppliedAll as

instance (c : Client) (a : Action) : Decidable (c.Supplied a) :=
  have request : ∀ p size, Decidable (∀ n, c.heap.Asks p size n → c.heap.arena.Gives n) :=
    fun p size => decidable_of_iff (c.heap.NeedsGrowth p size →
      ∀ need ∈ c.heap.layout.blockSizeFor? size, ∀ n ∈ growthFor? c.heap need,
        c.heap.arena.Gives n)
      ⟨fun h n ⟨hneeds, need, hfor, hn⟩ => h hneeds need hfor n hn,
        fun h hneeds need hfor n hn => h n ⟨hneeds, need, hfor, hn⟩⟩
  match a with
  | .allocate size => request none size
  | .zeroAllocate count size => request none (count * size % Address.space)
  | .resize p size => request p size
  | .release _ | .write _ _ _ | .raiseBreak _ => isTrue fun _ => False.elim

instance decidableSuppliedAll : (c : Client) → (as : List Action) → Decidable (c.SuppliedAll as)
  | _, [] => isTrue trivial
  | c, a :: as =>
    match hact : c.act a with
    | .error _ => decidable_of_iff (c.Supplied a) (by simp [SuppliedAll, hact])
    | .ok (r, d) =>
      have := decidableSuppliedAll d as
      decidable_of_iff (c.Supplied a ∧ d.SuppliedAll as) (by simp [SuppliedAll, hact])

/-- The client over a buffer, with some log. -/
def overBuffer (d : Client) (limit : Nat) (log : Array Record) : Client :=
  d.disguise (.supply (.buffer limit)) log

theorem allows_overBuffer : (d.overBuffer limit log).Allows a ↔ d.Allows a := by
  cases a <;> exact Iff.rfl

/-- **An action is answered alike** over a buffer and above the break, if both give what it asks
for. -/
theorem act_overBuffer (hblank : d.heap.arena.source.Blank) (halone : ∀ n, a ≠ .raiseBreak n)
    (hgiven : (d.overBuffer limit log).Supplied a) (hgiven' : d.Supplied a)
    (hact : d.act a = .ok (r, d')) :
    ∃ log', (d.overBuffer limit log).act a = .ok (r, d'.overBuffer limit log') := by
  obtain ⟨records, -, hsame⟩ := act_disguise (a.parallel_perform
    (fun n hn => Arena.withstands_overBuffer hblank (hgiven' n hn)
      (hgiven n ((a.asks_disguise d.heap _ n).2 hn)))
    fun n ha => absurd ha (halone n)) hact
  exact ⟨_, hsame log⟩

/-- What can be told of `c`, whose arena lies in a buffer, can be told of `d`, whose arena starts at
an aligned address and ends at the program break. -/
structure Mirrors (c d : Client) : Prop where
  /-- The leases. -/
  live_eq : d.live = c.live
  /-- The bytes of the arena. -/
  bytes_eq : d.heap.arena.bytes = c.heap.arena.bytes
  /-- The topmost block, the blocks by address, the free blocks in the order of the list, each with
  its neighbours, and the verdict of the audit. -/
  survey_eq : d.heap.survey = c.heap.survey
  /-- Where the second arena lies. -/
  flush : d.heap.arena.source.Flush d.heap.arena.size

theorem mirrors_overBuffer (hflush : d.heap.arena.source.Flush d.heap.arena.size) :
    (d.overBuffer limit log).Mirrors d where
  live_eq := rfl
  bytes_eq := rfl
  survey_eq := by
    obtain ⟨hbytes, -, -, -, htop, hblocks, hfree, -, hcheck⟩ :=
      Resembles.looks (c := d) (d := d.overBuffer limit log) ⟨_, _, rfl⟩
    rw [Heap.survey, Heap.survey, htop, hblocks, hfree, hcheck]
    rfl
  flush := hflush

theorem run_overBuffer (hd : d.Consistent layout arena v) (hblank : d.heap.arena.source.Blank)
    (hflush : d.heap.arena.source.Flush d.heap.arena.size) (halone : ∀ n, .raiseBreak n ∉ as)
    (hgiven : (d.overBuffer limit log).SuppliedAll as) (hgiven' : d.SuppliedAll as)
    (hrun : (d.overBuffer limit log).run as = some steps) :
    ∃ steps', d.run as = some steps' ∧
      List.Forall₂ (fun x y => y.1 = x.1 ∧ Mirrors x.2 y.2) steps steps' := by
  induction as generalizing d v log steps with
  | nil =>
    cases hrun
    exact ⟨[], rfl, .nil⟩
  | cons a as ih =>
    by_cases ha : d.Allows a
    · have hstays : ∀ n, a ≠ .raiseBreak n := fun n he => halone n (he ▸ List.mem_cons_self ..)
      obtain ⟨r, d', v', hact, hv', -⟩ := hd.act ha
      obtain ⟨log', hact'⟩ := act_overBuffer hblank hstays hgiven.1 hgiven'.1 hact
      have hblank' : d'.heap.arena.source.Blank :=
        maintained lasting_blank hblank (fun n he => absurd he (hstays n)) hact
      have hflush' : d'.heap.arena.source.Flush d'.heap.arena.size :=
        maintained lasting_flush hflush (fun n he => absurd he (hstays n)) hact
      rw [run, if_pos (allows_overBuffer.2 ha), hact', Option.map_eq_some_iff] at hrun
      obtain ⟨rest, hrest, rfl⟩ := hrun
      obtain ⟨rest', hrest', hall⟩ := ih hv' hblank' hflush'
        (fun n hn => halone n (List.mem_cons_of_mem _ hn)) (hgiven.2 _ _ hact') (hgiven'.2 _ _ hact)
        hrest
      refine ⟨(r, d') :: rest', ?_, .cons ⟨rfl, mirrors_overBuffer hflush'⟩ hall⟩
      rw [run, if_pos ha, hact]
      simp only [hrest', Option.map_some]
    · rw [run, if_neg fun ha' => ha (allows_overBuffer.1 ha')] at hrun
      cases hrun

theorem create_overBuffer {exactLinks : Bool} {s t : Session} (hblank : arena.source.Blank)
    (hs : Session.create layout (arena.overBuffer limit) exactLinks = .ok s)
    (ht : Session.create layout arena exactLinks = .ok t) :
    ({ session := s } : Client) = overBuffer { session := t } limit s.log := by
  obtain ⟨h', hh', hs⟩ := exists_of_bind_ok hs
  obtain ⟨h, hh, ht⟩ := exists_of_bind_ok ht
  cases hs
  cases ht
  rw [Heap.create_overBuffer hblank hh hh']
  rfl

/-- **The arenas are interchangeable.**  An arena over a buffer and one above the break, wherever
the break is, grow by the same numbers of bytes, and a heap is built at the end of each.  If the
system hands out zeros, no growth is refused in either run and nobody else moves the break, the same
actions are answered the same, and the heaps look the same after each of them. -/
theorem arenas_interchangeable {brk : ProgramBreak} {ns : List Nat} {a b : Arena}
    {exactLinks : Bool} {s t : Session} (hzero : ∀ address, brk.contents address = 0)
    (ha : (Arena.ofLimit limit).growAll ns = some a)
    (hb : (Arena.ofBreak brk).growAll ns = some b)
    (hs : Session.create layout a exactLinks = .ok s)
    (ht : Session.create layout b exactLinks = .ok t) (halone : ∀ n, .raiseBreak n ∉ as)
    (hgiven : SuppliedAll { session := s } as) (hgiven' : SuppliedAll { session := t } as)
    (hrun : run { session := s } as = some steps) :
    Mirrors { session := s } { session := t } ∧
    ∃ steps', run { session := t } as = some steps' ∧
      List.Forall₂ (fun x y => y.1 = x.1 ∧ Mirrors x.2 y.2) steps steps' := by
  have hempty : (Arena.ofBreak brk).source.Flush (Arena.ofBreak brk).size :=
    ⟨fun _ => rfl, by simp [Arena.ofBreak]⟩
  have hflush : t.heap.arena.source.Flush t.heap.arena.size :=
    maintained_create lasting_flush (Arena.growAll_lasting lasting_flush hempty hb) ht
  have hblank : (Arena.ofBreak brk).source.Blank := funext hzero
  have hblank' : b.source.Blank := Arena.growAll_lasting lasting_blank hblank hb
  have ha : (Arena.overBuffer (.ofBreak brk) limit).growAll ns = some a := ha
  obtain rfl : a = b.overBuffer limit := Arena.growAll_overBuffer hblank hb ha
  rw [create_overBuffer hblank' hs ht] at hrun hgiven ⊢
  exact ⟨mirrors_overBuffer hflush, run_overBuffer (consistent_create ht)
    (maintained_create lasting_blank hblank' ht) hflush halone hgiven hgiven' hrun⟩

/-- The break is not aligned at first.  Above eight bytes, the heaps grow, reuse a block, move
another one and refuse a third, which would make them larger than a heap may become. -/
theorem arenas_interchangeable_ofUnalignedBreak : ∃ brk as a b s t steps steps',
    brk.top = 4097 ∧ (∀ address, brk.contents address = 0) ∧
    as = [.allocate 24, .allocate 8, .write ⟨96⟩ 8 UInt8.ofNat, .release (some ⟨64⟩), .allocate 4,
      .resize (some ⟨96⟩) 40, .allocate 0xFFFF_FFE0] ∧
    (Arena.ofLimit 0xFFFF_FFFF).growAll [3, 5] = some a ∧
    (Arena.ofBreak brk).growAll [3, 5] = some b ∧
    Session.create {} a = .ok s ∧ Session.create {} b = .ok t ∧
    (∀ n, .raiseBreak n ∉ as) ∧ SuppliedAll { session := s } as ∧
    SuppliedAll { session := t } as ∧ run { session := s } as = some steps ∧
    steps.map Prod.fst = [.ok (some ⟨64⟩), .ok (some ⟨96⟩), .ok none, .ok none, .ok (some ⟨64⟩),
      .ok (some ⟨112⟩), .error (.outOfMemory 0xFFFF_FFF0)] ∧
    run { session := t } as = some steps' ∧
    List.Forall₂ (fun x y => y.1 = x.1 ∧ Mirrors x.2 y.2) steps steps' := by
  obtain ⟨as, has⟩ : ∃ as : List Action, as = [.allocate 24, .allocate 8,
    .write ⟨96⟩ 8 UInt8.ofNat, .release (some ⟨64⟩), .allocate 4, .resize (some ⟨96⟩) 40,
    .allocate 0xFFFF_FFE0] := ⟨_, rfl⟩
  have hruns : (((Arena.ofLimit 0xFFFF_FFFF).growAll [3, 5]).any fun a =>
      (Session.create {} a).toOption.any fun s => SuppliedAll { session := s } as ∧
        (run { session := s } as).any fun steps => steps.map Prod.fst =
          [.ok (some ⟨64⟩), .ok (some ⟨96⟩), .ok none, .ok none, .ok (some ⟨64⟩), .ok (some ⟨112⟩),
            .error (.outOfMemory 0xFFFF_FFF0)]) ∧
    ((Arena.ofBreak ⟨4097, 0, fun _ _ => true, fun _ => 0, by decide⟩).growAll [3, 5]).any fun b =>
      (Session.create {} b).toOption.any fun t => SuppliedAll { session := t } as := by
    subst has
    decide +kernel
  obtain ⟨a, ha, hs⟩ := (Option.any_eq_true _ _).1 hruns.1
  obtain ⟨s, hs, hsees⟩ := (Option.any_eq_true _ _).1 hs
  obtain ⟨hgiven, hrun⟩ := of_decide_eq_true hsees
  obtain ⟨steps, hrun, hanswers⟩ := (Option.any_eq_true _ _).1 hrun
  obtain ⟨b, hb, ht⟩ := (Option.any_eq_true _ _).1 hruns.2
  obtain ⟨t, ht, hgiven'⟩ := (Option.any_eq_true _ _).1 ht
  have hs := ok_of_toOption hs
  have ht := ok_of_toOption ht
  have hgiven' := of_decide_eq_true hgiven'
  have halone : ∀ n, .raiseBreak n ∉ as := by simp [has]
  obtain ⟨-, steps', hrun', hall⟩ :=
    arenas_interchangeable (fun _ => rfl) ha hb hs ht halone hgiven hgiven' hrun
  exact ⟨_, as, a, b, s, t, steps, steps', rfl, fun _ => rfl, has, ha, hb, hs, ht, halone, hgiven,
    hgiven', hrun, of_decide_eq_true hanswers, hrun', hall⟩

end Client

end TaggedHeap
