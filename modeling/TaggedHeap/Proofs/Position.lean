import TaggedHeap.Proofs.ShiftedView
import TaggedHeap.Proofs.Translate

/-!
# Placement in the arena does not matter

A heap that is built on top of other bytes works like one that is built in an empty arena, only
further up.  The two are built `d` bytes apart, where `d` is the number of those bytes rounded up to
the alignment (`Heap.create_shifted`), and remain so as long as both arenas give the bytes that they
are asked for (`Client.Shifted.act`).  Hence two runs with the same actions answer the same
pointers, hold the same blocks and leave the same bytes, all of them `d` bytes apart
(`Client.position_independent`).
-/

namespace TaggedHeap

open Heap SessionM

variable {d : Nat} {layout : Layout} {arena arena' : Arena} {exactLinks exactLinks' : Bool}

/-! ### Building a heap -/

namespace Heap

variable {h h' : Heap}

theorem createValid_ok {valid : layout.Valid}
    (hh : createValid layout valid arena exactLinks = .ok h) :
    ∃ head bytes source fits, layout.alignment ≤ head + 4 ∧
      layout.RoundsTo arena.size (head + 4 - layout.alignment) ∧
      arena.size + bytes = head + 2 * layout.minBlock + 4 ∧
      (arena.source.Blank → source.Blank) ∧
      writeSentinels ⟨arena.append bytes source fits, layout, valid, head,
        head + layout.minBlock, exactLinks⟩ = .ok h := by
  obtain ⟨head, bytes, hle, hrounds, htotal, hcreate⟩ :=
    createValid_eq layout valid (show arena.size ≤ maxContiguous from arena.size_le)
  rw [hcreate arena rfl] at hh
  split at hh
  · cases hh
  cases hgrow : Arena.grow bytes arena with
  | error e a =>
    rw [hgrow] at hh
    cases hh
  | ok offset a =>
    have hblank : arena.source.Blank → a.source.Blank := fun h => h.grow hgrow
    rw [hgrow] at hh
    obtain ⟨-, source, fits, rfl, -⟩ := Arena.grow_ok hgrow
    exact ⟨head, bytes, source, fits, hle, hrounds, htotal, hblank, ofFault_eq_ok hh⟩

/-- **Heaps are built apart** by the bytes that lie below the one and not below the other, rounded
up to the alignment. -/
theorem create_shifted (hblank : arena.source.Blank) (hblank' : arena'.source.Blank)
    (hempty : arena.size = 0) (hd : layout.RoundsTo arena'.size d)
    (hh : create layout arena exactLinks = .ok h)
    (hh' : create layout arena' exactLinks' = .ok h') : h.Shifted d h' := by
  rcases create_cases layout with ⟨flaw, hflaw⟩ | ⟨valid, hcreate⟩
  · rw [hflaw] at hh
    cases hh
  rw [hcreate] at hh hh'
  obtain ⟨head, bytes, source, fits, hle, hrounds, htotal, hzeros, hwrite⟩ := createValid_ok hh
  obtain ⟨head', bytes', source', fits', hle', hrounds', htotal', hzeros', hwrite'⟩ :=
    createValid_ok hh'
  have hzero : layout.RoundsTo arena.size 0 := by
    refine ⟨Nat.zero_mod _, hempty.le, ?_⟩
    have := valid.alignment_pos
    omega
  have hlow := hrounds.eq hzero
  have hhigh := hrounds'.eq hd
  have hhead : head' = head + d := by omega
  have hbelow := hd.le
  -- before the sentinels are written, only zeros lie above the old bytes
  have hstart : Shifted d
      ⟨arena.append bytes source fits, layout, valid, head, head + layout.minBlock, exactLinks⟩
      ⟨arena'.append bytes' source' fits', layout, valid, head', head' + layout.minBlock,
        exactLinks'⟩ := by
    refine ⟨⟨?_, fun i => ?_, hzeros hblank, hzeros' hblank'⟩, rfl, hhead, ?_⟩
    · show (arena'.append bytes' source' fits').size = (arena.append bytes source fits).size + d
      rw [Arena.size_append, Arena.size_append]
      omega
    · show (arena'.append bytes' source' fits').byte (i + d) =
        (arena.append bytes source fits).byte i
      rw [Arena.byte_append_of_blank (hzeros' hblank') fits',
        Arena.byte_append_of_blank (hzeros hblank) fits,
        Arena.byte_of_le (by omega), Arena.byte_of_le (by omega)]
    · show head' + layout.minBlock = head + layout.minBlock + d
      omega
  exact hstart.writeSentinels h h' hwrite hwrite'

end Heap

theorem Session.create_shifted {s s' : Session} (hblank : arena.source.Blank)
    (hblank' : arena'.source.Blank) (hempty : arena.size = 0)
    (hd : layout.RoundsTo arena'.size d) (hs : create layout arena exactLinks = .ok s)
    (hs' : create layout arena' exactLinks' = .ok s') : s.heap.Shifted d s'.heap := by
  obtain ⟨h, hh, hs⟩ := exists_of_bind_ok hs
  obtain ⟨h', hh', hs'⟩ := exists_of_bind_ok hs'
  cases hs
  cases hs'
  exact Heap.create_shifted hblank hblank' hempty hd hh hh'

/-! ### Runs -/

/-- The lease of a pointer `d` bytes further up. -/
def Lease.shift (d : Nat) (l : Lease) : Lease := ⟨l.pointer.shift d, l.requested⟩

namespace Action

theorem returned_shift (d : Nat) (a : Action) :
    (a.shift d).returned = a.returned.map (Pointer.shift d) := by
  cases a <;> rfl

theorem requested_shift (d : Nat) (a : Action) : (a.shift d).requested = a.requested := by
  cases a <;> rfl

theorem settle_shift (d : Nat) (a : Action) (r : Option Pointer) (live : List Lease) :
    (a.shift d).settle (r.map (Pointer.shift d)) (live.map (Lease.shift d)) =
      (a.settle r live).map (Lease.shift d) := by
  have hreturned : ∀ p : Pointer, a.returned.map (Pointer.shift d) = some (p.shift d) ↔
      a.returned = some p := by
    intro p
    cases a.returned with
    | none => simp
    | some q => simp [Pointer.shift_inj]
  rw [settle, settle, returned_shift, requested_shift, List.map_append, List.filter_map]
  congr 1
  · cases r <;> rfl
  · refine congrArg _ (List.filter_congr fun l _ => ?_)
    simp only [Function.comp_apply, Lease.shift, ne_eq, hreturned]

end Action

namespace Client

variable {c c' e : Client} {v v' : View} {a : Action} {as : List Action}
  {r : Except HeapError (Option Pointer)}
  {steps : List (Except HeapError (Option Pointer) × Client)}

/-- The answers to the actions and the states after each of them, if all of them are allowed. -/
def run (c : Client) : List Action → Option (List (Except HeapError (Option Pointer) × Client))
  | [] => some []
  | a :: as =>
    if c.Allows a then
      match c.act a with
      | .ok (r, d) => (d.run as).map fun steps => (r, d) :: steps
      | .error _ => none
    else none

/-- An action that needs new bytes is given them. -/
def Grants (c : Client) (a : Action) : Prop :=
  a.NeedsGrowth c.heap → ∃ p d, c.act a = .ok (.ok p, d)

/-- No growth is refused: the actions are given new bytes whenever they need them. -/
def GrantsAll (c : Client) : List Action → Prop
  | [] => True
  | a :: as => c.Grants a ∧ ∀ r d, c.act a = .ok (r, d) → d.GrantsAll as

/-- All that `c` holds is found `d` bytes further up in `c'`. -/
structure Shifted (d : Nat) (c c' : Client) : Prop where
  /-- The heaps. -/
  heap : c.heap.Shifted d c'.heap
  /-- The leases. -/
  live_eq : c'.live = c.live.map (Lease.shift d)

theorem error_of_act {er : HeapError} (h : c.act a = .ok (.error er, e)) :
    a.perform c.session = .error (.failed er) e.session ∧ e.live = c.live := by
  rw [act] at h
  split at h <;> cases h
  rename_i hrun
  exact ⟨hrun, rfl⟩

/-- Where no growth is refused, only requests that exceed every block are answered an error. -/
theorem Grants.oversized (hg : c.Grants a) {er : HeapError} (hact : c.act a = .ok (.error er, e)) :
    c.heap.layout.Oversized a.requested := by
  refine (Action.failed_cases (error_of_act hact).1).resolve_left fun hneeds => ?_
  obtain ⟨p, d, hact'⟩ := hg hneeds
  cases hact.symm.trans hact'

theorem act_oversized (h : c.heap.layout.Oversized a.requested) : ∃ log,
    c.act a = .ok (.error (.outOfMemory a.requested), ⟨⟨c.heap, log⟩, c.live⟩) := by
  obtain ⟨log, hrun⟩ := Action.perform_oversized (s := c.session) h
  exact ⟨log, by rw [act, hrun]; rfl⟩

namespace Shifted

theorem pointers_eq (hs : c.Shifted d c') : c'.pointers = c.pointers.map (Pointer.shift d) := by
  rw [pointers, pointers, hs.live_eq, List.map_map, List.map_map]
  rfl

theorem mem_pointers (hs : c.Shifted d c') {p : Pointer} (hp : p ∈ c.pointers) :
    p.shift d ∈ c'.pointers := by
  rw [hs.pointers_eq]
  exact List.mem_map_of_mem hp

theorem allows (hs : c.Shifted d c') (hc' : c'.Consistent layout arena' v') (ha : c.Allows a) :
    c'.Allows (a.shift d) := by
  have hmem : ∀ p : Option Pointer, (∀ q ∈ p, q ∈ c.pointers) →
      ∀ q ∈ p.map (Pointer.shift d), q ∈ c'.pointers := by
    rintro (_ | p) hp _ ⟨⟩
    exact hs.mem_pointers (hp p rfl)
  cases a with
  | resize p size => exact hmem p ha
  | release p => exact hmem p ha
  | write p count byte =>
    obtain ⟨hp, n, hn, hle⟩ := ha
    have hp' := hs.mem_pointers hp
    obtain ⟨x, hx, hxp⟩ := hc'.exists_of_held hp'
    have hn' := hc'.usableSize_eq hx
    rw [hxp] at hn'
    exact ⟨hp', _, hn', (hs.heap.usableSize p _ _ hn hn') ▸ hle⟩
  | allocate | zeroAllocate | raiseBreak => trivial

/-- **Actions are answered alike**, and the heaps stay apart. -/
theorem act (hs : c.Shifted d c') (hc' : c'.Consistent layout arena' v')
    (ha : c.Allows a) (hg : c.Grants a) (hg' : c'.Grants (a.shift d))
    (hact : c.act a = .ok (r, e)) :
    ∃ e', c'.act (a.shift d) = .ok (r.map (Option.map (Pointer.shift d)), e') ∧
      e.Shifted d e' := by
  have hlayout := hs.heap.layout_eq
  obtain ⟨r', e', -, hact', -⟩ := hc'.act (hs.allows hc' ha)
  cases r with
  | error er =>
    -- the request exceeds every block
    have hover := hg.oversized hact
    obtain ⟨log, hcact⟩ := act_oversized hover
    rw [← hlayout, ← a.requested_shift d] at hover
    obtain ⟨log', hcact'⟩ := act_oversized hover
    cases hact.symm.trans hcact
    rw [a.requested_shift d] at hcact'
    exact ⟨_, hcact', hs.heap, hs.live_eq⟩
  | ok p =>
    cases r' with
    | error er =>
      -- what exceeds every block on top of other bytes also does so in an empty arena
      have hover := hg'.oversized hact'
      rw [hlayout, a.requested_shift d] at hover
      obtain ⟨log, hcact⟩ := act_oversized hover
      cases hact.symm.trans hcact
    | ok p' =>
      obtain ⟨hrun, hlive⟩ := live_of_act hact
      obtain ⟨hrun', hlive'⟩ := live_of_act hact'
      obtain ⟨rfl, hheap⟩ :=
        a.translates_perform d c.session c'.session hs.heap p e.session p' e'.session hrun hrun'
      refine ⟨e', hact', hheap, ?_⟩
      rw [hlive', hlive, hs.live_eq, Action.settle_shift]

end Shifted

/-- What can be told of `c` can be told of `c'`, with all offsets `d` bytes further up. -/
structure Displaced (d : Nat) (c c' : Client) : Prop where
  /-- The leases. -/
  live_eq : c'.live = c.live.map (Lease.shift d)
  /-- The head sentinel. -/
  head_eq : c'.heap.head = c.heap.head + d
  /-- The tail sentinel. -/
  tail_eq : c'.heap.tail = c.heap.tail + d
  /-- The topmost block, the blocks by address, the free blocks in the order of the list, each with
  its neighbours, and the verdict of the audit. -/
  survey_eq : c'.heap.survey = c.heap.survey.shift d
  /-- The bytes of the arena. -/
  bytes_eq : c'.heap.arena.slice d c'.heap.arena.size = .ok c.heap.arena.bytes.toList
  /-- The payloads. -/
  payload_eq : ∀ p ∈ c.pointers, ∃ n bytes, c.heap.usableSize p = .ok n ∧
    c'.heap.usableSize (p.shift d) = .ok n ∧ c.heap.payload p = .ok bytes ∧
    c'.heap.payload (p.shift d) = .ok bytes

namespace Shifted

theorem displaced (hs : c.Shifted d c') (hc : c.Consistent layout arena v)
    (hc' : c'.Consistent layout arena' v') : c.Displaced d c' where
  live_eq := hs.live_eq
  head_eq := hs.heap.head_eq
  tail_eq := hs.heap.tail_eq
  survey_eq := hs.heap.survey_eq hc.sound
  bytes_eq := hs.heap.arena.slice_all
  payload_eq p hp := by
    obtain ⟨x, hx, rfl⟩ := hc.exists_of_held hp
    obtain ⟨y, hy, hyp⟩ := hc'.exists_of_held (hs.mem_pointers hp)
    have hn := hc'.usableSize_eq hy
    have hbytes := hc'.payload_eq hy
    rw [hyp] at hn hbytes
    refine ⟨_, _, hc.usableSize_eq hx, ?_, hc.payload_eq hx, ?_⟩
    · rw [hn, ← hs.heap.usableSize x.pointer _ _ (hc.usableSize_eq hx) hn]
    · rw [hbytes, ← hs.heap.payload x.pointer _ _ (hc.payload_eq hx) hbytes]

theorem run (hs : c.Shifted d c') (hc : c.Consistent layout arena v)
    (hc' : c'.Consistent layout arena' v') (hrun : c.run as = some steps) (hg : c.GrantsAll as)
    (hg' : c'.GrantsAll (as.map (Action.shift d))) :
    ∃ steps', c'.run (as.map (Action.shift d)) = some steps' ∧
      List.Forall₂ (fun x y => y.1 = x.1.map (Option.map (Pointer.shift d)) ∧
        Displaced d x.2 y.2) steps steps' := by
  induction as generalizing c c' v v' steps with
  | nil =>
    cases hrun
    exact ⟨[], rfl, .nil⟩
  | cons a as ih =>
    by_cases ha : c.Allows a
    · have ha' := hs.allows hc' ha
      obtain ⟨r, e, v₁, hact, hv₁, -⟩ := hc.act ha
      rw [Client.run, if_pos ha, hact, Option.map_eq_some_iff] at hrun
      obtain ⟨rest, hrest, rfl⟩ := hrun
      obtain ⟨e', hact', hs₁⟩ := hs.act hc' ha hg.1 hg'.1 hact
      obtain ⟨_, _, v₁', hsame, hv₁', -⟩ := hc'.act ha'
      cases hact'.symm.trans hsame
      obtain ⟨rest', hrest', hall⟩ := ih hs₁ hv₁ hv₁' hrest (hg.2 _ _ hact) (hg'.2 _ _ hact')
      refine ⟨(r.map (Option.map (Pointer.shift d)), e') :: rest', ?_,
        .cons ⟨rfl, hs₁.displaced hv₁ hv₁'⟩ hall⟩
      rw [List.map_cons, Client.run, if_pos ha', hact']
      simp only [hrest', Option.map_some]
    · rw [Client.run, if_neg ha] at hrun
      cases hrun

end Shifted

/-- Where every action is answered without an error no growth is refused. -/
theorem grantsAll_of_run (hrun : c.run as = some steps)
    (hok : ∀ x ∈ steps, x.1.toOption.isSome) : c.GrantsAll as := by
  induction as generalizing c steps with
  | nil => trivial
  | cons a as ih =>
    rw [run] at hrun
    split at hrun
    · split at hrun
      · rename_i r e hact
        obtain ⟨rest, hrest, rfl⟩ := Option.map_eq_some_iff.1 hrun
        obtain ⟨hr, hrestok⟩ := List.forall_mem_cons.1 hok
        obtain ⟨p, hp⟩ := Option.isSome_iff_exists.1 hr
        obtain rfl : r = .ok p := ok_of_toOption hp
        refine ⟨fun _ => ⟨p, e, hact⟩, fun r' e' hact' => ?_⟩
        cases hact.symm.trans hact'
        exact ih hrest hrestok
      · cases hrun
    · cases hrun

/-- **Heaps are position independent.**  A heap is built in an empty arena and another one on top of
`arena'.size` bytes, which are `d` bytes when rounded up to the alignment.  Both arenas go on with
zeros, as buffers do.  If no growth is refused, the same actions are answered the same in both runs,
and every pointer, every block with its neighbours, and every byte of the first arena is found `d`
bytes further up in the second one. -/
theorem position_independent {s s' : Session} (hblank : arena.source.Blank)
    (hblank' : arena'.source.Blank) (hempty : arena.size = 0)
    (hd : layout.RoundsTo arena'.size d) (hs : Session.create layout arena exactLinks = .ok s)
    (hs' : Session.create layout arena' exactLinks' = .ok s')
    (hrun : run { session := s } as = some steps) (hg : GrantsAll { session := s } as)
    (hg' : GrantsAll { session := s' } (as.map (Action.shift d))) :
    Displaced d { session := s } { session := s' } ∧
    ∃ steps', run { session := s' } (as.map (Action.shift d)) = some steps' ∧
      List.Forall₂ (fun x y => y.1 = x.1.map (Option.map (Pointer.shift d)) ∧
        Displaced d x.2 y.2) steps steps' := by
  have hc := consistent_create hs
  have hc' := consistent_create hs'
  have hstart : Shifted d { session := s } { session := s' } :=
    ⟨Session.create_shifted hblank hblank' hempty hd hs hs', rfl⟩
  exact ⟨hstart.displaced hc hc', hstart.run hc hc' hrun hg hg'⟩

/-- A block is given back and used again, and another one moves, on top of three bytes and on top of
none. -/
theorem position_independent_ofThreeBytes : ∃ s s' steps steps',
    Session.create {} (.ofLimit 400) = .ok s ∧
    Session.create {} { bytes := #[1, 2, 3], source := .buffer 400 } = .ok s' ∧
    run { session := s } [.allocate 24, .allocate 8, .write ⟨80⟩ 8 UInt8.ofNat,
      .release (some ⟨48⟩), .allocate 4, .resize (some ⟨80⟩) 40] = some steps ∧
    run { session := s' } [.allocate 24, .allocate 8, .write ⟨96⟩ 8 UInt8.ofNat,
      .release (some ⟨64⟩), .allocate 4, .resize (some ⟨96⟩) 40] = some steps' ∧
    steps.map Prod.fst = [.ok (some ⟨48⟩), .ok (some ⟨80⟩), .ok none, .ok none,
      .ok (some ⟨48⟩), .ok (some ⟨96⟩)] ∧
    List.Forall₂ (fun x y => y.1 = x.1.map (Option.map (Pointer.shift 16)) ∧
      Displaced 16 x.2 y.2) steps steps' := by
  have hruns : ((Session.create {} (.ofLimit 400)).toOption.any fun s =>
      (run { session := s } [.allocate 24, .allocate 8, .write ⟨80⟩ 8 UInt8.ofNat,
        .release (some ⟨48⟩), .allocate 4, .resize (some ⟨80⟩) 40]).any fun steps =>
      (steps.all fun x => x.1.toOption.isSome) ∧ steps.map Prod.fst = [.ok (some ⟨48⟩),
        .ok (some ⟨80⟩), .ok none, .ok none, .ok (some ⟨48⟩), .ok (some ⟨96⟩)]) ∧
    (Session.create {} { bytes := #[1, 2, 3], source := .buffer 400 }).toOption.any fun s =>
      (run { session := s } [.allocate 24, .allocate 8, .write ⟨96⟩ 8 UInt8.ofNat,
        .release (some ⟨64⟩), .allocate 4, .resize (some ⟨96⟩) 40]).any fun steps =>
      steps.all fun x => x.1.toOption.isSome := by
    decide +kernel
  obtain ⟨s, hs, hrun⟩ := (Option.any_eq_true _ _).1 hruns.1
  obtain ⟨s', hs', hrun'⟩ := (Option.any_eq_true _ _).1 hruns.2
  obtain ⟨steps, hrun, hsees⟩ := (Option.any_eq_true _ _).1 hrun
  obtain ⟨steps', hrun', hok'⟩ := (Option.any_eq_true _ _).1 hrun'
  obtain ⟨hok, hanswers⟩ := of_decide_eq_true hsees
  have hs := ok_of_toOption hs
  have hs' := ok_of_toOption hs'
  obtain ⟨-, steps'', hrun'', hall⟩ := position_independent (d := 16) (Source.blank_buffer 400)
    (Source.blank_buffer 400) rfl ⟨by decide, by decide, by decide⟩ hs hs' hrun
    (grantsAll_of_run hrun (List.all_eq_true.1 hok))
    (grantsAll_of_run hrun' (List.all_eq_true.1 hok'))
  cases hrun'.symm.trans hrun''
  exact ⟨s, s', steps, steps', hs, hs', hrun, hrun', hanswers, hall⟩

end Client

end TaggedHeap
