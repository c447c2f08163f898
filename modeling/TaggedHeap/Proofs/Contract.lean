import TaggedHeap.Proofs.Audit
import TaggedHeap.Proofs.Client

/-!
# What users may rely on

The guarantees of a heap, for all states of all runs.

* `Client.Reachable.always_sound`: the heap is sound, its listings and its audit say so, and no
  action that is allowed faults.
* `Client.Reachable.payload_kept`: no action changes the payload of a block that it is not about,
  and resizing keeps as much of the payload as there is room for.
* `Client.Reachable.accounted`: the blocks in use are those of the pointers held, one each, and each
  holds what was asked for.
* `Client.Reachable.below_untouched`: what the arena held before the heap was built stays there.
-/

namespace TaggedHeap

open Heap

namespace Client

variable {c c' : Client} {layout : Layout} {arena : Arena} {v : View} {a : Action}
  {r : Except HeapError (Option Pointer)} {x : Span}

/-- **The heap is sound after every step** of every run.  Both listings and the audit say of it
what it holds, and whatever its users do next is carried out or refused. -/
theorem Reachable.always_sound (hc : Reachable layout arena c) :
    (∃ v, c.heap.layout = layout ∧ c.heap.Placed ∧ c.heap.Sound v ∧
      c.heap.blocks = .ok (v.spans.map c.heap.blockOf) ∧
      (∃ xs : List Span, xs.Perm (v.spans.filter Span.free) ∧ xs.map Span.offset = v.ring ∧
        c.heap.freeBlocks = .ok (xs.map c.heap.blockOf)) ∧
      c.heap.check = .ok (c.heap.reportOf v.spans)) ∧
    ∀ a, c.Allows a → ∃ r c', c.act a = .ok (r, c') ∧ Reachable layout arena c' := by
  obtain ⟨v, hv⟩ := hc.consistent
  obtain ⟨xs, hperm, hring⟩ := hv.sound.exists_listing
  refine ⟨⟨v, hv.anchored.layout_eq, hv.anchored.placed, hv.sound,
    hv.sound.holds.blocks_eq hv.sound.top_eq,
    ⟨xs, hperm, hring, hv.sound.freeBlocks_eq hperm hring⟩, hv.sound.check_eq⟩, fun a ha => ?_⟩
  obtain ⟨r, c', v', hact, -⟩ := hv.act ha
  exact ⟨r, c', hact, hc.act ha hact⟩

/-- Two blocks, one of them free again, in memory that was not cleared. -/
theorem Reachable.always_sound_of_three : ∃ c, Reachable {}
      (.ofBreak { top := 4097, contents := fun _ => 0xFF, top_lt := by decide }) c ∧
    c.pointers = [⟨64⟩] ∧ c.heap.arena.byte 0 = 0xFF ∧
    (∃ v, c.heap.Sound v ∧ c.heap.reportOf v.spans = ⟨2, 1, 16, 16, 80⟩) ∧
    ∃ r c', c.act (.resize (some ⟨64⟩) 24) = .ok (r, c') := by
  obtain ⟨c, hc, hsees⟩ := exists_reachable {}
    (.ofBreak { top := 4097, contents := fun _ => 0xFF, top_lt := by decide })
    [.allocate 8, .allocate 8, .release (some ⟨48⟩)]
    (fun c => c.pointers = [⟨64⟩] ∧ c.heap.arena.byte 0 = 0xFF ∧
      c.heap.check = .ok ⟨2, 1, 16, 16, 80⟩) (by decide +kernel)
  obtain ⟨hpointers, hdirty, hcheck⟩ := of_decide_eq_true hsees
  obtain ⟨⟨v, -, -, hv, -, -, hpass⟩, hnext⟩ := Reachable.always_sound hc
  obtain ⟨r, c', hact, -⟩ := hnext (.resize (some ⟨64⟩) 24) fun q hq => by
    rw [hpointers, List.mem_singleton]
    exact (Option.some.inj hq).symm
  exact ⟨c, hc, hpointers, hdirty, ⟨v, hv, Except.ok.inj (hpass.symm.trans hcheck)⟩, r, c', hact⟩

/-! ### Payloads -/

theorem ok_of_toOption {ε α : Type} {r : Except ε α} {a : α} (h : r.toOption = some a) :
    r = .ok a := by
  cases r <;> cases h
  rfl

namespace Consistent

theorem usableSize_eq (hc : c.Consistent layout arena v) (hx : x ∈ Span.used v.spans) :
    c.heap.usableSize x.pointer = .ok (x.size - 8) :=
  hc.sound.holds.usableSize_eq (mem_chain_of_mem (Span.mem_used.1 hx).1)

theorem payload_eq (hc : c.Consistent layout arena v) (hx : x ∈ Span.used v.spans) :
    c.heap.payload x.pointer =
      .ok ((List.range (x.size - 8)).map fun i => c.heap.arena.byte (x.offset + 4 + i)) :=
  hc.sound.holds.payload_eq (mem_chain_of_mem (Span.mem_used.1 hx).1)

theorem payload_keep {v' : View} (hc : c.Consistent layout arena v)
    (hc' : c'.Consistent layout arena v') (hx : x ∈ Span.used v.spans)
    (hx' : x ∈ Span.used v'.spans) (hkeep : c.heap.arena.Keeps c'.heap.arena x.bytes) :
    c'.heap.payload x.pointer = c.heap.payload x.pointer := by
  rw [hc.payload_eq hx, hc'.payload_eq hx']
  refine congrArg _ (List.map_congr_left fun i hi => hkeep.byte_eq _ ?_)
  rw [List.mem_range] at hi
  rw [Span.mem_bytes, Span.stop]
  omega

/-- A pointer that the action is not about stays held, and its payload stays as it is. -/
theorem payload_frame {v' : View} (hc : c.Consistent layout arena v)
    (hc' : c'.Consistent layout arena v') (he : c.Effect a r c' v v') {p : Pointer}
    (hp : p ∈ c.pointers) (hne : a.subject = some p → ∃ e, r = .error e) :
    p ∈ c'.pointers ∧ ∃ n bytes, c.heap.usableSize p = .ok n ∧ c'.heap.usableSize p = .ok n ∧
      bytes.length = n ∧ c.heap.payload p = .ok bytes ∧ c'.heap.payload p = .ok bytes := by
  obtain ⟨x, hx, rfl⟩ := hc.exists_of_held hp
  obtain ⟨hx', hkeep⟩ := he.frame x hx hne
  refine ⟨hc'.owned.mem_iff.2 (List.mem_map_of_mem hx'), _, _, hc.usableSize_eq hx,
    hc'.usableSize_eq hx', ?_, hc.payload_eq hx, ?_⟩
  · rw [List.length_map, List.length_range]
  · exact (hc.payload_keep hc' hx hx' hkeep).trans (hc.payload_eq hx)

theorem payload_resized {v' : View} (hc : c.Consistent layout arena v)
    (hc' : c'.Consistent layout arena v') {p q : Pointer} {size : Nat}
    (he : c.Effect (.resize (some p) size) (.ok (some q)) c' v v') (hp : p ∈ c.pointers) :
    ∃ n old new, c.heap.usableSize p = .ok n ∧ c.heap.payload p = .ok old ∧
      c'.heap.payload q = .ok new ∧ min n size ≤ old.length ∧ min n size ≤ new.length ∧
      new.take (min n size) = old.take (min n size) := by
  obtain ⟨x, hx, rfl⟩ := hc.exists_of_held hp
  obtain ⟨y, hy, rfl, hroom, hcontent⟩ := he.content x hx q size rfl rfl
  refine ⟨_, _, _, hc.usableSize_eq hx, hc.payload_eq hx, hc'.payload_eq hy, ?_, ?_, ?_⟩
  · rw [List.length_map, List.length_range]
    exact Nat.min_le_left _ _
  · rw [List.length_map, List.length_range]
    omega
  · rw [← List.map_take, ← List.map_take, List.take_range, List.take_range,
      Nat.min_eq_left (Nat.min_le_left _ _), Nat.min_eq_left (by omega)]
    refine List.map_congr_left fun i hi => ?_
    rw [List.mem_range] at hi
    exact hcontent i (by omega) (by omega)

end Consistent

/-- **No action changes the payload of a block that it is not about.**  Resizing keeps as much of
the payload as the old block holds and the new one is asked for, and all of it if the request is
refused. -/
theorem Reachable.payload_kept (hc : Reachable layout arena c) (ha : c.Allows a)
    (hact : c.act a = .ok (r, c')) :
    (∀ p ∈ c.pointers, p ∈ c'.pointers → a.subject ≠ some p →
      ∃ n bytes, c.heap.usableSize p = .ok n ∧ c'.heap.usableSize p = .ok n ∧ bytes.length = n ∧
        c.heap.payload p = .ok bytes ∧ c'.heap.payload p = .ok bytes) ∧
    (∀ p q size, a = .resize (some p) size → r = .ok (some q) →
      ∃ n old new, c.heap.usableSize p = .ok n ∧ c.heap.payload p = .ok old ∧
        c'.heap.payload q = .ok new ∧ min n size ≤ old.length ∧ min n size ≤ new.length ∧
        new.take (min n size) = old.take (min n size)) ∧
    (∀ p size e, a = .resize (some p) size → r = .error e →
      p ∈ c'.pointers ∧ ∃ n bytes, c.heap.usableSize p = .ok n ∧ c'.heap.usableSize p = .ok n ∧
        bytes.length = n ∧ c.heap.payload p = .ok bytes ∧ c'.heap.payload p = .ok bytes) := by
  obtain ⟨v, hv⟩ := hc.consistent
  obtain ⟨_, _, v', hact', hv', heffect⟩ := hv.act ha
  cases hact.symm.trans hact'
  refine ⟨fun p hp _ hne => ?_, ?_, ?_⟩
  · exact (hv.payload_frame hv' heffect hp fun he => absurd he hne).2
  · rintro p q size rfl rfl
    exact hv.payload_resized hv' heffect (ha p rfl)
  · rintro p size e rfl rfl
    exact hv.payload_frame hv' heffect (ha p rfl) fun _ => ⟨e, rfl⟩

theorem Reachable.payload_kept_of_moved : ∃ c c', Reachable {} (.ofLimit 128) c ∧
    c.Allows (.resize (some ⟨48⟩) 24) ∧ c.act (.resize (some ⟨48⟩) 24) = .ok (.ok (some ⟨80⟩), c') ∧
    (∃ bytes, bytes.length = 8 ∧ c.heap.payload ⟨64⟩ = .ok bytes ∧
      c'.heap.payload ⟨64⟩ = .ok bytes) ∧
    ∃ old new, c.heap.payload ⟨48⟩ = .ok old ∧ c'.heap.payload ⟨80⟩ = .ok new ∧
      new.take 8 = old.take 8 := by
  obtain ⟨c, hc, hsees⟩ := exists_reachable {} (.ofLimit 128)
    [.allocate 8, .allocate 8, .write ⟨48⟩ 8 fun i => .ofNat i]
    (fun c => c.Allows (.resize (some ⟨48⟩) 24) ∧ ⟨64⟩ ∈ c.pointers ∧
      c.heap.usableSize ⟨48⟩ = .ok 8 ∧ c.heap.usableSize ⟨64⟩ = .ok 8 ∧
      (c.act (.resize (some ⟨48⟩) 24)).toOption.any fun x =>
        x.1.toOption = some (some ⟨80⟩) ∧ ⟨64⟩ ∈ x.2.pointers) (by decide +kernel)
  obtain ⟨ha, hp, hn, hn', hsees⟩ := of_decide_eq_true hsees
  obtain ⟨⟨r, c'⟩, hsome, hsees⟩ := (Option.any_eq_true _ _).1 hsees
  obtain ⟨hr, hp'⟩ := of_decide_eq_true hsees
  have hact : c.act (.resize (some ⟨48⟩) 24) = .ok (.ok (some ⟨80⟩), c') := by
    rw [ok_of_toOption hsome, show r = _ from ok_of_toOption hr]
  obtain ⟨hframe, hprefix, -⟩ := Reachable.payload_kept hc ha hact
  obtain ⟨n, bytes, hsize, -, hlen, hbytes, hbytes'⟩ := hframe ⟨64⟩ hp hp' (by decide)
  obtain ⟨m, old, new, hsize', hold, hnew, -, -, htake⟩ := hprefix ⟨48⟩ ⟨80⟩ 24 rfl rfl
  obtain rfl := Except.ok.inj (hsize.symm.trans hn')
  obtain rfl := Except.ok.inj (hsize'.symm.trans hn)
  exact ⟨c, c', hc, ha, hact, ⟨bytes, hlen, hbytes, hbytes'⟩, old, new, hold, hnew, htake⟩

/-! ### Pointers -/

theorem Consistent.aligned (hc : c.Consistent layout arena v) (hx : x ∈ Span.used v.spans) :
    layout.alignment ∣ x.pointer.offset := by
  have hmod := hc.sound.tiles.offset_mod (mem_chain_of_mem (Span.mem_used.1 hx).1)
  have haligned := hc.anchored.placed.aligned
  rw [hc.anchored.layout_eq] at hmod haligned
  refine Nat.dvd_of_mod_eq_zero ?_
  show (x.offset + 4) % layout.alignment = 0
  rw [Nat.add_mod, hmod, ← Nat.add_mod, haligned]

theorem live_of_act {r : Option Pointer} (h : c.act a = .ok (.ok r, c')) :
    a.perform c.session = .ok r c'.session ∧ c'.live = a.settle r c.live := by
  rw [act] at h
  split at h <;> cases h
  rename_i hrun
  exact ⟨hrun, rfl⟩

theorem answer_of_release {p r : Option Pointer} {s s' : Session}
    (h : Action.perform (.release p) s = .ok r s') : r = none := by
  simp only [Action.perform, bind, EStateM.bind] at h
  split at h <;> cases h
  rfl

namespace Consistent

theorem used_blocks (hc : c.Consistent layout arena v) :
    (((v.spans.map c.heap.blockOf).filter (!·.isFree)).map Block.pointer).Perm c.pointers := by
  have hfilter : (v.spans.map c.heap.blockOf).filter (!·.isFree) =
      (Span.used v.spans).map c.heap.blockOf := by
    rw [List.filter_map]
    exact congrArg _ (List.filter_congr fun x _ => by rw [Function.comp_apply, isFree_blockOf])
  rw [hfilter, List.map_map]
  exact hc.owned.symm

theorem lease_fits (hc : c.Consistent layout arena v) {l : Lease} (hl : l ∈ c.live) :
    ∃ b ∈ v.spans.map c.heap.blockOf, ∃ n, b.pointer = l.pointer ∧
      c.heap.usableSize l.pointer = .ok n ∧ l.requested ≤ n ∧
      layout.alignment ∣ l.pointer.offset ∧ b.offset ≤ l.pointer.offset ∧
      l.pointer.offset + n ≤ b.offset + b.size ∧ l.pointer.offset + n ≤ c.heap.arena.size := by
  obtain ⟨x, hx, hxl⟩ := hc.exists_of_held (List.mem_map_of_mem hl)
  have hmem := (Span.mem_used.1 hx).1
  have hsuits := (hc.suits l hl x hx hxl.symm).le
  have hb := hc.sound.holds.bounds (mem_chain_of_mem hmem)
  refine ⟨c.heap.blockOf x, List.mem_map_of_mem hmem, x.size - 8, hxl,
    hxl ▸ hc.usableSize_eq hx, by omega, hxl ▸ hc.aligned hx, ?_⟩
  rw [← hxl]
  show x.offset ≤ x.offset + 4 ∧ x.offset + 4 + (x.size - 8) ≤ x.offset + x.size ∧
    x.offset + 4 + (x.size - 8) ≤ c.heap.arena.size
  omega

theorem payloads_disjoint (hc : c.Consistent layout arena v) {p q : Pointer}
    (hp : p ∈ c.pointers) (hq : q ∈ c.pointers) (hne : p ≠ q) {m n : Nat}
    (hm : c.heap.usableSize p = .ok m) (hn : c.heap.usableSize q = .ok n) :
    p.offset + m ≤ q.offset ∨ q.offset + n ≤ p.offset := by
  obtain ⟨x, hx, rfl⟩ := hc.exists_of_held hp
  obtain ⟨y, hy, rfl⟩ := hc.exists_of_held hq
  obtain rfl := Except.ok.inj ((hc.usableSize_eq hx).symm.trans hm)
  obtain rfl := Except.ok.inj ((hc.usableSize_eq hy).symm.trans hn)
  have hmx := mem_chain_of_mem (h := c.heap) (Span.mem_used.1 hx).1
  have hmy := mem_chain_of_mem (h := c.heap) (Span.mem_used.1 hy).1
  have hb := hc.sound.holds.bounds hmx
  have hb' := hc.sound.holds.bounds hmy
  have hxy := (hc.sound.tiles.eq_or_le hmx hmy).resolve_left fun he => hne (he ▸ rfl)
  show x.offset + 4 + (x.size - 8) ≤ y.offset + 4 ∨ y.offset + 4 + (y.size - 8) ≤ x.offset + 4
  rw [Span.stop, Span.stop] at hxy
  omega

/-- A pointer that is handed out was not held before, unless its block is resized. -/
theorem resized_of_held (hc : c.Consistent layout arena v) {q : Pointer} (ha : c.Allows a)
    (hact : c.act a = .ok (.ok (some q), c')) (hq : q ∈ c.pointers) :
    ∃ size, a = .resize (some q) size := by
  -- otherwise it would be held twice afterwards
  obtain ⟨hrun, hlive⟩ := live_of_act hact
  obtain ⟨_, _, v', hact', hc', -⟩ := hc.act ha
  cases hact.symm.trans hact'
  have hnodup := hc'.owned.nodup_iff.2 hc'.sound.nodup_pointers
  rw [pointers, hlive, Action.map_settle] at hnodup
  have hreturned : a.returned = some q := by
    by_contra hne
    exact (List.nodup_cons.1 hnodup).1 (List.mem_filter.2 ⟨hq, by simpa using hne⟩)
  cases a with
  | resize p size => exact ⟨size, by rw [show p = some q from hreturned]⟩
  | release p => exact absurd (answer_of_release hrun) (by simp)
  | _ => cases hreturned

end Consistent

/-- **The blocks in use are those of the pointers held**, one each.  Their payloads are aligned, lie
apart and inside their blocks, and have the room that was asked for.  A pointer that is held is not
handed out again, unless its block is resized in place. -/
theorem Reachable.accounted (hc : Reachable layout arena c) :
    (∃ bs : List Block, c.heap.blocks = .ok bs ∧
      ((bs.filter (!·.isFree)).map Block.pointer).Perm c.pointers ∧ c.pointers.Nodup ∧
      ∀ l ∈ c.live, ∃ b ∈ bs, ∃ n, b.pointer = l.pointer ∧ c.heap.usableSize l.pointer = .ok n ∧
        l.requested ≤ n ∧ layout.alignment ∣ l.pointer.offset ∧
        b.offset ≤ l.pointer.offset ∧ l.pointer.offset + n ≤ b.offset + b.size ∧
        l.pointer.offset + n ≤ c.heap.arena.size) ∧
    (∀ p ∈ c.pointers, ∀ q ∈ c.pointers, p ≠ q → ∀ m n, c.heap.usableSize p = .ok m →
      c.heap.usableSize q = .ok n → p.offset + m ≤ q.offset ∨ q.offset + n ≤ p.offset) ∧
    ∀ a q c', c.Allows a → c.act a = .ok (.ok (some q), c') → q ∈ c.pointers →
      ∃ size, a = .resize (some q) size := by
  obtain ⟨v, hv⟩ := hc.consistent
  have hnodup := hv.owned.nodup_iff.2 hv.sound.nodup_pointers
  refine ⟨⟨_, hv.sound.holds.blocks_eq hv.sound.top_eq, hv.used_blocks, hnodup, ?_⟩, ?_, ?_⟩
  · exact fun l hl => hv.lease_fits hl
  · exact fun p hp q hq hne m n hm hn => hv.payloads_disjoint hp hq hne hm hn
  · exact fun a q c' ha hact hq => hv.resized_of_held ha hact hq

theorem Reachable.accounted_of_two : ∃ c, Reachable {} (.ofLimit 128) c ∧
    c.live = [⟨⟨64⟩, 20⟩, ⟨⟨48⟩, 8⟩] ∧
    (∃ bs : List Block, c.heap.blocks = .ok bs ∧
      ((bs.filter (!·.isFree)).map Block.pointer).Perm [⟨64⟩, ⟨48⟩]) ∧
    ∃ n, c.heap.usableSize ⟨64⟩ = .ok n ∧ 20 ≤ n ∧ 64 + n ≤ c.heap.arena.size := by
  obtain ⟨c, hc, hsees⟩ := exists_reachable {} (.ofLimit 128)
    [.allocate 8, .allocate 20] (fun c => c.live = [⟨⟨64⟩, 20⟩, ⟨⟨48⟩, 8⟩])
    (by decide +kernel)
  have hlive := of_decide_eq_true hsees
  obtain ⟨⟨bs, hblocks, hperm, -, heach⟩, -⟩ := Reachable.accounted hc
  obtain ⟨b, -, n, -, hn, hle, -, -, -, hinside⟩ := heach ⟨⟨64⟩, 20⟩ (by simp [hlive])
  rw [pointers, hlive] at hperm
  exact ⟨c, hc, hlive, ⟨bs, hblocks, hperm⟩, n, hn, hle, hinside⟩

/-! ### What lies below -/

theorem Consistent.below (hc : c.Consistent layout arena v) :
    c.heap.arena.slice 0 arena.size = .ok arena.bytes.toList ∧
      ∀ p ∈ c.pointers, arena.size ≤ p.offset := by
  have hbase := hc.anchored.base_le
  refine ⟨hc.anchored.keeps.slice_eq fun i hi => hi, fun p hp => ?_⟩
  obtain ⟨x, hx, rfl⟩ := hc.exists_of_held hp
  have hlow := (hc.sound.holds.bounds (mem_chain_of_mem (Span.mem_used.1 hx).1)).1
  show arena.size ≤ x.offset + 4
  omega

/-- **What an arena holds when a heap is built on top of it is never touched**, whatever it is: the
bytes are the same in every state of every run, and all pointers lead above them. -/
theorem Reachable.below_untouched (hc : Reachable layout arena c) :
    c.heap.arena.slice 0 arena.size = .ok arena.bytes.toList ∧
    (∀ p ∈ c.pointers, arena.size ≤ p.offset) ∧
    ∀ a, c.Allows a → ∃ r c', c.act a = .ok (r, c') ∧
      c'.heap.arena.slice 0 arena.size = .ok arena.bytes.toList ∧
      ∀ q, r = .ok (some q) → arena.size ≤ q.offset := by
  obtain ⟨v, hv⟩ := hc.consistent
  refine ⟨hv.below.1, hv.below.2, fun a ha => ?_⟩
  obtain ⟨r, c', v', hact, hv', -⟩ := hv.act ha
  refine ⟨r, c', hact, hv'.below.1, ?_⟩
  rintro q rfl
  refine hv'.below.2 q ?_
  obtain ⟨-, hlive⟩ := live_of_act hact
  rw [pointers, hlive, Action.map_settle]
  exact List.mem_append_left _ (List.mem_singleton_self q)

/-- A heap on top of what another one has left. -/
theorem Reachable.below_untouched_ofRemains : ∃ c₁ c₂ c₃ r, Reachable {} (.ofLimit 256) c₁ ∧
    c₁.pointers = [⟨64⟩] ∧ Reachable ⟨32, 32⟩ c₁.heap.arena c₂ ∧ c₂.pointers = [⟨192⟩] ∧
    c₂.heap.arena.slice 0 c₁.heap.arena.size = .ok c₁.heap.arena.bytes.toList ∧
    c₂.act (.release (some ⟨192⟩)) = .ok (r, c₃) ∧
    c₃.heap.arena.slice 0 c₁.heap.arena.size = .ok c₁.heap.arena.bytes.toList := by
  have hruns : (ofActions {} (.ofLimit 256) [.allocate 8, .write ⟨48⟩ 8 fun i => .ofNat i,
      .allocate 8, .release (some ⟨48⟩)]).any fun c₁ => c₁.pointers = [⟨64⟩] ∧
        (ofActions ⟨32, 32⟩ c₁.heap.arena [.allocate 24]).any fun c₂ => c₂.pointers = [⟨192⟩] := by
    decide +kernel
  obtain ⟨c₁, hrun₁, hsees₁⟩ := (Option.any_eq_true _ _).1 hruns
  obtain ⟨hp₁, hsees₁⟩ := of_decide_eq_true hsees₁
  obtain ⟨c₂, hrun₂, hsees₂⟩ := (Option.any_eq_true _ _).1 hsees₁
  have hp₂ := of_decide_eq_true hsees₂
  have hc₂ := reachable_ofActions hrun₂
  obtain ⟨hbelow, -, hnext⟩ := Reachable.below_untouched hc₂
  obtain ⟨r, c₃, hact, hbelow', -⟩ := hnext (.release (some ⟨192⟩)) fun q hq => by
    rw [hp₂, List.mem_singleton]
    exact (Option.some.inj hq).symm
  exact ⟨c₁, c₂, c₃, r, reachable_ofActions hrun₁, hp₁, hc₂, hp₂, hbelow, hact, hbelow'⟩

end Client

end TaggedHeap
