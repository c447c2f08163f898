import TaggedHeap.Proofs.Disguise
import TaggedHeap.Proofs.Payload
import Mathlib.Data.Nat.ModEq

/-!
# Heaps that lie apart

A heap may lie anywhere in its arena.  Two heaps are `Heap.Shifted` by `d` bytes when all that the
one knows, its bytes included, is found `d` bytes further up in the other.  Tags hold sizes and
links hold distances, neither of which changes, so what is done to one heap does the same to the
other (`Heap.Shifted.merge`, `Heap.Shifted.carve`).

Whether a step is carried out may well depend on where the heap lies, since an offset can leave the
arena on one side only.  So results are compared where both sides come to something (`Agree`).

A link is resolved modulo the address space, hence two offsets read from links are at first only
`Address.Near` each other.  They lie `d` bytes apart as soon as something is read or written there.
-/

namespace TaggedHeap

/-- Whenever both computations come to something, the results are related. -/
def Agree {α β : Type} (R : α → β → Prop) (x : Except Fault α) (y : Except Fault β) : Prop :=
  ∀ a b, x = .ok a → y = .ok b → R a b

namespace Agree

variable {α β γ δ : Type} {R : α → β → Prop} {Q : γ → δ → Prop} {x x' : Except Fault α}
  {y y' : Except Fault β}

theorem ok {a : α} {b : β} (h : R a b) : Agree R (.ok a) (.ok b) := by
  rintro _ _ ⟨⟩ ⟨⟩
  exact h

theorem pure {a : α} {b : β} (h : R a b) : Agree R (Pure.pure a) (Pure.pure b) := .ok h

theorem fault_left (f : Fault) : Agree R (.error f) y := by
  rintro _ _ ⟨⟩

theorem fault_right (f : Fault) : Agree R x (.error f) := by
  rintro _ _ - ⟨⟩

theorem same (x : Except Fault α) : Agree Eq x x := by
  rintro a b rfl ⟨⟩
  rfl

theorem mono {R' : α → β → Prop} (h : Agree R x y) (hR : ∀ a b, R a b → R' a b) :
    Agree R' x y := fun a b hx hy => hR a b (h a b hx hy)

theorem bind {f : α → Except Fault γ} {g : β → Except Fault δ} (h : Agree R x y)
    (hf : ∀ a b, R a b → Agree Q (f a) (g b)) : Agree Q (x >>= f) (y >>= g) := by
  intro c c' hx hy
  obtain ⟨a, ha, hx⟩ := exists_of_bind_ok hx
  obtain ⟨b, hb, hy⟩ := exists_of_bind_ok hy
  exact hf a b (h a b ha hb) c c' hx hy

theorem ite {p q : Prop} [Decidable p] [Decidable q] (hpq : p ↔ q) (h : Agree R x y)
    (h' : Agree R x' y') : Agree R (if p then x else x') (if q then y else y') := by
  by_cases hp : p
  · rwa [if_pos hp, if_pos (hpq.1 hp)]
  · rwa [if_neg hp, if_neg fun hq => hp (hpq.2 hq)]

end Agree

variable {d : Nat}

/-! ### Offsets -/

namespace Address

variable {x y : Nat}

/-- `y` lies `d` above `x`, around the end of the space if need be. -/
def Near (d x y : Nat) : Prop := x + d ≡ y [MOD space]

namespace Near

theorem refl (d x : Nat) : Near d x (x + d) := Nat.ModEq.refl _

theorem add (h : Near d x y) (k : Nat) : Near d (x + k) (y + k) := by
  rw [Near, Nat.add_right_comm]
  exact Nat.ModEq.add_right k h

theorem eq (h : Near d x y) (hx : x + d < space) (hy : y < space) : y = x + d := by
  have h : (x + d) % space = y % space := h
  rw [Nat.mod_eq_of_lt hx, Nat.mod_eq_of_lt hy] at h
  exact h.symm

end Near

theorem agree_add (d x k : Nat) : Agree (fun m n => n = m + d) (add x k) (add (x + d) k) := by
  intro m n hm hn
  have := (add_eq_ok_iff.1 hm).2
  have := (add_eq_ok_iff.1 hn).2
  omega

theorem agree_sub (d x k : Nat) : Agree (fun m n => n = m + d) (sub x k) (sub (x + d) k) := by
  intro m n hm hn
  have := sub_eq_ok_iff.1 hm
  have := sub_eq_ok_iff.1 hn
  omega

/-- A distance leads from offsets near each other to offsets near each other. -/
theorem near_wrappingOffset (d x : Nat) (k : Int) :
    Near d (wrappingOffset x k) (wrappingOffset (x + d) k) := by
  simp only [Near, Nat.ModEq, wrappingOffset, space]
  omega

end Address

open Address

/-- Distances stay what they are, since no offset in the lower half of the space is taken for a
negative number. -/
theorem Link.encode_shift {block target : Nat} (hblock : 2 * (block + d) < space)
    (htarget : 2 * (target + d) < space) :
    encode (block + d) (target + d) = encode block target := by
  have hdistance : distance (block + d) (target + d) = distance block target := by
    rw [distance, distance, signed, signed, signed, signed, if_pos htarget, if_pos hblock,
      if_pos (by omega), if_pos (by omega)]
    omega
  rw [encode, encode, hdistance]

/-- The pointer `d` bytes further up. -/
def Pointer.shift (d : Nat) (p : Pointer) : Pointer := ⟨p.offset + d⟩

theorem Pointer.shift_ofHeader (d block : Nat) : (ofHeader block).shift d = ofHeader (block + d) :=
  congrArg mk (Nat.add_right_comm ..)

theorem Pointer.shift_inj {p q : Pointer} : p.shift d = q.shift d ↔ p = q := by
  cases p
  cases q
  simp only [shift, mk.injEq, Nat.add_right_cancel_iff]

theorem Pointer.agree_header (d : Nat) (p : Pointer) :
    Agree (fun m n => n = m + d) p.header (p.shift d).header := agree_sub d p.offset wordBytes

/-! ### Arenas -/

namespace Arena

variable {a b : Arena} {p q : Nat}

/-- From offset `d` on, `b` has the bytes of `a` and ends where they end.  Both go on with zeros. -/
structure Shifted (d : Nat) (a b : Arena) : Prop where
  /-- The arena is larger by `d` bytes. -/
  size_eq : b.size = a.size + d
  /-- The bytes lie `d` bytes further up. -/
  byte_eq : ∀ i, b.byte (i + d) = a.byte i
  /-- New bytes are zero. -/
  blank : a.source.Blank ∧ b.source.Blank

namespace Shifted

theorem peek_eq (hab : a.Shifted d b) (pos : Nat) : b.peek (pos + d) = a.peek pos := by
  rw [peek, peek, Nat.add_right_comm pos d 1, Nat.add_right_comm pos d 2,
    Nat.add_right_comm pos d 3, hab.byte_eq, hab.byte_eq, hab.byte_eq, hab.byte_eq]

/-- Offsets inside the arenas that are near each other lie `d` bytes apart. -/
theorem near_eq (hab : a.Shifted d b) (hpq : Near d p q) (hp : p ≤ a.size) (hq : q ≤ b.size) :
    q = p + d := by
  have hsize := hab.size_eq
  have hspace := b.size_lt_space
  exact hpq.eq (by omega) (by omega)

theorem word (hab : a.Shifted d b) (hpq : Near d p q) :
    Agree (fun w w' => w = w' ∧ q = p + d) (a.word p) (b.word q) := by
  intro w w' hw hw'
  obtain ⟨hp, rfl⟩ := word_eq_ok_iff.1 hw
  obtain ⟨hq, rfl⟩ := word_eq_ok_iff.1 hw'
  obtain rfl := hab.near_eq hpq (by omega) (by omega)
  exact ⟨(hab.peek_eq p).symm, rfl⟩

theorem write (hab : a.Shifted d b) (hpq : Near d p q) (xs : List UInt8) :
    Agree (fun a' b' => a'.Shifted d b' ∧ q = p + d) (a.write p xs) (b.write q xs) := by
  intro a' b' ha' hb'
  obtain ⟨hp, -, hsource⟩ := write_eq_ok_iff.1 ha'
  obtain ⟨hq, -, hsource'⟩ := write_eq_ok_iff.1 hb'
  obtain rfl := hab.near_eq hpq (by omega) (by omega)
  refine ⟨⟨?_, fun i => ?_, by rw [hsource, hsource']; exact hab.blank⟩, rfl⟩
  · rw [size_of_write ha', size_of_write hb', hab.size_eq]
  · rw [byte_of_write ha', byte_of_write hb', hab.byte_eq, Nat.add_sub_add_right]
    exact if_congr (by omega) rfl rfl

theorem slice (hab : a.Shifted d b) (start stop : Nat) :
    Agree Eq (a.slice start stop) (b.slice (start + d) (stop + d)) := by
  by_cases h : start ≤ stop ∧ stop ≤ a.size
  · obtain ⟨count, rfl⟩ := Nat.exists_eq_add_of_le h.1
    rw [slice_of_le h.2, Nat.add_right_comm, slice_of_le (by rw [hab.size_eq]; omega)]
    refine .ok (List.map_congr_left fun i _ => ?_)
    rw [Nat.add_right_comm, hab.byte_eq]
  · rw [Arena.slice, if_neg h]
    exact .fault_left _

/-- All bytes of the one arena are found in the other. -/
theorem slice_all (hab : a.Shifted d b) : b.slice d b.size = .ok a.bytes.toList := by
  have ha : a.slice 0 a.size = .ok a.bytes.toList := by
    rw [Arena.slice, if_pos ⟨Nat.zero_le _, le_rfl⟩, size, Array.extract_size]
  have hb : b.slice (0 + d) (a.size + d) = .ok _ := if_pos ⟨by omega, hab.size_eq.ge⟩
  rw [hab.slice 0 a.size _ _ ha hb, ← hb, Nat.zero_add, hab.size_eq]

/-- Arenas that grow by the same number of bytes still lie apart. -/
theorem grow (hab : a.Shifted d b) {n offset offset' : Nat} {a' b' : Arena}
    (ha' : Arena.grow n a = .ok offset a') (hb' : Arena.grow n b = .ok offset' b') :
    offset' = offset + d ∧ a'.Shifted d b' := by
  have hblank := hab.blank.1.grow ha'
  have hblank' := hab.blank.2.grow hb'
  obtain ⟨rfl, source, fits, rfl, -⟩ := grow_ok ha'
  obtain ⟨rfl, source', fits', rfl, -⟩ := grow_ok hb'
  refine ⟨hab.size_eq, ⟨?_, fun i => ?_, hblank, hblank'⟩⟩
  · rw [size_append, size_append, hab.size_eq, Nat.add_right_comm]
  · calc (b.append n source' fits').byte (i + d)
      _ = b.byte (i + d) := byte_append_of_blank hblank' fits' _
      _ = a.byte i := hab.byte_eq i
      _ = (a.append n source fits).byte i := (byte_append_of_blank hblank fits i).symm

end Shifted

end Arena

/-! ### Heaps -/

namespace Heap

variable {h h' : Heap} {a b : Arena} {x y : Nat}

theorem agree_footerOf (d block size : Nat) :
    Agree (fun m n => n = m + d) (footerOf block size) (footerOf (block + d) size) := by
  refine (agree_add d block size).bind ?_
  rintro stop _ rfl
  exact agree_sub d stop _

/-- All that `h` knows is found `d` bytes further up in `h'`. -/
structure Shifted (d : Nat) (h h' : Heap) : Prop where
  /-- The bytes. -/
  arena : h.arena.Shifted d h'.arena
  /-- The layouts are the same. -/
  layout_eq : h'.layout = h.layout
  /-- The head sentinel. -/
  head_eq : h'.head = h.head + d
  /-- The topmost block. -/
  top_eq : h'.top = h.top + d

namespace Shifted

variable (hs : h.Shifted d h')

theorem of_arena (hs : h.Shifted d h') (hab : a.Shifted d b) :
    Shifted d { h with arena := a } { h' with arena := b } :=
  ⟨hab, hs.layout_eq, hs.head_eq, hs.top_eq⟩

/-- What the arenas grow from does not matter. -/
theorem of_stays (hs : h.Shifted d h') {g g' : Heap} (hg : h.Stays g) (hg' : h'.Stays g')
    (hblank : g.arena.source.Blank ∧ g'.arena.source.Blank) : g.Shifted d g' := by
  obtain ⟨⟨source, rfl⟩, -⟩ := hg
  obtain ⟨⟨source', rfl⟩, -⟩ := hg'
  exact ⟨⟨hs.arena.size_eq, hs.arena.byte_eq, hblank⟩, hs.layout_eq, hs.head_eq, hs.top_eq⟩

include hs

theorem tail_eq : h'.tail = h.tail + d := by
  rw [tail, tail, hs.head_eq, hs.layout_eq, Nat.add_right_comm]

/-! ### What is looked up -/

theorem tag (hxy : Near d x y) :
    Agree (fun t u => t = u ∧ y = x + d) (h.tag x) (h'.tag y) := by
  refine (hs.arena.word hxy).bind ?_
  rintro w _ ⟨rfl, rfl⟩
  exact .pure ⟨rfl, rfl⟩

theorem linkWord (hxy : Near d x y) (l : Link) :
    Agree (fun w w' => w = w' ∧ y = x + d) (h.linkWord x l) (h'.linkWord y l) := by
  intro w w' hw hw'
  obtain ⟨p, hp, hw⟩ := exists_of_bind_ok hw
  obtain ⟨q, hq, hw'⟩ := exists_of_bind_ok hw'
  obtain ⟨-, rfl⟩ := add_eq_ok_iff.1 hp
  obtain ⟨-, rfl⟩ := add_eq_ok_iff.1 hq
  obtain ⟨rfl, hpos⟩ := hs.arena.word (hxy.add l.slot) w w' hw hw'
  exact ⟨rfl, by omega⟩

theorem neighbour (hxy : Near d x y) (l : Link) :
    Agree (Near d) (h.neighbour x l) (h'.neighbour y l) := by
  refine (hs.linkWord hxy l).bind ?_
  rintro w _ ⟨rfl, rfl⟩
  exact .pure (near_wrappingOffset d x _)

theorem neighbour? (hxy : Near d x y) (l : Link) :
    Agree (Option.Rel (Near d)) (h.neighbour? x l) (h'.neighbour? y l) := by
  refine (hs.linkWord hxy l).bind ?_
  rintro w _ ⟨rfl, rfl⟩
  refine .pure ?_
  split
  · exact .none
  · exact .some (near_wrappingOffset d x _)

theorem nextBlock? (block : Nat) :
    Agree (fun o o' => o' = o.map (· + d)) (h.nextBlock? block) (h'.nextBlock? (block + d)) := by
  refine .ite (by rw [hs.top_eq, Nat.add_right_cancel_iff]) (.pure rfl) ?_
  refine (hs.tag (.refl d block)).bind ?_
  rintro t _ ⟨rfl, -⟩
  refine (agree_add d block _).bind ?_
  rintro n _ rfl
  exact .pure rfl

theorem prevBlock? (block : Nat) :
    Agree (fun o o' => o' = o.map (· + d)) (h.prevBlock? block) (h'.prevBlock? (block + d)) := by
  refine .ite (by rw [hs.head_eq, Nat.add_right_cancel_iff]) (.pure rfl) ?_
  refine (agree_sub d block _).bind ?_
  rintro footer _ rfl
  refine (hs.tag (.refl d footer)).bind ?_
  rintro t _ ⟨rfl, -⟩
  refine (agree_sub d block _).bind ?_
  rintro n _ rfl
  exact .pure rfl

theorem onlyFree (block : Option Nat) :
    Agree (fun o o' => o' = o.map (· + d)) (h.onlyFree block)
      (h'.onlyFree (block.map (· + d))) := by
  cases block with
  | none => exact .pure rfl
  | some block =>
    refine (hs.tag (.refl d block)).bind ?_
    rintro t _ ⟨rfl, -⟩
    refine .pure ?_
    split <;> rfl

theorem usableSize (p : Pointer) :
    Agree Eq (h.usableSize p) (h'.usableSize (p.shift d)) := by
  refine (p.agree_header d).bind ?_
  rintro block _ rfl
  refine (hs.tag (.refl d block)).bind ?_
  rintro t _ ⟨rfl, -⟩
  exact .same _

theorem payload (p : Pointer) :
    Agree Eq (h.payload p) (h'.payload (p.shift d)) := by
  refine (hs.usableSize p).bind ?_
  rintro size _ rfl
  refine (agree_add d p.offset size).bind ?_
  rintro stop _ rfl
  exact hs.arena.slice _ _

theorem roomAbove? (block oldSize need : Nat) :
    Agree (fun o o' => o' = o.map fun room => (room.1 + d, room.2))
      (roomAbove? block oldSize need h) (roomAbove? (block + d) oldSize need h') := by
  refine (hs.nextBlock? block).bind ?_
  rintro above _ rfl
  refine (hs.onlyFree above).bind ?_
  rintro next _ rfl
  cases next with
  | none => exact .pure rfl
  | some next =>
    refine (hs.tag (.refl d next)).bind ?_
    rintro t _ ⟨rfl, -⟩
    refine (Agree.same (Address.add oldSize t.size)).bind ?_
    rintro total _ rfl
    refine .pure ?_
    split <;> rfl

/-- The search settles for the same block, whatever the limits. -/
theorem bestFitFrom (need : Nat) {limit limit' : Nat} (best : Option Candidate)
    {block block' : Option Nat} (hblock : Option.Rel (Near d) block block') :
    Agree (fun c c' => c'.map Candidate.block = (c.map Candidate.block).map (· + d))
      (h.bestFitFrom need limit best block)
      (h'.bestFitFrom need limit' (best.map fun c => ⟨c.block + d, c.size⟩) block') := by
  -- on the limit of the one search; the other may have another, as either can end with a fault
  induction limit generalizing limit' best block block' with
  | zero =>
    cases hblock with
    | none =>
      cases limit' <;> exact .pure (by cases best <;> rfl)
    | some => exact .fault_left _
  | succ limit ih =>
    cases hblock with
    | none =>
      cases limit' <;> exact .pure (by cases best <;> rfl)
    | @some x y hxy =>
      cases limit' with
      | zero => exact .fault_right _
      | succ limit' =>
        refine (hs.tag hxy).bind ?_
        rintro t _ ⟨rfl, rfl⟩
        -- only sizes are compared, so both searches prefer the same candidate
        have himproves : improves need t (best.map fun c => ⟨c.block + d, c.size⟩) =
            improves need t best := by
          cases best <;> rfl
        rw [himproves]
        refine .ite Iff.rfl ?_ ?_
        · refine .ite Iff.rfl (.pure rfl) ?_
          exact (hs.neighbour? hxy .next).bind fun next next' hnext =>
            ih (some ⟨x, t.size⟩) hnext
        · exact (hs.neighbour? hxy .next).bind fun next next' hnext => ih best hnext

/-- **The best fit is the same block.** -/
theorem bestFit? (need : Nat) :
    Agree (fun o o' => o' = o.map (· + d)) (h.bestFit? need) (h'.bestFit? need) := by
  have hfirst : Agree (Option.Rel (Near d)) (h.neighbour? h.head .next)
      (h'.neighbour? h'.head .next) := hs.head_eq ▸ hs.neighbour? (.refl d h.head) .next
  refine hfirst.bind fun first first' hrel => ?_
  exact (hs.bestFitFrom need none hrel).bind fun c c' hc => .pure hc

/-! ### What is changed -/

theorem write (hxy : Near d x y) (xs : List UInt8) :
    Agree (fun g g' => g.Shifted d g' ∧ y = x + d) (h.write x xs) (h'.write y xs) := by
  refine (hs.arena.write hxy xs).bind ?_
  rintro a b ⟨hab, rfl⟩
  exact .pure ⟨hs.of_arena hab, rfl⟩

theorem setWord (pos : Nat) (w : UInt32) :
    Agree (Shifted d) (h.setWord pos w) (h'.setWord (pos + d) w) :=
  (hs.write (.refl d pos) (Word.toBytes w)).mono fun _ _ => And.left

theorem setTag (pos size : Nat) (used : Bool) :
    Agree (Shifted d) (h.setTag pos size used) (h'.setTag (pos + d) size used) := by
  refine (Agree.same (Tag.pack size used)).bind ?_
  rintro t _ rfl
  exact hs.setWord pos t.raw

theorem setTags (block size : Nat) (used : Bool) :
    Agree (Shifted d) (h.setTags block size used) (h'.setTags (block + d) size used) := by
  refine (hs.setTag block size used).bind fun g g' hg => ?_
  refine (agree_footerOf d block size).bind ?_
  rintro footer _ rfl
  exact hg.setTag footer size used

theorem setPayload (p : Pointer) (count : Nat) (byte : Nat → UInt8) :
    Agree (Shifted d) (h.setPayload p count byte) (h'.setPayload (p.shift d) count byte) := by
  refine (hs.usableSize p).bind ?_
  rintro size _ rfl
  refine (agree_add d p.offset size).bind ?_
  rintro stop _ rfl
  refine .ite (by rw [hs.arena.size_eq, Nat.add_le_add_iff_right]) ?_ (.fault_left _)
  exact (hs.write (.refl d p.offset) _).mono fun _ _ => And.left

theorem copyBytes (start target count : Nat) :
    Agree (Shifted d) (copyBytes start target count h)
      (copyBytes (start + d) (target + d) count h') := by
  refine (agree_add d start count).bind ?_
  rintro stop _ rfl
  refine (hs.arena.slice start stop).bind ?_
  rintro bytes _ rfl
  exact (hs.write (.refl d target) bytes).mono fun _ _ => And.left

omit hs in
/-- A link is only stored where there is room for it. -/
theorem of_setLink {g : Heap} {l : Link} {target : Nat} (hrun : h.setLink x l target = .ok g) :
    x + l.slot + 4 ≤ h.arena.size ∧ g.arena.size = h.arena.size ∧
      h.setWord (x + l.slot) (Link.encode x target) = .ok g := by
  obtain ⟨pos, hpos, hrun⟩ := exists_of_bind_ok hrun
  obtain ⟨-, rfl⟩ := add_eq_ok_iff.1 hpos
  split at hrun
  · cases hrun
  · have hset := hrun
    obtain ⟨a, ha, hg⟩ := exists_of_bind_ok hrun
    cases hg
    have hle := (Arena.write_eq_ok_iff.1 ha).1
    rw [Word.length_toBytes] at hle
    exact ⟨hle, Arena.size_of_write ha, hset⟩

/-- Offsets between which links are stored lie inside the arenas, so the same links are stored. -/
theorem splice {before before' after after' : Nat} (hbefore : Near d before before')
    (hafter : Near d after after') :
    Agree (fun g g' => g.Shifted d g' ∧ before' = before + d ∧ after' = after + d)
      (h.splice before after) (h'.splice before' after') := by
  intro g g' hg hg'
  obtain ⟨g₁, hg₁, hg⟩ := exists_of_bind_ok hg
  obtain ⟨g₁', hg₁', hg'⟩ := exists_of_bind_ok hg'
  obtain ⟨hx, hsize, hset⟩ := of_setLink hg₁
  obtain ⟨hx', hsize', hset'⟩ := of_setLink hg₁'
  obtain ⟨hy, -, hset₁⟩ := of_setLink hg
  obtain ⟨hy', -, hset₁'⟩ := of_setLink hg'
  rw [hsize] at hy
  rw [hsize'] at hy'
  -- what was near each other modulo the space lies `d` bytes apart inside the arenas
  obtain rfl := hs.arena.near_eq hbefore (by omega) (by omega)
  obtain rfl := hs.arena.near_eq hafter (by omega) (by omega)
  have hle := h'.arena.size_le
  change h'.arena.size ≤ maxContiguous at hle
  simp only [maxContiguous] at hle
  -- and low enough for the distances between them to be the same
  have hlow : ∀ n, n + d ≤ h'.arena.size → 2 * (n + d) < Address.space := fun n hn => by
    rw [Address.space]
    omega
  rw [Link.encode_shift (hlow _ (by omega)) (hlow _ (by omega)), Nat.add_right_comm] at hset'
  rw [Link.encode_shift (hlow _ (by omega)) (hlow _ (by omega)), Nat.add_right_comm] at hset₁'
  have hs₁ := hs.setWord _ _ _ _ hset hset'
  exact ⟨hs₁.setWord _ _ _ _ hset₁ hset₁', rfl, rfl⟩

theorem clearLink (block : Nat) (l : Link) :
    Agree (Shifted d) (h.clearLink block l) (h'.clearLink (block + d) l) := by
  refine (agree_add d block l.slot).bind ?_
  rintro pos _ rfl
  exact hs.setWord pos 0

theorem unlink (block : Nat) : Agree (Shifted d) (h.unlink block) (h'.unlink (block + d)) := by
  refine (hs.neighbour (.refl d block) .prev).bind fun before before' hbefore => ?_
  refine (hs.neighbour (.refl d block) .next).bind fun after after' hafter => ?_
  exact (hs.splice hbefore hafter).mono fun _ _ => And.left

theorem pushFront (block : Nat) :
    Agree (Shifted d) (h.pushFront block) (h'.pushFront (block + d)) := by
  have hfirst : Agree (Near d) (h.neighbour h.head .next) (h'.neighbour h'.head .next) :=
    hs.head_eq ▸ hs.neighbour (.refl d h.head) .next
  refine hfirst.bind fun first first' hnear => ?_
  refine (hs.splice (.refl d block) hnear).bind ?_
  rintro g g' ⟨hg, -⟩
  have hhead : Near d g.head g'.head := hg.head_eq ▸ .refl d g.head
  exact (hg.splice hhead (.refl d block)).mono fun _ _ => And.left

theorem listFree (block size : Nat) :
    Agree (Shifted d) (h.listFree block size) (h'.listFree (block + d) size) :=
  (hs.setTags block size false).bind fun _ _ hg => hg.pushFront block

theorem moveTop (block target : Nat) :
    (h.moveTop block target).Shifted d (h'.moveTop (block + d) (target + d)) := by
  rw [Heap.moveTop, Heap.moveTop, hs.top_eq]
  by_cases htop : h.top = block
  · rw [if_pos htop, if_pos (by omega)]
    exact ⟨hs.arena, hs.layout_eq, hs.head_eq, rfl⟩
  · rw [if_neg htop, if_neg (by omega)]
    exact hs

theorem join (block size : Nat) (prev next : Option Nat) :
    Agree (fun r r' => r'.1 = r.1 + d ∧ r.2.Shifted d r'.2) (h.join block size prev next)
      (h'.join (block + d) size (prev.map (· + d)) (next.map (· + d))) := by
  cases prev <;> cases next
  case none.none => exact (hs.pushFront block).bind fun g g' hg => .pure ⟨rfl, hg⟩
  case none.some next =>
    refine (hs.tag (.refl d next)).bind ?_
    rintro t _ ⟨rfl, -⟩
    refine (Agree.same _).bind ?_
    rintro total _ rfl
    refine (hs.unlink next).bind fun g₁ g₁' hg₁ => (hg₁.listFree block total).bind fun g g' hg => ?_
    exact .pure ⟨rfl, hg.moveTop next block⟩
  case some.none prev =>
    refine (hs.tag (.refl d prev)).bind ?_
    rintro t _ ⟨rfl, -⟩
    refine (Agree.same _).bind ?_
    rintro total _ rfl
    refine (hs.unlink prev).bind fun g₁ g₁' hg₁ => (hg₁.listFree prev total).bind fun g g' hg => ?_
    exact .pure ⟨rfl, hg.moveTop block prev⟩
  case some.some prev next =>
    refine (hs.tag (.refl d prev)).bind ?_
    rintro t _ ⟨rfl, -⟩
    refine (Agree.same _).bind ?_
    rintro total _ rfl
    refine (hs.tag (.refl d next)).bind ?_
    rintro u _ ⟨rfl, -⟩
    refine (Agree.same _).bind ?_
    rintro total _ rfl
    refine (hs.unlink prev).bind fun g₁ g₁' hg₁ => (hg₁.unlink next).bind fun g₂ g₂' hg₂ => ?_
    refine (hg₂.listFree prev total).bind fun g g' hg => ?_
    exact .pure ⟨rfl, hg.moveTop next prev⟩

/-- **Merging a block** with its free neighbours. -/
theorem merge (block : Nat) :
    Agree (fun r r' => r'.1.block = r.1.block + d ∧ r.2.Shifted d r'.2) (h.merge block)
      (h'.merge (block + d)) := by
  refine (hs.tag (.refl d block)).bind ?_
  rintro t _ ⟨rfl, -⟩
  refine (hs.prevBlock? block).bind ?_
  rintro below _ rfl
  refine (hs.onlyFree below).bind ?_
  rintro prev _ rfl
  refine (hs.nextBlock? block).bind ?_
  rintro above _ rfl
  refine (hs.onlyFree above).bind ?_
  rintro next _ rfl
  refine (hs.join block t.size prev next).bind ?_
  rintro ⟨merged, g⟩ ⟨_, g'⟩ ⟨rfl, hg⟩
  exact (hg.tag (.refl d merged)).bind fun u u' _ => .pure ⟨rfl, hg⟩

/-- **Carving a stretch** that ends with a listed free block. -/
theorem carve (block total need node : Nat) :
    Agree (fun r r' => r.2.Shifted d r'.2) (h.carve block total need node)
      (h'.carve (block + d) total need (node + d)) := by
  refine (hs.neighbour (.refl d node) .prev).bind fun before before' hbefore => ?_
  refine (hs.neighbour (.refl d node) .next).bind fun after after' hafter => ?_
  refine (Agree.same (Address.sub total need)).bind ?_
  rintro restSize _ rfl
  refine .ite (by rw [hs.layout_eq]) ?_ ?_
  · refine (hs.setTags block need true).bind fun g₁ g₁' hg₁ => ?_
    refine (agree_add d block need).bind ?_
    rintro rest _ rfl
    refine (hg₁.setTags rest restSize false).bind fun g₂ g₂' hg₂ => ?_
    refine (hg₂.splice hbefore (.refl d rest)).bind ?_
    rintro g₃ g₃' ⟨hg₃, -⟩
    refine (hg₃.splice (.refl d rest) hafter).bind ?_
    rintro g g' ⟨hg, -⟩
    exact .pure (hg.moveTop node rest)
  · refine (hs.splice hbefore hafter).bind ?_
    rintro g₁ g₁' ⟨hg₁, -⟩
    exact (hg₁.setTags block total true).bind fun g g' hg => .pure (hg.moveTop node block)

theorem cutDown (block size need : Nat) :
    Agree (fun r r' => r'.1 = r.1 + d ∧ r.2.Shifted d r'.2) (cutDown block size need h)
      (cutDown (block + d) size need h') := by
  refine (agree_add d block need).bind ?_
  rintro rest _ rfl
  refine (Agree.same (Address.sub size need)).bind ?_
  rintro restSize _ rfl
  refine (hs.setTags block need true).bind fun g₁ g₁' hg₁ => ?_
  refine (hg₁.setTags rest restSize false).bind fun g g' hg => ?_
  exact .pure ⟨rfl, hg.moveTop block rest⟩

theorem addTopBlock (offset size : Nat) :
    Agree (fun r r' => r'.1 = r.1 + d ∧ r.2.Shifted d r'.2) (addTopBlock offset size h)
      (addTopBlock (offset + d) size h') := by
  refine (agree_sub d offset wordBytes).bind ?_
  rintro block _ rfl
  refine (hs.setTags block size false).bind fun g g' hg => ?_
  exact .pure ⟨rfl, hg.arena, hg.layout_eq, hg.head_eq, rfl⟩

theorem writeSentinels : Agree (Shifted d) h.writeSentinels h'.writeSentinels := by
  have hsetTags : ∀ {g g' : Heap} {x y : Nat}, g.Shifted d g' → y = x + d →
      Agree (Shifted d) (g.setTags x g.layout.minBlock true)
        (g'.setTags y g'.layout.minBlock true) := by
    rintro g g' x _ hg rfl
    rw [hg.layout_eq]
    exact hg.setTags x _ true
  have hclear : ∀ {g g' : Heap} {x y : Nat} (l : Link), g.Shifted d g' → y = x + d →
      Agree (Shifted d) (g.clearLink x l) (g'.clearLink y l) := by
    rintro g g' x _ l hg rfl
    exact hg.clearLink x l
  refine (hsetTags hs hs.head_eq).bind fun g₁ g₁' hg₁ => ?_
  refine (hsetTags hg₁ hg₁.tail_eq).bind fun g₂ g₂' hg₂ => ?_
  have hhead : Near d g₂.head g₂'.head := hg₂.head_eq ▸ .refl d g₂.head
  have htail : Near d g₂.tail g₂'.tail := hg₂.tail_eq ▸ .refl d g₂.tail
  refine (hg₂.splice hhead htail).bind ?_
  rintro g₃ g₃' ⟨hg₃, -⟩
  refine (hclear .prev hg₃ hg₃.head_eq).bind fun g₄ g₄' hg₄ => ?_
  exact hclear .next hg₄ hg₄.tail_eq

end Shifted

end Heap

end TaggedHeap
