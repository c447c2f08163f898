import TaggedHeap.Proofs.Walk

/-!
# The audit is exact

The audit passes exactly the heaps that hold some view, whatever bytes the arena consists of,
and never does anything but pass or name some damage (`Heap.check_judges`).

Each check is specified by `Judges`: it answers `a` exactly when a predicate holds of `a`, and
otherwise finds damage.  Such statements compose like the checks themselves (`Judges.bind`,
`Judges.guard`).  The walk by address passes the blocks of `Heap.Walk`, the only ones that the
tags allow (`Heap.checkChain_judges`).  The walk along the list passes `Heap.Listing`, and its
blocks are all different because every link back leads to where the walk came from
(`Arena.Threads.nodup`).
-/

namespace TaggedHeap

/-- The check answers `a` exactly when `P a`, and finds damage when there is no such answer. -/
structure Judges {α : Type} (r : Except Stop α) (P : α → Prop) : Prop where
  /-- What is answered satisfies the predicate, and the other way around. -/
  ok_iff : ∀ a, r = .ok a ↔ P a
  /-- Nothing but damage ends the check early. -/
  damage : ∀ e, r = .error e → ∃ offset damage, e = .failed (.corrupted offset damage)

namespace Judges

variable {α β : Type} {r : Except Stop α} {P Q : α → Prop}

theorem pass {a : α} (ha : P a) (huniq : ∀ b, P b → b = a) : Judges (.ok a) P :=
  ⟨fun b => ⟨fun h => Except.ok.inj h ▸ ha, fun h => by rw [huniq b h]⟩, by simp⟩

theorem found {d : Damage} {offset : Nat} (h : ∀ a, ¬ P a) : Judges (d.found offset) P :=
  ⟨fun a => ⟨fun he => (by cases he), fun ha => (h a ha).elim⟩,
    fun _ he => ⟨offset, d, (Except.error.inj he).symm⟩⟩

theorem congr (h : Judges r P) (hPQ : ∀ a, P a ↔ Q a) : Judges r Q :=
  ⟨fun a => (h.ok_iff a).trans (hPQ a), h.damage⟩

/-- A check that goes on with what another one answered. -/
theorem bind {f : α → Except Stop β} {R : α → β → Prop} (h : Judges r P)
    (hf : ∀ a, P a → Judges (f a) (R a)) : Judges (r >>= f) fun b => ∃ a, P a ∧ R a b := by
  cases hr : r with
  | ok a =>
    have ha := (h.ok_iff a).1 hr
    refine (hf a ha).congr fun b => ⟨fun hb => ⟨a, ha, hb⟩, ?_⟩
    rintro ⟨a', ha', hb⟩
    have : a' = a := Except.ok.inj (((h.ok_iff a').2 ha').symm.trans hr)
    exact this ▸ hb
  | error e =>
    refine ⟨fun b => ⟨fun hb => ?_, ?_⟩, fun e' he' => ?_⟩
    · cases hb
    · rintro ⟨a, ha, -⟩
      cases hr.symm.trans ((h.ok_iff a).2 ha)
    · exact h.damage e' (hr.trans (congrArg _ (Except.error.inj he')))

theorem guard {c : Prop} [Decidable c] {d : Damage} {offset : Nat}
    {next : Unit → Except Stop α} (hc : c → ∀ a, ¬ P a) (hnext : ¬ c → Judges (next ()) P) :
    Judges (if c then d.found offset >>= next else next ()) P := by
  split <;> rename_i h
  · exact found (hc h)
  · exact hnext h

end Judges

namespace Heap

variable {h : Heap} {v : View} {start block : Nat} {afterFree : Bool}

theorem checkedTag_of_le (hle : block + 4 ≤ h.arena.size) :
    h.checkedTag block = .ok (h.arena.tagAt block) := by
  have hle' : ¬ h.arena.size < block + 4 := by omega
  simp only [checkedTag, Arena.add_of_le hle, ofFault_ok, ok_bind, hle', if_false, tag_of_le hle]

theorem le_of_checkedTag {t : Tag} (ht : h.checkedTag block = .ok t) :
    block + 4 ≤ h.arena.size := by
  rw [checkedTag] at ht
  obtain ⟨stop, hstop, ht⟩ := exists_of_bind_ok ht
  obtain ⟨-, rfl⟩ := Address.add_eq_ok_iff.1 (ofFault_eq_ok hstop)
  split at ht <;> rename_i hle
  · cases ht
  · exact Nat.not_lt.1 hle

theorem checkSentinel_judges (hle : block + h.layout.minBlock ≤ h.arena.size) :
    Judges (h.checkSentinel block) fun _ => h.arena.Tagged ⟨block, h.layout.minBlock, false⟩ := by
  have h16 : 16 ≤ h.layout.minBlock := h.valid.four_words_le
  have heven := h.valid.admits_minBlock.mod_eight h.valid
  obtain ⟨t, hpack, hsize, hfree⟩ := Tag.pack_spec true (by omega) h.valid.minBlock_le
  rw [checkSentinel, checkedTag_of_le (by omega), ok_bind, hpack, ofFault_ok, ok_bind]
  refine .guard (fun hne _ htag => hne ?_) fun heq => ?_
  · exact Tag.ext_size_isFree (htag.size_eq.trans hsize.symm) (htag.free_eq.trans hfree.symm)
  · rw [not_not] at heq
    have hfooter := footerOf_of_le (h := h) (x := ⟨block, h.layout.minBlock, false⟩) hle
      (show 4 ≤ block + h.layout.minBlock by omega)
    have hstop : block + h.layout.minBlock - 4 + 4 ≤ h.arena.size := by omega
    rw [heq, hsize, hfooter, ofFault_ok, ok_bind, Span.stop, tag_of_le hstop, ofFault_ok, ok_bind]
    refine .guard (fun hne _ htag => hne (htag.footer_eq.trans heq)) fun hfoot => ?_
    exact .pass ⟨heq ▸ hsize, heq ▸ hfree, (not_not.1 hfoot).trans heq.symm⟩ fun _ _ => rfl

/-! ### The walk by address -/

/-- The block at `start`, if a walk may pass it; `afterFree` says that the block below is
free. -/
structure Passes (h : Heap) (start : Nat) (afterFree : Bool) (x : Span) : Prop where
  /-- It starts where the walk is. -/
  offset_eq : x.offset = start
  /-- It has a size that a block may have. -/
  admits : h.layout.Admits x.size
  /-- It ends inside the arena. -/
  inside : x.stop + 4 ≤ h.arena.size
  /-- It carries its tags. -/
  tagged : h.arena.Tagged x
  /-- It is not free next to a free block. -/
  separated : ¬ (afterFree ∧ x.free)

/-- The blocks that the tags lead to, from `start` on up to the topmost block, which ends at
`stop`. -/
structure Walk (h : Heap) (start : Nat) (afterFree : Bool) (xs : List Span) (stop : Nat) :
    Prop where
  /-- The blocks follow each other. -/
  tiles : Span.Tile h.layout start xs stop
  /-- The last one ends inside the arena. -/
  inside : stop + 4 ≤ h.arena.size
  /-- They carry their tags. -/
  tagged : ∀ x ∈ xs, h.arena.Tagged x
  /-- The first of them is not free next to a free block. -/
  below : ∀ x ∈ xs.head?, ¬ (afterFree ∧ x.free)
  /-- Nor is any other. -/
  separated : Span.Separated xs
  /-- The last one is the topmost. -/
  last_eq : xs.getLast?.map Span.offset = some h.top

/-- There is at most one block that a walk may pass. -/
theorem Passes.eq {x y : Span} (hx : h.Passes start afterFree x)
    (hy : h.Passes start afterFree y) : x = y := by
  have hoff := hx.offset_eq.trans hy.offset_eq.symm
  have hsize := hx.tagged.size_eq.symm.trans (hoff ▸ hy.tagged.size_eq)
  have hfree := hx.tagged.free_eq.symm.trans (hoff ▸ hy.tagged.free_eq)
  cases x
  cases y
  simp_all

theorem walk_singleton {x : Span} {stop : Nat} :
    h.Walk start afterFree [x] stop ↔
      h.Passes start afterFree x ∧ start = h.top ∧ stop = x.stop := by
  constructor
  · rintro ⟨⟨rfl, hadm, rfl⟩, hin, htag, hbelow, -, hlast⟩
    exact ⟨⟨rfl, hadm, hin, htag x (by simp), hbelow x rfl⟩, Option.some.inj hlast, rfl⟩
  · rintro ⟨⟨rfl, hadm, hin, htag, hsep⟩, htop, rfl⟩
    exact ⟨⟨rfl, hadm, rfl⟩, hin, by simpa using htag, by simpa using hsep,
      List.IsChain.singleton _, congrArg some htop⟩

theorem walk_cons_cons {x y : Span} {xs : List Span} {stop : Nat} :
    h.Walk start afterFree (x :: y :: xs) stop ↔
      h.Passes start afterFree x ∧ start ≠ h.top ∧ h.Walk x.stop x.free (y :: xs) stop := by
  constructor
  · rintro ⟨⟨rfl, hadm, hrest⟩, hin, htag, hbelow, hsep, hlast⟩
    have hpos := hadm.le h.valid
    have hle := hrest.le
    obtain ⟨hxy, hsep⟩ := List.isChain_cons_cons.1 hsep
    refine ⟨⟨rfl, hadm, by omega, htag x (by simp), hbelow x rfl⟩, ?_,
      ⟨hrest, hin, fun z hz => htag z (List.mem_cons_of_mem _ hz), by simpa using hxy, hsep,
        by simpa using hlast⟩⟩
    intro htop
    rw [List.getLast?_cons_cons, List.getLast?_cons, Option.map_some, Option.some.injEq] at hlast
    have := (hrest.bounds (List.mem_of_getLast? List.getLast?_cons)).1
    rw [Span.stop] at this
    omega
  · rintro ⟨⟨rfl, hadm, -, htag, hsep⟩, -, ⟨hrest, hin, htags, hxy, hseps, hlast⟩⟩
    refine ⟨⟨rfl, hadm, hrest⟩, hin, ?_, by simpa using hsep, ?_, by simpa using hlast⟩
    · simpa using ⟨htag, by simpa using htags⟩
    · exact List.isChain_cons_cons.2 ⟨hxy y rfl, hseps⟩

/-- A walk passes a block, and goes on above it unless that is the topmost one. -/
theorem walk_iff {xs : List Span} {stop : Nat} : h.Walk start afterFree xs stop ↔
    ∃ x ys, xs = x :: ys ∧ h.Passes start afterFree x ∧
      if start = h.top then ys = [] ∧ stop = x.stop else h.Walk x.stop x.free ys stop := by
  constructor
  · intro hw
    rcases xs with _ | ⟨x, _ | ⟨y, ys⟩⟩
    · cases hw.last_eq
    · obtain ⟨hx, htop, rfl⟩ := walk_singleton.1 hw
      exact ⟨x, [], rfl, hx, by simp [htop]⟩
    · obtain ⟨hx, htop, hw⟩ := walk_cons_cons.1 hw
      exact ⟨x, y :: ys, rfl, hx, by rwa [if_neg htop]⟩
  · rintro ⟨x, ys, rfl, hx, hrest⟩
    split at hrest <;> rename_i htop
    · obtain ⟨rfl, rfl⟩ := hrest
      exact walk_singleton.2 ⟨hx, htop, rfl⟩
    · cases ys with
      | nil => cases hrest.last_eq
      | cons y ys => exact walk_cons_cons.2 ⟨hx, htop, hrest⟩

theorem checkBlock_judges (hstart : start + 4 ≤ h.arena.size) :
    Judges (h.checkBlock start start afterFree) (h.Passes start afterFree) := by
  rw [checkBlock]
  refine .guard (fun hne => (hne rfl).elim) fun _ => ?_
  rw [checkedTag_of_le hstart, ok_bind]
  generalize ht : h.arena.tagAt start = t
  have hsize : ∀ {x}, h.Passes start afterFree x → x.size = t.size := fun hx => by
    rw [← hx.tagged.size_eq, hx.offset_eq, ht]
  have hfree : ∀ {x}, h.Passes start afterFree x → x.free = t.isFree := fun hx => by
    rw [← hx.tagged.free_eq, hx.offset_eq, ht]
  have hstop : ∀ {x}, h.Passes start afterFree x → x.stop = start + t.size := fun hx => by
    rw [Span.stop, hx.offset_eq, hsize hx]
  refine .guard (fun hbad x hx => ?_) fun hadm => ?_
  · have := hx.admits
    rw [hsize hx, Layout.Admits] at this
    omega
  have hadm : h.layout.Admits t.size := by
    rw [Layout.Admits]
    omega
  -- the sums that follow stay in the address space whatever the tag says
  have hle := t.size_le
  have hspace := h.arena.size_lt_space
  have hmax : h.arena.size ≤ maxContiguous := h.arena.size_le
  simp only [maxTagged, maxContiguous, Address.space] at hle hspace hmax
  have hadd : ∀ {n}, n < 2 ^ 33 → Address.add (start + t.size) n = .ok (start + t.size + n) :=
    fun hn => Address.add_of_lt (by rw [Address.space]; omega)
  rw [Address.add_of_lt (by rw [Address.space]; omega), ofFault_ok, ok_bind,
    hadd (by decide), ofFault_ok, ok_bind]
  refine .guard (fun hbad x hx => ?_) fun hin => ?_
  · have := hx.inside
    rw [hstop hx] at this
    exact absurd hbad (Nat.not_lt.2 this)
  have hpos := hadm.le h.valid
  rw [Address.sub_of_le (show 4 ≤ start + t.size by omega), ofFault_ok, ok_bind,
    tag_of_le (show start + t.size - 4 + 4 ≤ h.arena.size by omega), ofFault_ok, ok_bind]
  refine .guard (fun hbad x hx => hbad ?_) fun hfoot => ?_
  · have := hx.tagged.footer_eq
    rwa [hx.offset_eq, hstop hx, ht] at this
  refine .guard (fun hbad x hx => hx.separated ?_) fun hsep => ?_
  · exact ⟨hbad.2, (hfree hx).trans hbad.1⟩
  have hx : h.Passes start afterFree ⟨start, t.size, t.isFree⟩ :=
    ⟨rfl, hadm, Nat.not_lt.1 hin, ⟨by rw [ht], by rw [ht], (not_not.1 hfoot).trans ht.symm⟩,
      fun hf => hsep ⟨hf.2, hf.1⟩⟩
  exact .pass hx fun y hy => hy.eq hx

/-- A block that passed lies inside the arena, and starts where it should. -/
theorem passes_of_checkBlock {x : Span} (hx : h.checkBlock block start afterFree = .ok x) :
    block = start ∧ start + 4 ≤ h.arena.size ∧ h.Passes start afterFree x := by
  have hcheck := hx
  rw [checkBlock] at hcheck
  split at hcheck <;> rename_i hstart
  · cases hcheck
  obtain rfl := not_not.1 hstart
  obtain ⟨t, ht, -⟩ := exists_of_bind_ok hcheck
  have hle := le_of_checkedTag ht
  exact ⟨rfl, hle, ((checkBlock_judges hle).ok_iff x).1 hx⟩

theorem Passes.nextBlock?_eq {x : Span} (hx : h.Passes start afterFree x)
    (hstart : start + 4 ≤ h.arena.size) :
    h.nextBlock? start = .ok (if start = h.top then none else some x.stop) := by
  have hin := hx.inside
  have hsize : (h.arena.tagAt start).size = x.size := by rw [← hx.offset_eq, hx.tagged.size_eq]
  have hstop : x.stop = start + x.size := by rw [Span.stop, hx.offset_eq]
  rw [nextBlock?]
  split
  · rfl
  · rw [tag_of_le hstart, ok_bind, hsize, Arena.add_of_le (a := h.arena) (by omega), hstop]
    rfl

theorem checkChain_of_error {limit : Nat} {e : Stop}
    (hcheck : h.checkBlock block start afterFree = .error e) :
    h.checkChain (limit + 1) (some block) start afterFree = ([], .error e) := by
  rw [checkChain, hcheck]

/-- A walk that passes a block goes on above it with one step less. -/
theorem checkChain_of_ok {limit : Nat} {x : Span}
    (hcheck : h.checkBlock block start afterFree = .ok x) :
    h.checkChain (limit + 1) (some block) start afterFree =
      (x :: (h.checkChain limit (if block = h.top then none else some x.stop) x.stop x.free).1,
        (h.checkChain limit (if block = h.top then none else some x.stop) x.stop x.free).2) := by
  obtain ⟨rfl, hle, hx⟩ := passes_of_checkBlock hcheck
  have hstop : block + x.size = x.stop := by rw [Span.stop, hx.offset_eq]
  rw [checkChain, hcheck]
  dsimp only
  rw [hx.nextBlock?_eq hle, hstop]

/-- What a walk by address that started at `start` has passed, whatever it answered. -/
structure Trail (h : Heap) (start : Nat) (xs : List Span) (answer : Except Stop Nat) : Prop where
  /-- The blocks follow each other, up to where the walk says that they end. -/
  tiles : ∃ stop, Span.Tile h.layout start xs stop ∧ ∀ s, answer = .ok s → s = stop
  /-- Above each block, the walk goes on where the block ends. -/
  above : ∀ x ∈ xs, h.nextBlock? x.offset = .ok (if x.offset = h.top then none else some x.stop)

theorem Trail.nil {answer : Except Stop Nat} (hend : ∀ s, answer = .ok s → s = start) :
    h.Trail start [] answer :=
  ⟨⟨start, rfl, hend⟩, by simp⟩

theorem checkChain_trail (limit : Nat) (next : Option Nat) (start : Nat) (afterFree : Bool) :
    h.Trail start (h.checkChain limit next start afterFree).1
      (h.checkChain limit next start afterFree).2 := by
  induction limit generalizing next start afterFree with
  | zero =>
    cases next with
    | none => exact .nil fun s hs => (Except.ok.inj hs).symm
    | some block => exact .nil fun s hs => by cases hs
  | succ limit ih =>
    cases next with
    | none => exact .nil fun s hs => (Except.ok.inj hs).symm
    | some block =>
      cases hcheck : h.checkBlock block start afterFree with
      | error e =>
        rw [checkChain_of_error hcheck]
        exact .nil fun s hs => by cases hs
      | ok x =>
        rw [checkChain_of_ok hcheck]
        obtain ⟨rfl, hle, hx⟩ := passes_of_checkBlock hcheck
        have hnext := hx.nextBlock?_eq hle
        rw [← hx.offset_eq] at hnext
        obtain ⟨⟨stop, htile, hend⟩, habove⟩ :=
          ih (if block = h.top then none else some x.stop) x.stop x.free
        exact ⟨⟨stop, ⟨hx.offset_eq, hx.admits, htile⟩, hend⟩,
          List.forall_mem_cons.2 ⟨hnext, habove⟩⟩

theorem tile_of_checkChain {limit stop : Nat} {next : Option Nat} {xs : List Span}
    (hwalk : h.checkChain limit next start afterFree = (xs, .ok stop)) :
    Span.Tile h.layout start xs stop := by
  obtain ⟨stop', htile, hend⟩ := (checkChain_trail (h := h) limit next start afterFree).tiles
  rw [hwalk] at htile hend
  rwa [hend stop rfl]

/-- What the walk by address answers, with the blocks that passed. -/
def passed (r : List Span × Except Stop Nat) : Except Stop (List Span × Nat) :=
  r.2.map fun stop => (r.1, stop)

/-- **The walk by address passes the blocks that the tags lead to**, if it can get to the
topmost one. -/
theorem checkChain_judges {limit : Nat} (hstart : start + 4 ≤ h.arena.size)
    (hlimit : h.arena.size < start + limit) :
    Judges (passed (h.checkChain limit (some start) start afterFree))
      fun r => h.Walk start afterFree r.1 r.2 := by
  induction limit generalizing start afterFree with
  | zero => omega
  | succ limit ih =>
    have hblock : Judges _ (h.Passes start afterFree) := checkBlock_judges hstart
    refine Judges.congr ?_ fun r => walk_iff.symm
    cases hcheck : h.checkBlock start start afterFree with
    | error e =>
      obtain ⟨offset, d, rfl⟩ := hblock.damage _ hcheck
      rw [checkChain_of_error hcheck]
      refine .found ?_
      rintro r ⟨x, -, -, hx, -⟩
      cases hcheck.symm.trans ((hblock.ok_iff x).2 hx)
    | ok x =>
      have hx := (hblock.ok_iff x).1 hcheck
      have hstop : x.stop = start + x.size := by rw [Span.stop, hx.offset_eq]
      rw [checkChain_of_ok hcheck]
      by_cases htop : start = h.top
      · -- the walk ends here
        rw [if_pos htop, checkChain]
        simp only [if_pos htop]
        refine .pass (a := ([x], x.stop)) ⟨x, [], rfl, hx, rfl, rfl⟩ ?_
        rintro ⟨_, _⟩ ⟨y, _, rfl, hy, rfl, rfl⟩
        rw [hy.eq hx]
      · -- it goes on where the block ends, with one step less
        have hin := hx.inside
        have hpos := hx.admits.le h.valid
        simp only [if_neg htop]
        have hrest : Judges (passed (h.checkChain limit (some x.stop) x.stop x.free)) _ :=
          ih hin (by omega)
        generalize h.checkChain limit (some x.stop) x.stop x.free = r at hrest
        obtain ⟨xs, answer⟩ := r
        cases answer with
        | error e =>
          obtain ⟨offset, d, rfl⟩ := hrest.damage e rfl
          refine .found ?_
          rintro r ⟨y, ys, -, hy, hw⟩
          rw [hy.eq hx] at hw
          cases (hrest.ok_iff (ys, r.2)).2 hw
        | ok stop =>
          have hw := (hrest.ok_iff (xs, stop)).1 rfl
          refine .pass (a := (x :: xs, stop)) ⟨x, xs, rfl, hx, hw⟩ ?_
          rintro ⟨_, stop'⟩ ⟨y, ys, rfl, hy, hw'⟩
          rw [hy.eq hx] at hw' ⊢
          cases (hrest.ok_iff (ys, stop')).2 hw'
          rfl

/-! ### The walk along the list -/

section List

variable {free : List Nat} {before unmet : Nat} (htail : h.tail + 12 ≤ h.arena.size)
  (hfree : ∀ x ∈ free, x + 12 ≤ h.arena.size)

include htail hfree

theorem checkListed_judges (hbefore : before + 12 ≤ h.arena.size) :
    Judges (h.checkListed free before) fun block =>
      h.arena.Linked before block ∧ (block = h.tail ∨ block ∈ free) := by
  rw [checkListed, neighbour?_of_le hbefore, ofFault_ok, ok_bind]
  cases hnext : h.arena.link? before .next with
  | none =>
    refine .found fun _ hb => ?_
    cases hb.1.1.symm.trans hnext
  | some block =>
    have heq : ∀ {b}, h.arena.Linked before b → b = block := fun hb =>
      Option.some.inj (hb.1.symm.trans hnext)
    refine .guard (fun hbad b hb => ?_) fun hin => ?_
    · have hb' := heq hb.1
      have hspace := h.arena.size_lt_space
      have hin : block + 12 ≤ h.arena.size := by
        rcases hb.2 with hb | hb
        · rw [← hb', hb]; exact htail
        · exact hb' ▸ hfree b hb
      rcases hbad with hbad | hbad
      · exact absurd hbad (Nat.not_lt.2 hin)
      · exact absurd (Nat.lt_of_le_of_lt hin hspace) (Nat.not_lt.2 hbad)
    have hin : block + 12 ≤ h.arena.size := Nat.not_lt.1 fun hlt => hin (.inl hlt)
    rw [neighbour?_of_le hin, ofFault_ok, ok_bind]
    refine .guard (fun hbad b hb => hbad (heq hb.1 ▸ hb.1.2)) fun hprev => ?_
    refine .guard (fun hbad b hb => ?_) fun hmem => ?_
    · exact (heq hb.1 ▸ hb.2).elim hbad.1 hbad.2
    · have hmem : block = h.tail ∨ block ∈ free := by tauto
      exact .pass ⟨⟨hnext, not_not.1 hprev⟩, hmem⟩ fun b hb => heq hb.1

/-- The list goes through `unmet` of the free blocks and arrives at the tail sentinel. -/
def Listing (h : Heap) (free : List Nat) (unmet before : Nat) (ring : List Nat) : Prop :=
  ring.length = unmet ∧ (∀ x ∈ ring, x ∈ free) ∧ h.arena.Threads (before :: (ring ++ [h.tail]))

theorem checkList_judges (hfresh : h.tail ∉ free) (hbefore : before + 12 ≤ h.arena.size) :
    Judges (h.checkList free unmet before) fun _ => ∃ ring, h.Listing free unmet before ring := by
  induction unmet generalizing before with
  | zero =>
    rw [checkList]
    refine ((checkListed_judges htail hfree hbefore).bind (R := fun block _ => block = h.tail)
      fun block hblock => ?_).congr fun _ => ?_
    · exact @Judges.guard _ _ _ _ _ _ (fun _ => .ok ()) (fun hne _ he => hne he) fun he =>
        .pass (not_not.1 he) fun _ _ => rfl
    · constructor
      · rintro ⟨block, ⟨hlink, -⟩, rfl⟩
        exact ⟨[], rfl, by simp, List.isChain_cons_cons.2 ⟨hlink, .singleton _⟩⟩
      · rintro ⟨ring, hlen, -, hthr⟩
        rw [List.length_eq_zero_iff.1 hlen] at hthr
        exact ⟨h.tail, ⟨(List.isChain_cons_cons.1 hthr).1, .inl rfl⟩, rfl⟩
  | succ unmet ih =>
    rw [checkList]
    refine ((checkListed_judges htail hfree hbefore).bind (R := fun block _ =>
      block ≠ h.tail ∧ ∃ ring, h.Listing free unmet block ring) fun block hblock => ?_).congr
        fun _ => ?_
    · refine .guard (fun he _ hne => hne.1 he) fun hne => ?_
      have hin := hfree block (hblock.2.resolve_left hne)
      exact (ih hin).congr fun _ => (and_iff_right hne).symm
    · constructor
      · rintro ⟨block, ⟨hlink, hmem⟩, hne, ring, rfl, hring, hthr⟩
        refine ⟨block :: ring, rfl, ?_, List.isChain_cons_cons.2 ⟨hlink, hthr⟩⟩
        exact List.forall_mem_cons.2 ⟨hmem.resolve_left hne, hring⟩
      · rintro ⟨ring, hlen, hring, hthr⟩
        obtain ⟨block, ring, rfl⟩ := List.exists_cons_of_length_eq_add_one hlen
        obtain ⟨hblock, hring⟩ := List.forall_mem_cons.1 hring
        obtain ⟨hlink, hthr⟩ := List.isChain_cons_cons.1 hthr
        exact ⟨block, ⟨hlink, .inr hblock⟩, fun he => hfresh (he ▸ hblock), ring,
          Nat.succ.inj hlen, hring, hthr⟩

end List

theorem checkRing_judges {free : List Nat} (htail : h.tail + 12 ≤ h.arena.size)
    (hfree : ∀ x ∈ free, h.tail < x ∧ x + 12 ≤ h.arena.size) :
    Judges (h.checkRing free) fun _ => h.arena.link? h.head .prev = none ∧
      h.arena.link? h.tail .next = none ∧
        ∃ ring : List Nat, ring.Perm free ∧ h.arena.Threads (h.nodes ring) := by
  have hlt := h.head_lt_tail
  have hhead : h.head + 12 ≤ h.arena.size := by omega
  have hfresh : h.tail ∉ free := fun hmem => Nat.lt_irrefl _ (hfree _ hmem).1
  rw [checkRing, neighbour?_of_le hhead, ofFault_ok, ok_bind]
  refine .guard (fun hsome _ hnone => ?_) fun hprev => ?_
  · rw [hnone.1] at hsome
    cases hsome
  rw [neighbour?_of_le htail, ofFault_ok, ok_bind]
  refine .guard (fun hsome _ hnone => ?_) fun hnext => ?_
  · rw [hnone.2.1] at hsome
    cases hsome
  rw [Bool.not_eq_true, Option.isSome_eq_false_iff, Option.isNone_iff_eq_none] at hprev hnext
  refine (checkList_judges htail (fun x hx => (hfree x hx).2) hfresh hhead).congr fun _ => ?_
  constructor
  · rintro ⟨ring, hlen, hring, hthr⟩
    have hhead : h.head ∉ ring ++ [h.tail] := by
      rw [List.mem_append, List.mem_singleton]
      rintro (hmem | he)
      · have := (hfree _ (hring _ hmem)).1
        omega
      · omega
    -- as many different free blocks as there are must be all of them
    have hnodup := (List.nodup_append.1 (List.nodup_cons.1 (hthr.nodup hhead)).2).1
    exact ⟨hprev, hnext, ring,
      (List.subperm_of_subset hnodup hring).perm_of_length_le hlen.ge, hthr⟩
  · rintro ⟨-, -, ring, hperm, hthr⟩
    exact ⟨ring, hperm.length_eq, fun x hx => hperm.subset hx, hthr⟩

/-! ### The whole audit -/

/-- What a report on the given blocks says. -/
def reportOf (h : Heap) (xs : List Span) : Report where
  blocks := xs.length
  freeBlocks := (xs.filter Span.free).length
  freeBytes := Span.totalSize (xs.filter Span.free)
  usedBytes := Span.totalSize (xs.filter (!·.free))
  arenaBytes := h.arena.size

theorem check_eq : h.check = (do
    let first ← h.beginAudit
    let r ← passed (h.checkChain (h.arena.size + 1) first h.firstBlock false)
    h.concludeAudit r.1 r.2) := by
  rw [check, audit]
  cases h.beginAudit with
  | error e => rfl
  | ok first =>
    simp only [ok_bind]
    cases h.checkChain (h.arena.size + 1) first h.firstBlock false with
    | mk xs r => cases r <;> rfl

/-- The rest of the audit, once the blocks have passed. -/
theorem concludeAudit_judges {xs : List Span} {stop : Nat} (hstop : stop + 4 ≤ h.arena.size)
    (htail : h.tail + 12 ≤ h.arena.size)
    (hfree : ∀ x ∈ Span.freeHeaders xs, h.tail < x ∧ x + 12 ≤ h.arena.size) :
    Judges (h.concludeAudit xs stop) fun r => stop + 4 = h.arena.size ∧
      (h.arena.link? h.head .prev = none ∧ h.arena.link? h.tail .next = none ∧
        ∃ ring : List Nat, ring.Perm (Span.freeHeaders xs) ∧ h.arena.Threads (h.nodes ring)) ∧
      r = h.reportOf xs := by
  rw [concludeAudit, Arena.add_of_le (a := h.arena) hstop, ofFault_ok, ok_bind]
  refine .guard (fun hne _ hr => hne hr.1) fun heq => ?_
  refine ((checkRing_judges htail hfree).bind (R := fun _ r => r = h.reportOf xs)
    fun _ _ => .pass rfl fun _ hr => hr).congr fun r => ?_
  constructor
  · rintro ⟨-, hring, hr⟩
    exact ⟨not_not.1 heq, hring, hr⟩
  · rintro ⟨-, hring, hr⟩
    exact ⟨(), hring, hr⟩

/-- The blocks that the tags lead to, from the first one on; none if the tail sentinel is
topmost. -/
def FullWalk (h : Heap) (xs : List Span) (stop : Nat) : Prop :=
  if h.tail = h.top then xs = [] ∧ stop = h.firstBlock else h.Walk h.firstBlock false xs stop

theorem FullWalk.stop_le {xs : List Span} {stop : Nat} (hroom : h.firstBlock + 4 ≤ h.arena.size)
    (hw : h.FullWalk xs stop) : stop + 4 ≤ h.arena.size := by
  rw [FullWalk] at hw
  split at hw
  · exact hw.2 ▸ hroom
  · exact hw.inside

theorem FullWalk.tiles {xs : List Span} {stop : Nat} (hw : h.FullWalk xs stop) :
    Span.Tile h.layout h.firstBlock xs stop := by
  rw [FullWalk] at hw
  split at hw
  · rw [hw.1, hw.2]
    rfl
  · exact hw.tiles

/-- A heap holds a view when its sentinels are intact, its tags lead through the blocks and its
links through the free ones. -/
theorem sound_iff (hroom : h.firstBlock + 4 ≤ h.arena.size) : h.Sound v ↔
    h.arena.Tagged ⟨h.head, h.layout.minBlock, false⟩ ∧
    h.arena.Tagged ⟨h.tail, h.layout.minBlock, false⟩ ∧
    h.FullWalk v.spans (h.arena.size - 4) ∧
    (h.arena.link? h.head .prev = none ∧ h.arena.link? h.tail .next = none) ∧
    v.ring.Perm (Span.freeHeaders v.spans) ∧ h.arena.Threads (h.nodes v.ring) := by
  have hadm := h.valid.admits_minBlock
  have hpos := hadm.le h.valid
  have hstop : h.firstBlock = h.tail + h.layout.minBlock := rfl
  constructor
  · intro hv
    have htags := List.forall_mem_append.1 hv.tagged
    have htiles : Span.Tile h.layout h.firstBlock v.spans (h.arena.size - 4) := hv.tiles.2.2.2.2
    refine ⟨htags.1 _ (by simp [sentinels]), htags.1 _ (by simp [sentinels]), ?_,
      ⟨hv.head_prev, hv.tail_next⟩, hv.listed, hv.threads⟩
    have htop := hv.top_eq
    rw [FullWalk]
    rcases hlast : v.spans.getLast? with _ | x
    · have hnil := List.getLast?_eq_none_iff.1 hlast
      have htop : h.tail = h.top := by rw [htop, hnil]; rfl
      rw [hnil] at htiles ⊢
      rw [if_pos htop]
      exact ⟨rfl, htiles.symm⟩
    · have hx := (htiles.bounds (List.mem_of_getLast? hlast)).1
      have htop : h.top = x.offset := by rw [htop, lastOf, hlast]; rfl
      rw [if_neg (by omega)]
      exact ⟨htiles, by omega, htags.2, fun _ _ hf => absurd hf.1 Bool.false_ne_true, hv.separated,
        by rw [hlast, htop]; rfl⟩
  · rintro ⟨hh, ht, hw, ⟨hhp, htn⟩, hlist, hthr⟩
    refine ⟨⟨rfl, hadm, rfl, hadm, hw.tiles⟩, ?_, ?_, ?_, hlist, hthr, hhp, htn⟩ <;>
      rw [FullWalk] at hw <;> split at hw
    · rw [hw.1, chain_nil]
      simpa [sentinels] using ⟨hh, ht⟩
    · refine List.forall_mem_append.2 ⟨?_, hw.tagged⟩
      simpa [sentinels] using ⟨hh, ht⟩
    · rename_i htop
      rw [hw.1, ← htop]
      rfl
    · rw [lastOf, hw.last_eq]
      rfl
    · rw [hw.1]
      exact .nil
    · exact hw.separated

theorem nextBlock?_tail (hle : h.firstBlock ≤ h.arena.size)
    (htail : h.arena.Tagged ⟨h.tail, h.layout.minBlock, false⟩) :
    h.nextBlock? h.tail = .ok (if h.tail = h.top then none else some h.firstBlock) := by
  have hstop : h.firstBlock = h.tail + h.layout.minBlock := rfl
  have hpos := h.valid.admits_minBlock.le h.valid
  rw [nextBlock?]
  split
  · rfl
  · have hsize : (h.arena.tagAt h.tail).size = h.layout.minBlock := htail.size_eq
    rw [tag_of_le (by omega), ok_bind, hsize, Arena.add_of_le (a := h.arena) (by omega), hstop]
    rfl

theorem beginAudit_judges (hroom : h.firstBlock + 4 ≤ h.arena.size) :
    Judges h.beginAudit fun first =>
      (h.arena.Tagged ⟨h.head, h.layout.minBlock, false⟩ ∧
        h.arena.Tagged ⟨h.tail, h.layout.minBlock, false⟩) ∧
      first = if h.tail = h.top then none else some h.firstBlock := by
  have hstop : h.firstBlock = h.tail + h.layout.minBlock := rfl
  have hlt := h.head_lt_tail
  rw [beginAudit]
  have hhead : Judges (h.checkSentinel h.head) _ :=
    checkSentinel_judges (by rw [tail] at hstop; omega)
  have htail : Judges (h.checkSentinel h.tail) _ := checkSentinel_judges (by omega)
  refine (hhead.bind (R := fun _ first => ∃ _ : Unit,
    h.arena.Tagged ⟨h.tail, h.layout.minBlock, false⟩ ∧
      first = if h.tail = h.top then none else some h.firstBlock) fun _ _ => htail.bind
        fun _ ht => ?_).congr fun first => ?_
  · rw [nextBlock?_tail (by omega) ht]
    exact .pass rfl fun _ he => he
  · constructor
    · rintro ⟨_, hh, _, ht, he⟩
      exact ⟨⟨hh, ht⟩, he⟩
    · rintro ⟨⟨hh, ht⟩, he⟩
      exact ⟨(), hh, (), ht, he⟩

theorem fullWalk_judges (hroom : h.firstBlock + 4 ≤ h.arena.size) :
    Judges (passed (h.checkChain (h.arena.size + 1)
      (if h.tail = h.top then none else some h.firstBlock) h.firstBlock false))
      fun r => h.FullWalk r.1 r.2 := by
  simp only [FullWalk]
  split
  · rw [checkChain]
    refine .pass (a := ([], h.firstBlock)) ⟨rfl, rfl⟩ ?_
    rintro ⟨_, _⟩ ⟨rfl, rfl⟩
    rfl
  · exact checkChain_judges hroom (by omega)

/-- **The audit is exact**: it passes a heap exactly when the heap holds some view. -/
theorem check_judges (hroom : h.firstBlock + 4 ≤ h.arena.size) :
    Judges h.check fun r => ∃ v, h.Sound v ∧ r = h.reportOf v.spans := by
  have hlt := h.head_lt_tail
  have hstop : h.firstBlock = h.tail + h.layout.minBlock := rfl
  have hpos := h.valid.admits_minBlock.le h.valid
  rw [check_eq]
  refine ((beginAudit_judges hroom).bind (R := fun _ r => ∃ v : View,
    h.FullWalk v.spans (h.arena.size - 4) ∧
    (h.arena.link? h.head .prev = none ∧ h.arena.link? h.tail .next = none) ∧
    v.ring.Perm (Span.freeHeaders v.spans) ∧ h.arena.Threads (h.nodes v.ring) ∧
    r = h.reportOf v.spans) ?_).congr fun r => ?_
  · rintro _ ⟨-, rfl⟩
    refine ((fullWalk_judges hroom).bind fun w hw => concludeAudit_judges (hw.stop_le hroom)
      (by omega) fun n hn => ?_).congr fun r => ?_
    · obtain ⟨x, hx, -, rfl⟩ := Span.mem_freeHeaders.1 hn
      have hb := hw.tiles.bounds hx
      have hle := hw.stop_le hroom
      have := (hw.tiles.admits hx).le h.valid
      rw [Span.stop] at hb
      omega
    · constructor
      · rintro ⟨⟨xs, stop⟩, hw, heq, ⟨hhp, htn, ring, hperm, hthr⟩, hr⟩
        dsimp only at hw heq hr
        rw [show stop = h.arena.size - 4 by omega] at hw
        exact ⟨⟨xs, ring⟩, hw, ⟨hhp, htn⟩, hperm, hthr, hr⟩
      · rintro ⟨⟨xs, ring⟩, hw, ⟨hhp, htn⟩, hperm, hthr, hr⟩
        have := hw.stop_le hroom
        exact ⟨(xs, h.arena.size - 4), hw, by omega, ⟨hhp, htn, ring, hperm, hthr⟩, hr⟩
  · constructor
    · rintro ⟨_, ⟨⟨hh, ht⟩, -⟩, v, hw, hends, hperm, hthr, hr⟩
      exact ⟨v, (sound_iff hroom).2 ⟨hh, ht, hw, hends, hperm, hthr⟩, hr⟩
    · rintro ⟨v, hv, hr⟩
      obtain ⟨hh, ht, hw, hends, hperm, hthr⟩ := (sound_iff hroom).1 hv
      exact ⟨_, ⟨⟨hh, ht⟩, rfl⟩, v, hw, hends, hperm, hthr, hr⟩

/-- The bytes of a heap are those in front of its first block, those of its blocks, and its last
word. -/
theorem Sound.totals (hv : h.Sound v) :
    (h.reportOf v.spans).freeBytes + (h.reportOf v.spans).usedBytes + h.firstBlock + 4 =
      h.arena.size := by
  have ht : Span.Tile h.layout h.firstBlock v.spans (h.arena.size - 4) := hv.tiles.2.2.2.2
  have hsize := ht.totalSize
  have hsplit : ∀ xs : List Span, Span.totalSize (xs.filter Span.free) +
      Span.totalSize (xs.filter (!·.free)) = Span.totalSize xs := by
    intro xs
    induction xs with
    | nil => rfl
    | cons x xs ih =>
      cases hx : x.free <;> simp [hx] <;> omega
  have hb := hv.holds.bounds (x := ⟨h.head, h.layout.minBlock, false⟩) (by simp [chain, sentinels])
  have := hsplit v.spans
  dsimp only [reportOf]
  omega

theorem Sound.check_eq (hv : h.Sound v) : h.check = .ok (h.reportOf v.spans) := by
  have hb := hv.holds.bounds (x := ⟨h.tail, h.layout.minBlock, false⟩) (by simp [chain, sentinels])
  exact ((h.check_judges hb.2.2).ok_iff _).2 ⟨v, hv, rfl⟩

/-- **The audit decides whether a heap is sound**, whatever its arena consists of.  It answers a
report or some damage, and a report only for the blocks that the heap holds, whose bytes it
accounts for. -/
theorem check_exact (h : Heap) (hroom : h.tail + h.layout.minBlock + 4 ≤ h.arena.size) :
    ((∃ r, h.check = .ok r) ∨
      ∃ offset damage, h.check = .error (.failed (.corrupted offset damage))) ∧
    (∀ r, h.check = .ok r ↔ ∃ v, h.Sound v ∧ r = h.reportOf v.spans) ∧
    ∀ r, h.check = .ok r →
      r.arenaBytes = h.arena.size ∧
        r.freeBytes + r.usedBytes + h.tail + h.layout.minBlock + 4 = r.arenaBytes := by
  have hj := h.check_judges hroom
  refine ⟨?_, hj.ok_iff, fun r hr => ?_⟩
  · cases hc : h.check with
    | ok r => exact .inl ⟨r, rfl⟩
    | error e =>
      obtain ⟨offset, damage, rfl⟩ := hj.damage e hc
      exact .inr ⟨offset, damage, rfl⟩
  · obtain ⟨v, hv, rfl⟩ := (hj.ok_iff r).1 hr
    have htotals := hv.totals
    rw [firstBlock] at htotals
    exact ⟨rfl, by rw [← Nat.add_assoc] at htotals; exact htotals⟩

/-- A heap in an arena of 20 words: a free block at offset 44 and one in use at offset 60, which
is the topmost one. -/
def ofTwoBlocks : Heap where
  arena.bytes := (List.flatMap Word.toBytes [0, 0, 0, 17, 8, 0, 17, 17, 0, 4, 17, 16, 0xfffffffc,
    0xfffffff8, 16, 17, 0xfffffff8, 0xfffffff4, 17, 0]).toArray
  arena.source := .buffer 80
  layout := {}
  valid := by decide
  head := 12
  top := 60

theorem check_exact_ofTwoBlocks :
    ofTwoBlocks.tail + ofTwoBlocks.layout.minBlock + 4 ≤ ofTwoBlocks.arena.size ∧
      ofTwoBlocks.check = .ok ⟨2, 1, 16, 16, 80⟩ ∧
      (∃ v, ofTwoBlocks.Sound v ∧ ⟨2, 1, 16, 16, 80⟩ = ofTwoBlocks.reportOf v.spans) ∧
      ∀ v, ¬ { ofTwoBlocks with top := 44 }.Sound v := by
  have hroom : ofTwoBlocks.tail + ofTwoBlocks.layout.minBlock + 4 ≤ ofTwoBlocks.arena.size := by
    decide
  have hpass : ofTwoBlocks.check = .ok ⟨2, 1, 16, 16, 80⟩ := by decide +kernel
  have hfail : { ofTwoBlocks with top := 44 }.check =
      .error (.failed (.corrupted 44 .topNotLast)) := by decide +kernel
  refine ⟨hroom, hpass, ((check_exact _ hroom).2.1 _).1 hpass, fun v hv => ?_⟩
  have hfound := ((check_exact { ofTwoBlocks with top := 44 } hroom).2.1 _).2 ⟨v, hv, rfl⟩
  cases hfail.symm.trans hfound

end Heap

end TaggedHeap
