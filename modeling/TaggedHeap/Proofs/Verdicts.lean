import TaggedHeap.Proofs.Truncation

/-!
# Verdicts that are never given

The audit has a verdict on a walk by address that arrives elsewhere than at the end of the block
before, and one on a list that goes on when every free block has been met.  It gives neither of
them (`Heap.check_verdicts`), whatever the bytes and the size of the arena are, and wherever the
topmost block is said to lie.

* The walk by address goes on above a block where the size in its header leads, which is where the
  block ends (`Heap.Passes.nextBlock?_eq`).
* A link back leads to one block only.  So a list whose links back all match comes back to the head
  sentinel before it comes back to any other block, and the head sentinel is no free block
  (`Heap.checkRing_finds`).

What a check can find at all follows from the checks that it consists of (`FindsOnly`).
-/

namespace TaggedHeap

/-- The check finds no other damage than the given. -/
def FindsOnly {α : Type} (ds : List Damage) (r : Except Stop α) : Prop :=
  ∀ offset d, r = d.found offset → d ∈ ds

namespace FindsOnly

variable {α β : Type} {ds ds' : List Damage} {r r' : Except Stop α}

theorem ok (a : α) : FindsOnly ds (.ok a : Except Stop α) := fun _ _ h => by cases h

theorem found {d : Damage} {offset : Nat} (hd : d ∈ ds) :
    FindsOnly ds (d.found offset : Except Stop α) := by
  intro offset' d' h
  cases h
  exact hd

/-- What ends a check early ends whatever the check is part of. -/
theorem error {e : Stop} (h : FindsOnly ds (.error e : Except Stop α)) :
    FindsOnly ds (.error e : Except Stop β) :=
  fun offset d he => h offset d (congrArg _ (Except.error.inj he))

theorem ofFault (r : Except Fault α) : FindsOnly ds (Stop.ofFault r) := by
  intro offset d h
  cases r <;> cases h

theorem mono (h : FindsOnly ds r) (hds : ds ⊆ ds') : FindsOnly ds' r :=
  fun offset d hr => hds (h offset d hr)

/-- A check that goes on with what another one answered. -/
theorem bind {f : α → Except Stop β} (h : FindsOnly ds r)
    (hf : ∀ a, r = .ok a → FindsOnly ds (f a)) : FindsOnly ds (r >>= f) := by
  cases r with
  | ok a => exact hf a rfl
  | error e => exact h.error

theorem ite {c : Prop} [Decidable c] (h : c → FindsOnly ds r) (h' : ¬ c → FindsOnly ds r') :
    FindsOnly ds (if c then r else r') := by
  split <;> rename_i hc
  · exact h hc
  · exact h' hc

theorem guard {c : Prop} [Decidable c] {d : Damage} {offset : Nat} {next : Unit → Except Stop α}
    (hd : d ∈ ds) (hnext : ¬ c → FindsOnly ds (next ())) :
    FindsOnly ds (if c then d.found offset >>= next else next ()) :=
  .ite (fun _ => .bind (.found hd) fun _ h => by cases h) hnext

end FindsOnly

namespace Heap

variable {h : Heap} {start block : Nat} {afterFree : Bool}

/-! ### Tags -/

theorem checkedTag_finds : FindsOnly [.tagOutside] (h.checkedTag block) := by
  rw [checkedTag]
  exact .bind (.ofFault _) fun _ _ => .guard (by decide) fun _ => .ofFault _

theorem checkSentinel_finds : FindsOnly [.tagOutside, .sentinelTag] (h.checkSentinel block) := by
  rw [checkSentinel]
  refine .bind (checkedTag_finds.mono (by decide)) fun t _ => ?_
  refine .bind (.ofFault _) fun _ _ => .guard (by decide) fun _ => ?_
  refine .bind (.ofFault _) fun _ _ => .bind (.ofFault _) fun _ _ => ?_
  exact .ite (fun _ => .found (by decide)) fun _ => .ok ()

theorem tagged_of_checkSentinel (hpass : h.checkSentinel block = .ok ()) :
    block + h.layout.minBlock ≤ h.arena.size ∧
      h.arena.Tagged ⟨block, h.layout.minBlock, false⟩ := by
  have hspace : block + 4 < Address.space := by
    have hcheck := hpass
    rw [checkSentinel] at hcheck
    obtain ⟨t, ht, -⟩ := exists_of_bind_ok hcheck
    exact Nat.lt_of_le_of_lt (le_of_checkedTag ht) h.arena.size_lt_space
  have hwhole : ¬ h.CutShort block := fun hcut => by
    cases hpass.symm.trans (checkSentinel_of_cutShort hcut)
  exact ((checkSentinel_judges_of_whole hspace hwhole).ok_iff ()).1 hpass

theorem beginAudit_finds : FindsOnly [.tagOutside, .sentinelTag] h.beginAudit := by
  rw [beginAudit]
  exact .bind checkSentinel_finds fun _ _ => .bind checkSentinel_finds fun _ _ => .ofFault _

/-- Above the sentinels that passed, the walk starts with the first block. -/
theorem firstBlock_of_beginAudit {first : Option Nat} (hfirst : h.beginAudit = .ok first) :
    h.firstBlock ≤ h.arena.size ∧ ∀ b ∈ first, b = h.firstBlock := by
  rw [beginAudit] at hfirst
  obtain ⟨_, -, hfirst⟩ := exists_of_bind_ok hfirst
  obtain ⟨_, htail, hfirst⟩ := exists_of_bind_ok hfirst
  obtain ⟨hle, htag⟩ := tagged_of_checkSentinel htail
  rw [nextBlock?_tail hle htag, ofFault_ok] at hfirst
  obtain rfl := Except.ok.inj hfirst
  exact ⟨hle, by split <;> simp⟩

/-! ### The walk by address -/

theorem checkBlock_finds : FindsOnly [.tagOutside, .sizeClass, .pastArena, .tagsDisagree,
    .adjacentFree] (h.checkBlock start start afterFree) := by
  rw [checkBlock, if_neg (not_not.2 rfl)]
  refine .bind (checkedTag_finds.mono (by decide)) fun t _ => .guard (by decide) fun _ => ?_
  refine .bind (.ofFault _) fun _ _ => .bind (.ofFault _) fun _ _ => .guard (by decide) fun _ => ?_
  refine .bind (.ofFault _) fun _ _ => .bind (.ofFault _) fun _ _ => .guard (by decide) fun _ => ?_
  exact .guard (by decide) fun _ => .ok _

/-- **The walk by address never goes astray**: it goes on from a block where the block ends. -/
theorem checkChain_finds (limit : Nat) {next : Option Nat} (afterFree : Bool)
    (hnext : ∀ b ∈ next, b = start) :
    FindsOnly [.tagOutside, .sizeClass, .pastArena, .tagsDisagree, .adjacentFree]
      (h.checkChain limit next start afterFree).2 := by
  induction limit generalizing next start afterFree with
  | zero =>
    cases next with
    | none => exact .ok _
    | some block => exact .ofFault (.error .endless)
  | succ limit ih =>
    cases next with
    | none => exact .ok _
    | some block =>
      obtain rfl := hnext block rfl
      cases hcheck : h.checkBlock block block afterFree with
      | error e =>
        rw [checkChain_of_error hcheck]
        exact (hcheck ▸ checkBlock_finds).error
      | ok x =>
        rw [checkChain_of_ok hcheck]
        exact ih x.free (by split <;> simp)

/-! ### The walk along the list -/

section List

variable {free ns : List Nat} {before unmet n : Nat} {l : Link}

theorem neighbour?_eq_ok {r : Option Nat} (hr : h.neighbour? block l = .ok r) :
    h.arena.link? block l = r := by
  rw [neighbour?, linkWord] at hr
  obtain ⟨w, hw, hr⟩ := exists_of_bind_ok hr
  obtain ⟨pos, hpos, hw⟩ := exists_of_bind_ok hw
  obtain ⟨-, rfl⟩ := Address.add_eq_ok_iff.1 hpos
  obtain ⟨-, rfl⟩ := Arena.word_eq_ok_iff.1 hw
  exact Except.ok.inj hr

theorem checkListed_finds : FindsOnly [.listEnds, .linkOutside, .backLink, .notFree]
    (h.checkListed free before) := by
  rw [checkListed]
  refine .bind (.ofFault _) fun next _ => ?_
  cases next with
  | none => exact .found (by decide)
  | some block =>
    refine .guard (by decide) fun _ => .bind (.ofFault _) fun _ _ => .guard (by decide) fun _ => ?_
    exact .guard (by decide) fun _ => .ok _

theorem linked_of_checkListed (hblock : h.checkListed free before = .ok block) :
    h.arena.Linked before block ∧ (block = h.tail ∨ block ∈ free) := by
  rw [checkListed] at hblock
  obtain ⟨next, hnext, hblock⟩ := exists_of_bind_ok hblock
  cases next with
  | none => cases hblock
  | some next =>
    have hnext := neighbour?_eq_ok (ofFault_eq_ok hnext)
    dsimp only at hblock
    split at hblock
    · cases hblock
    obtain ⟨prev, hprev, hblock⟩ := exists_of_bind_ok hblock
    have hprev := neighbour?_eq_ok (ofFault_eq_ok hprev)
    split at hblock <;> rename_i heq
    · cases hblock
    split at hblock <;> rename_i hmem
    · cases hblock
    obtain rfl := Except.ok.inj hblock
    exact ⟨⟨hnext, hprev.trans (not_not.1 heq)⟩, by tauto⟩

/-- The walk meets a block too many only if the links lead through as many of the free blocks. -/
theorem checkList_finds (hlong : ∀ ring : List Nat, ring.length = unmet + 1 →
    (∀ n ∈ ring, n ∈ free) → ¬ h.arena.Threads (before :: ring)) :
    FindsOnly [.listEnds, .linkOutside, .backLink, .notFree, .notListed]
      (h.checkList free unmet before) := by
  induction unmet generalizing before with
  | zero =>
    rw [checkList]
    refine .bind (checkListed_finds.mono (by decide)) fun block hblock => ?_
    obtain ⟨hlink, hmem⟩ := linked_of_checkListed hblock
    refine .ite ?_ fun _ => .ok ()
    intro hne
    refine absurd ?_ (hlong [block] rfl ?_)
    · exact List.isChain_cons_cons.2 ⟨hlink, .singleton _⟩
    · simpa using hmem.resolve_left hne
  | succ unmet ih =>
    rw [checkList]
    refine .bind (checkListed_finds.mono (by decide)) fun block hblock => ?_
    obtain ⟨hlink, hmem⟩ := linked_of_checkListed hblock
    refine .guard (by decide) fun hne => ih ?_
    intro ring hlen hring hthr
    have hfree : ∀ n ∈ block :: ring, n ∈ free :=
      List.forall_mem_cons.2 ⟨hmem.resolve_left hne, hring⟩
    exact hlong (block :: ring) (congrArg (· + 1) hlen) hfree
      (List.isChain_cons_cons.2 ⟨hlink, hthr⟩)

/-- **No list outruns the free blocks**, as long as the head sentinel is none of them. -/
theorem checkRing_finds (hfresh : h.head ∉ free) :
    FindsOnly [.sentinelLinks, .listEnds, .linkOutside, .backLink, .notFree, .notListed]
      (h.checkRing free) := by
  rw [checkRing]
  refine .bind (.ofFault _) fun _ _ => .guard (by decide) fun _ => ?_
  refine .bind (.ofFault _) fun _ _ => .guard (by decide) fun _ => ?_
  -- the blocks that links lead through are different, so there are no more of them than are free
  have hlong : ∀ ring : List Nat, ring.length = free.length + 1 → (∀ n ∈ ring, n ∈ free) →
      ¬ h.arena.Threads (h.head :: ring) := by
    intro ring hlen hring hthr
    have hback : h.head ∉ ring := fun hmem => hfresh (hring _ hmem)
    have hnodup := (List.nodup_cons.1 (hthr.nodup hback)).2
    have hle := (List.subperm_of_subset hnodup hring).length_le
    omega
  exact (checkList_finds hlong).mono (by decide)

/-! ### Lists that repeat themselves -/

/-- A list that comes back to where it has been has a link back that does not match, if no link
leads back from where it starts. -/
theorem not_threads_of_repeats (hprev : h.arena.link? n .prev = none)
    (hrepeats : ¬ (n :: ns).Nodup) : ¬ h.arena.Threads (n :: ns) := by
  intro hthr
  have hback : n ∉ ns := by
    intro hmem
    obtain ⟨ys, zs, rfl⟩ := List.append_of_mem hmem
    rw [← List.cons_append, Arena.Threads, List.isChain_append] at hthr
    have hlinked := hthr.2.2 _ List.getLast?_cons n rfl
    cases hprev.symm.trans hlinked.2
  exact hrepeats (hthr.nodup hback)

theorem checkListed_of_le (free : List Nat) (hbefore : before + 12 ≤ h.arena.size)
    (hnext : h.arena.link? before .next = some n) (hn : n + 12 ≤ h.arena.size) :
    h.checkListed free before =
      if h.arena.link? n .prev ≠ some before then Damage.backLink.found n
      else if n ≠ h.tail ∧ n ∉ free then Damage.notFree.found n
      else .ok n := by
  have hin : ¬ (h.arena.size < n + 12 ∨ Address.space ≤ n + 12) := by
    have hspace := h.arena.size_lt_space
    omega
  rw [checkListed, neighbour?_of_le hbefore, ofFault_ok, ok_bind, hnext]
  refine (if_neg hin).trans ?_
  rw [neighbour?_of_le hn, ofFault_ok, ok_bind]
  rfl

theorem checkListed_of_lt (free : List Nat) (hbefore : before + 12 ≤ h.arena.size)
    (hnext : h.arena.link? before .next = some n) (hn : h.arena.size < n + 12) :
    h.checkListed free before = Damage.linkOutside.found before := by
  rw [checkListed, neighbour?_of_le hbefore, ofFault_ok, ok_bind, hnext]
  exact if_pos (.inl hn)

theorem checkList_of_found {d : Damage} {offset : Nat}
    (hd : h.checkListed free before = d.found offset) :
    h.checkList free unmet before = d.found offset := by
  cases unmet <;> rw [checkList, hd] <;> rfl

/-- The links forward that lead from `before` along `ns`. -/
def LeadsAlong (h : Heap) (before : Nat) (ns : List Nat) : Prop :=
  (before :: ns).IsChain fun x y => h.arena.link? x .next = some y

instance (h : Heap) (before : Nat) (ns : List Nat) : Decidable (h.LeadsAlong before ns) := by
  unfold LeadsAlong
  infer_instance

/-- A walk along links that do not all match ends where the first one does not, or before. -/
theorem checkList_of_not_threads (free : List Nat) (unmet : Nat)
    (hbefore : before + 12 ≤ h.arena.size) (htail : h.arena.link? h.tail .next = none)
    (hns : h.LeadsAlong before ns) (hstray : ¬ h.arena.Threads (before :: ns)) :
    ∃ offset, ∃ d : Damage, h.checkList free unmet before = d.found offset ∧
      (d ∈ [.backLink, .notFree, .revisited] ∨
        d = .linkOutside ∧ ∃ n ∈ ns, h.arena.size < n + 12) := by
  induction ns generalizing before unmet with
  | nil => exact absurd (.singleton _) hstray
  | cons n ns ih =>
    obtain ⟨hnext, hns⟩ := List.isChain_cons_cons.1 hns
    by_cases hn : h.arena.size < n + 12
    · exact ⟨before, .linkOutside, checkList_of_found (checkListed_of_lt free hbefore hnext hn),
        .inr ⟨rfl, n, by simp, hn⟩⟩
    have hn := Nat.not_lt.1 hn
    have hlisted := checkListed_of_le free hbefore hnext hn
    by_cases hprev : h.arena.link? n .prev = some before
    · have hstray : ¬ h.arena.Threads (n :: ns) := fun hthr =>
        hstray (List.isChain_cons_cons.2 ⟨⟨hnext, hprev⟩, hthr⟩)
      -- the links go on from here, as they do not from the tail sentinel
      have hne : n ≠ h.tail := by
        rintro rfl
        cases ns with
        | nil => exact hstray (.singleton _)
        | cons m ns => cases htail.symm.trans (List.isChain_cons_cons.1 hns).1
      rw [if_neg (not_not.2 hprev)] at hlisted
      by_cases hmem : n ∈ free
      · rw [if_neg fun hbad => hbad.2 hmem] at hlisted
        cases unmet with
        | zero =>
          refine ⟨n, .revisited, ?_, .inl (by decide)⟩
          rw [checkList, hlisted, ok_bind, if_pos hne]
        | succ unmet =>
          rw [checkList, hlisted, ok_bind, if_neg hne]
          obtain ⟨offset, d, hd, hcases⟩ := ih unmet hn hns hstray
          refine ⟨offset, d, hd, hcases.imp_right ?_⟩
          rintro ⟨he, m, hm, hout⟩
          exact ⟨he, m, List.mem_cons_of_mem _ hm, hout⟩
      · exact ⟨n, .notFree, checkList_of_found (hlisted.trans (if_pos ⟨hne, hmem⟩)),
          .inl (by decide)⟩
    · exact ⟨n, .backLink, checkList_of_found (hlisted.trans (if_pos hprev)), .inl (by decide)⟩

/-- A list that comes back to where it has been does not pass. -/
theorem checkRing_of_repeats (free : List Nat) (htail : h.tail + 12 ≤ h.arena.size)
    (hns : h.LeadsAlong h.head ns) (hrepeats : ¬ (h.head :: ns).Nodup) :
    ∃ offset, ∃ d : Damage, h.checkRing free = d.found offset ∧
      (d ∈ [.sentinelLinks, .backLink, .notFree, .revisited] ∨
        d = .linkOutside ∧ ∃ n ∈ ns, h.arena.size < n + 12) := by
  have hlt := h.head_lt_tail
  have hhead : h.head + 12 ≤ h.arena.size := by omega
  rw [checkRing, neighbour?_of_le hhead, ofFault_ok, ok_bind, neighbour?_of_le htail, ofFault_ok]
  cases hprev : h.arena.link? h.head .prev with
  | some _ => exact ⟨h.head, .sentinelLinks, rfl, .inl (by decide)⟩
  | none =>
    cases hnext : h.arena.link? h.tail .next with
    | some _ => exact ⟨h.head, .sentinelLinks, rfl, .inl (by decide)⟩
    | none =>
      obtain ⟨offset, d, hd, hcases⟩ := checkList_of_not_threads free free.length hhead hnext hns
        (not_threads_of_repeats hprev hrepeats)
      exact ⟨offset, d, hd, hcases.imp_left (List.mem_cons_of_mem _)⟩

end List

/-! ### The whole audit -/

theorem concludeAudit_finds {xs : List Span} {stop : Nat} (hfresh : h.head ∉ Span.freeHeaders xs) :
    FindsOnly [.topNotLast, .sentinelLinks, .listEnds, .linkOutside, .backLink, .notFree,
      .notListed] (h.concludeAudit xs stop) := by
  rw [concludeAudit]
  refine .bind (.ofFault _) fun _ _ => .guard (by decide) fun _ => ?_
  exact .bind ((checkRing_finds hfresh).mono (by decide)) fun _ _ => .ok _

/-- All that the audit can find. -/
theorem check_finds (h : Heap) :
    FindsOnly [.tagOutside, .sentinelTag, .sizeClass, .pastArena, .tagsDisagree, .adjacentFree,
      .topNotLast, .sentinelLinks, .listEnds, .linkOutside, .backLink, .notFree, .notListed]
      h.check := by
  rw [check, audit]
  cases hbegin : h.beginAudit with
  | error e => exact (hbegin ▸ beginAudit_finds).error.mono (by decide)
  | ok first =>
    have hchain := checkChain_finds (h := h) (h.arena.size + 1) false
      (firstBlock_of_beginAudit hbegin).2
    dsimp only
    cases hwalk : h.checkChain (h.arena.size + 1) first h.firstBlock false with
    | mk xs r =>
      cases r with
      | error e =>
        have hfinds : FindsOnly _ (xs, Except.error e).2 := hwalk ▸ hchain
        exact hfinds.error.mono (by decide)
      | ok stop =>
        refine (concludeAudit_finds fun hmem => ?_).mono (by decide)
        -- the head sentinel lies below the blocks that passed
        obtain ⟨x, hx, -, hoff⟩ := Span.mem_freeHeaders.1 hmem
        have hlow := ((tile_of_checkChain hwalk).bounds hx).1
        have hlt := h.head_lt_tail
        rw [firstBlock] at hlow
        omega

/-- The blocks that pass by address follow each other, and the walk goes on from each of them where
it ends, whatever the verdict. -/
theorem audit_tiles (h : Heap) : (∃ stop, Span.Tile h.layout h.firstBlock h.audit.1 stop) ∧
    ∀ x ∈ h.audit.1,
      h.nextBlock? x.offset = .ok (if x.offset = h.top then none else some x.stop) := by
  rw [audit]
  split
  · exact ⟨⟨h.firstBlock, rfl⟩, by simp⟩
  rename_i first _
  obtain ⟨⟨stop, htile, -⟩, habove⟩ :=
    checkChain_trail (h := h) (h.arena.size + 1) first h.firstBlock false
  split <;> rename_i hwalk <;> rw [hwalk] at htile habove <;> exact ⟨⟨stop, htile⟩, habove⟩

/-- The audit passes the sentinels and the blocks by address, and is left with the list. -/
def PassesByAddress (h : Heap) : Prop :=
  ∃ first xs stop, h.beginAudit = .ok first ∧
    h.checkChain (h.arena.size + 1) first h.firstBlock false = (xs, .ok stop) ∧
    stop + 4 = h.arena.size

theorem PassesByAddress.check_eq (hpasses : h.PassesByAddress) :
    h.tail + 12 ≤ h.arena.size ∧ ∃ xs : List Span,
      h.check = h.checkRing (Span.freeHeaders xs) >>= fun _ => .ok (h.reportOf xs) := by
  obtain ⟨first, xs, stop, hfirst, hchain, hstop⟩ := hpasses
  have h16 : 16 ≤ h.layout.minBlock := h.valid.four_words_le
  have hle := (firstBlock_of_beginAudit hfirst).1
  rw [firstBlock] at hle
  refine ⟨by omega, xs, ?_⟩
  rw [Heap.check_eq, hfirst, ok_bind, hchain]
  refine (bind_of_ok (a := (xs, stop)) rfl).trans ?_
  rw [concludeAudit, Arena.add_of_le (a := h.arena) hstop.le, ofFault_ok, ok_bind]
  exact if_neg (not_not.2 hstop)

/-- **Two verdicts of the audit are never given.**  The walk by address starts above the sentinels
and goes on from each block where the block ends, so it never arrives elsewhere.  The list never
visits more blocks than are free: if it comes back to where it has been, the links of the sentinels,
a link back or what it holds give it away, unless it leaves the arena before. -/
theorem check_verdicts (h : Heap) :
    (∀ offset d, h.check = .error (.failed (.corrupted offset d)) →
      d.text ≠ "topmost pointer does not match the block chain" ∧
        d.text ≠ "free list revisits a block") ∧
    ((∃ stop, Span.Tile h.layout h.firstBlock h.audit.1 stop) ∧
      ∀ x ∈ h.audit.1,
        h.nextBlock? x.offset = .ok (if x.offset = h.top then none else some x.stop)) ∧
    ∀ ns, h.LeadsAlong h.head ns → ¬ (h.head :: ns).Nodup → h.PassesByAddress →
      ∃ offset d, h.check = .error (.failed (.corrupted offset d)) ∧
        (d ∈ [.sentinelLinks, .backLink, .notFree] ∨
          d = .linkOutside ∧ ∃ n ∈ ns, h.arena.size < n + 12) := by
  refine ⟨?_, h.audit_tiles, ?_⟩
  · intro offset d hd
    have hmem := h.check_finds offset d hd
    clear hd
    revert d
    decide
  · intro ns hns hrepeats hpasses
    obtain ⟨htail, xs, hcheck⟩ := hpasses.check_eq
    obtain ⟨offset, d, hd, hcases⟩ := checkRing_of_repeats (Span.freeHeaders xs) htail hns hrepeats
    rw [hd] at hcheck
    have hne : d ≠ .revisited := by
      rintro rfl
      exact absurd (h.check_finds offset _ hcheck) (by decide)
    refine ⟨offset, d, hcheck, hcases.imp_left ?_⟩
    intro hmem
    simpa [hne] using hmem

/-- A heap in an arena of 24 words, with blocks at offsets 44, 60 and 76.  The first and the last
are free, and the list leads from the last back to the first. -/
def ofCycle : Heap where
  arena.bytes := (List.flatMap Word.toBytes [0, 0, 0, 17, 8, 0, 17, 17, 0, 12, 17,
    16, 8, 0xfffffff8, 16, 17, 0, 0, 17, 16, 0xfffffff8, 0xfffffff8, 16, 0]).toArray
  arena.source := .buffer 96
  layout := {}
  valid := Layout.valid_default
  head := 12
  top := 76

theorem check_verdicts_ofCycle : ofCycle.LeadsAlong ofCycle.head [44, 76, 44] ∧
    ¬ (ofCycle.head :: [44, 76, 44]).Nodup ∧ ofCycle.PassesByAddress ∧
    ∃ offset d, ofCycle.check = .error (.failed (.corrupted offset d)) ∧
      d ∈ [.sentinelLinks, .backLink, .notFree] := by
  have hns : ofCycle.LeadsAlong ofCycle.head [44, 76, 44] := by decide
  have hrepeats : ¬ (ofCycle.head :: [44, 76, 44]).Nodup := by decide
  have hpasses : ofCycle.PassesByAddress :=
    ⟨some 44, [⟨44, 16, true⟩, ⟨60, 16, false⟩, ⟨76, 16, true⟩], 92, by decide +kernel,
      by decide +kernel, rfl⟩
  refine ⟨hns, hrepeats, hpasses, ?_⟩
  obtain ⟨offset, d, hcheck, hmem | hout⟩ :=
    (check_verdicts ofCycle).2.2 [44, 76, 44] hns hrepeats hpasses
  · exact ⟨offset, d, hcheck, hmem⟩
  · exact absurd hout.2 (by decide)

end Heap

end TaggedHeap
