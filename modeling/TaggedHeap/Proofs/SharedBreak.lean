import TaggedHeap.Proofs.SharedArena

/-!
# Sharing the program break

The bytes of an arena above the program break lie next to each other in memory and belong to nobody
else, whatever others do to the break and whenever they do it (`SharedArena.contiguous`).

The invariant is `SharedArena.Sound`.  Every event either leaves the arena as it is, or writes to
it, or ends a growth that succeeds (`SharedArena.Effect`, `SharedArena.Sound.effect`), and each of
these keeps the invariant (`SharedArena.Effect.sound`).
-/

namespace TaggedHeap

namespace SharedArena

variable {s s' : SharedArena} {n : Nat} {phase : Region.Phase}

/-! ### What one event does -/

/-- What was handed out to the arena when it grew. -/
def grown (s : SharedArena) : List Tenure := s.ledger.filter fun t => t.holder = .grown

/-- The bytes of the arena lie next to each other above its base, and the ledger is complete from
the address `start` on. -/
structure Sound (s : SharedArena) (start : Nat) : Prop where
  /-- The growth that is under way makes sense. -/
  suits : ∀ g ∈ s.growth, g.2.Suits s.region.base s.arena.size
  /-- All addresses up to the break are on record. -/
  tiles : Tenure.Tile start s.ledger s.region.brk.top
  /-- Without a base there are no bytes. -/
  empty : s.region.base = none → s.arena.size = 0 ∧ s.grown = []
  /-- The base is aligned. -/
  aligned : ∀ base ∈ s.region.base, base % Region.baseAlignment = 0
  /-- The arena ends below the break. -/
  le_top : ∀ base ∈ s.region.base, base + s.arena.size ≤ s.region.brk.top
  /-- It consists of what was handed out to it when it grew. -/
  contiguous : ∀ base ∈ s.region.base, Tenure.Tile base s.grown (base + s.arena.size)

/-- The arena is as it was, but the break may have risen. -/
structure Persists (s s' : SharedArena) : Prop where
  /-- The base has not changed. -/
  base_eq : s'.region.base = s.region.base
  /-- No byte has changed. -/
  bytes_eq : s'.bytes = s.bytes
  /-- The break has not fallen. -/
  top_le : s.region.brk.top ≤ s'.region.brk.top
  /-- What was handed out is on record, and is not the arena's. -/
  booked : ∃ ts, s'.ledger = s.ledger ++ ts ∧ (∀ t ∈ ts, t.holder ≠ .grown) ∧
    ∀ start, Tenure.Tile start s.ledger s.region.brk.top →
      Tenure.Tile start s'.ledger s'.region.brk.top
  /-- The growth that is under way makes sense. -/
  suits : ∀ g ∈ s'.growth, g.2.Suits s'.region.base s'.arena.size

/-- What an event does. -/
inductive Effect (s : SharedArena) : Event → SharedArena → Option Outcome → Prop
  /-- The arena stays as it is, and no growth succeeds. -/
  | persists {e : Event} {s' : SharedArena} {o : Option Outcome} :
    s.Persists s' → (∀ x ∈ o, ∃ m, x.result = .error (.failed (.outOfMemory m))) → Effect s e s' o
  /-- A growth succeeds. -/
  | grows {base : Nat} {brk : ProgramBreak} (n : Nat) (fits : s.arena.size + n ≤ maxContiguous) :
    base % Region.baseAlignment = 0 → (∀ b ∈ s.region.base, b = base) →
    s.region.brk.top = base + s.arena.size → brk.top = s.region.brk.top + n →
    Effect s .call (s.enlarge n { base := some base, brk } fits) (some ⟨n, .ok s.arena.size⟩)
  /-- Some bytes of the arena are written. -/
  | writes {start : Nat} {content : List UInt8} {a : Arena} :
    s.growth = none → a.size = s.arena.size →
    Effect s (.write start content) { s with bytes := a.bytes, size_le := a.size_le } none

theorem Persists.refl (hs : ∀ g ∈ s.growth, g.2.Suits s.region.base s.arena.size) :
    s.Persists s :=
  ⟨rfl, rfl, le_rfl, ⟨[], by simp, by simp, fun _ h => h⟩, hs⟩

theorem Persists.of_book {holder : Holder} {brk : ProgramBreak}
    {growth : Option (Nat × Region.Phase)} (hholder : holder ≠ .grown)
    (hle : s.region.brk.top ≤ brk.top)
    (hsuits : ∀ g ∈ growth, g.2.Suits s.region.base s.arena.size) :
    s.Persists { s.book holder { s.region with brk } with growth } := by
  refine ⟨rfl, rfl, hle, ⟨_, rfl, by simpa using hholder, fun start htile => ?_⟩, hsuits⟩
  have hnext := htile.concat
    (t := ⟨holder, s.region.brk.top, brk.top - s.region.brk.top⟩) rfl
  simp only [Nat.add_sub_of_le hle] at hnext
  exact hnext

theorem fits_of_top {base : Nat} {brk : ProgramBreak}
    (htop : s.region.brk.top = base + s.arena.size) (hbrk : brk.top = s.region.brk.top + n) :
    s.arena.size + n ≤ maxContiguous := by
  have hlt := brk.top_lt
  rw [ProgramBreak.ceiling] at hlt
  rw [maxContiguous]
  omega

/-- **What an event does** to an arena that is sound. -/
theorem Sound.effect {start : Nat} (hs : s.Sound start) (e : Event) :
    s.Effect e (s.step e).1 (s.step e).2 := by
  cases e with
  | grow n =>
    cases hgrowth : s.growth with
    | some g =>
      simp only [step, hgrowth]
      exact .persists (.refl hs.suits) (by simp)
    | none =>
      by_cases hspace : Address.space ≤ s.arena.size + n
      · simp only [step, hgrowth, if_pos hspace]
        exact .persists (.refl hs.suits) (by simp)
      · simp only [step, hgrowth, if_neg hspace]
        refine .persists ⟨rfl, rfl, le_rfl, ⟨[], by simp, by simp, fun _ h => h⟩, ?_⟩ (by simp)
        rintro g ⟨⟩
        exact Region.Phase.suits_first hs.aligned
  | call =>
    cases hgrowth : s.growth with
    | none =>
      simp only [step, hgrowth]
      exact .persists (.refl hs.suits) (by simp)
    | some g =>
      obtain ⟨n, phase⟩ := g
      have hsuits := hs.suits _ hgrowth
      rcases Region.Phase.call_cases (n := n) hsuits fun h => (hs.empty h).1 with
        ⟨phase', brk, hcall, hle, hsuits'⟩ | ⟨base, brk, hcall, rfl, htop⟩ |
        ⟨m, brk, hcall, hle⟩
      · simp only [step, hgrowth, hcall]
        refine .persists (.of_book (by decide) hle ?_) (by simp)
        rintro g ⟨⟩
        exact hsuits'
      · obtain ⟨haligned, htarget, hbase⟩ := hsuits
        have fits := fits_of_top htarget htop
        simp only [step, hgrowth, hcall, dif_pos fits]
        exact .grows n fits haligned hbase htarget htop
      · simp only [step, hgrowth, hcall]
        exact .persists (.of_book (by decide) hle (by simp)) (by simp)
  | raise n =>
    exact .persists (.of_book (by decide) (ProgramBreak.le_top_raise _ n) hs.suits) (by simp [step])
  | write start content =>
    cases hgrowth : s.growth with
    | some g =>
      simp only [step, hgrowth]
      exact .persists (.refl hs.suits) (by simp)
    | none =>
      cases hwrite : s.arena.write start content with
      | error f =>
        simp only [step, hgrowth, hwrite]
        exact .persists (.refl hs.suits) (by simp)
      | ok a =>
        have hstep : s.step (.write start content) =
            ({ s with bytes := a.bytes, size_le := a.size_le }, none) := by
          simp only [step, hgrowth, hwrite]
        rw [hstep]
        exact .writes hgrowth (Arena.size_of_write hwrite)

/-- What is handed out when the arena does not grow is not part of it. -/
theorem Persists.grown_eq (h : s.Persists s') : s'.grown = s.grown := by
  obtain ⟨ts, hledger, hnot, -⟩ := h.booked
  have hnone : ts.filter (fun t => t.holder = .grown) = [] :=
    List.filter_eq_nil_iff.2 fun t ht => by simpa using hnot t ht
  rw [grown, grown, hledger, List.filter_append, hnone, List.append_nil]

theorem Persists.size_eq (h : s.Persists s') : s'.arena.size = s.arena.size :=
  congrArg Array.size h.bytes_eq

section Enlarge

variable {base : Nat} {brk : ProgramBreak} (fits : s.arena.size + n ≤ maxContiguous)
  (hbrk : brk.top = s.region.brk.top + n)

theorem size_enlarge :
    (s.enlarge n { base := some base, brk } fits).arena.size = s.arena.size + n :=
  s.arena.size_append fits

include hbrk

theorem ledger_enlarge : (s.enlarge n { base := some base, brk } fits).ledger =
    s.ledger ++ [⟨.grown, s.region.brk.top, n⟩] := by
  rw [enlarge, book]
  simp only [hbrk, Nat.add_sub_cancel_left]

theorem grown_enlarge : (s.enlarge n { base := some base, brk } fits).grown =
    s.grown ++ [⟨.grown, s.region.brk.top, n⟩] := by
  rw [grown, ledger_enlarge fits hbrk, List.filter_append]
  rfl

end Enlarge

namespace Effect

variable {e : Event} {o : Option Outcome} {start : Nat}

/-- **Soundness is kept**, whatever happens. -/
theorem sound (h : s.Effect e s' o) (hs : s.Sound start) : s'.Sound start := by
  cases h with
  | persists hp ho =>
    obtain ⟨ts, -, -, htiles⟩ := hp.booked
    refine ⟨hp.suits, htiles start hs.tiles, ?_, ?_, ?_, ?_⟩
    · rw [hp.base_eq, hp.size_eq, hp.grown_eq]
      exact hs.empty
    · rw [hp.base_eq]
      exact hs.aligned
    · rw [hp.base_eq, hp.size_eq]
      exact fun base hbase => (hs.le_top base hbase).trans hp.top_le
    · rw [hp.base_eq, hp.size_eq, hp.grown_eq]
      exact hs.contiguous
  | @grows base brk n fits haligned hbase htarget htop =>
    -- the new bytes start where the old ones end
    have htile : Tenure.Tile base s.grown (base + s.arena.size) := by
      cases hnone : s.region.base with
      | some b => exact hbase b hnone ▸ hs.contiguous b hnone
      | none =>
        obtain ⟨hsize, hgrown⟩ := hs.empty hnone
        rw [hsize, hgrown]
        rfl
    have hnext : ∀ {first : Nat} {ts : List Tenure}, Tenure.Tile first ts s.region.brk.top →
        Tenure.Tile first (ts ++ [⟨.grown, s.region.brk.top, n⟩]) brk.top := fun hts =>
      htop ▸ hts.concat rfl
    rw [← htarget] at htile
    have hend : brk.top = base + (s.arena.size + n) := by omega
    refine ⟨by simp [enlarge], ?_, nofun, ?_, ?_, ?_⟩
    · rw [ledger_enlarge fits htop]
      exact hnext hs.tiles
    · rintro b ⟨⟩
      exact haligned
    · rintro b ⟨⟩
      rw [size_enlarge fits]
      exact hend.ge
    · rintro b ⟨⟩
      rw [size_enlarge fits, grown_enlarge fits htop, ← hend]
      exact hnext htile
  | @writes _ _ a hgrowth hsize =>
    have hsize : (⟨a.bytes, .system s.region, a.size_le⟩ : Arena).size = s.arena.size := hsize
    refine ⟨fun g hg => by simp [hgrowth] at hg, hs.tiles, fun hnone => ?_, hs.aligned, ?_, ?_⟩
    · exact ⟨hsize.trans (hs.empty hnone).1, (hs.empty hnone).2⟩
    · exact fun base hbase => hsize.symm ▸ hs.le_top base hbase
    · exact fun base hbase => hsize.symm ▸ hs.contiguous base hbase

theorem base_eq (h : s.Effect e s' o) {base : Nat} (hbase : s.region.base = some base) :
    s'.region.base = some base := by
  cases h with
  | persists hp ho => exact hp.base_eq.trans hbase
  | grows n fits haligned hsame htarget htop => rw [hsame base hbase]; rfl
  | writes hgrowth hsize => exact hbase

theorem granted (h : s.Effect e s' o) :
    s'.grown.map Tenure.count = s.grown.map Tenure.count ++ o.toList.filterMap Outcome.granted? ∧
      s'.arena.size = s.arena.size + (o.toList.filterMap Outcome.granted?).sum := by
  cases h with
  | persists hp ho =>
    have hnone : o.toList.filterMap Outcome.granted? = [] :=
      List.filterMap_eq_nil_iff.2 fun x hx => by
        obtain ⟨m, hresult⟩ := ho x (Option.mem_toList.1 hx)
        rw [Outcome.granted?, hresult]
    rw [hnone, hp.grown_eq, hp.size_eq]
    exact ⟨(List.append_nil _).symm, rfl⟩
  | grows n fits haligned hsame htarget htop =>
    rw [grown_enlarge fits htop, size_enlarge fits, List.map_append]
    exact ⟨rfl, by simp [Outcome.granted?]⟩
  | writes hgrowth hsize => exact ⟨(List.append_nil _).symm, hsize⟩

/-- Without a growth that succeeds the arena changes only if it is written. -/
theorem unchanged (h : s.Effect e s' o) (hwrite : ∀ start content, e ≠ .write start content)
    (hfailed : ∀ x ∈ o, ∀ offset, x.result ≠ .ok offset) :
    s'.region.base = s.region.base ∧ s'.bytes = s.bytes := by
  cases h with
  | persists hp ho => exact ⟨hp.base_eq, hp.bytes_eq⟩
  | grows n fits haligned hsame htarget htop => exact absurd rfl (hfailed _ rfl _)
  | writes hgrowth hsize => exact absurd rfl (hwrite _ _)

/-- A break that is above the arena stays above it, and nothing succeeds. -/
theorem stuck (h : s.Effect e s' o) {base : Nat} (hbase : s.region.base = some base)
    (hlt : base + s.arena.size < s.region.brk.top) :
    base + s'.arena.size < s'.region.brk.top ∧
      ∀ x ∈ o, ∃ m, x.result = .error (.failed (.outOfMemory m)) := by
  cases h with
  | persists hp ho => exact ⟨(hp.size_eq ▸ hlt).trans_le hp.top_le, ho⟩
  | grows n fits haligned hsame htarget htop =>
    rw [htarget, hsame base hbase] at hlt
    exact absurd hlt (lt_irrefl _)
  | writes hgrowth hsize =>
    exact ⟨(congrArg (base + ·) hsize).trans_lt hlt, by simp⟩

end Effect

/-! ### What it takes to grow -/

section Base

variable {start base : Nat} (hs : s.Sound start) (hbase : s.region.base = some base)

include hbase

/-- With a base the arena grows exactly if the break is at its end and the system serves the
request. -/
theorem grow_iff (n : Nat) :
    (∀ offset a, Arena.grow n s.arena = .ok offset a → offset = s.arena.size) ∧
      ((∃ offset a, Arena.grow n s.arena = .ok offset a) ↔
        s.region.brk.top = base + s.arena.size ∧ s.region.brk.Serves n) := by
  have hextend : Region.extend s.arena.size n s.region =
      Region.conclude n base (base + s.arena.size) s.region := by
    rw [← Region.Phase.rest_first, Region.Phase.first, hbase]
    rfl
  rcases Region.conclude_cases n base (base + s.arena.size) s.region with
    ⟨brk, hrun, hgranted, htop⟩ | ⟨brk, hrun, hrefused, -⟩
  · have fits := fits_of_top hgranted.1 htop
    have hspace : ¬ Address.space ≤ s.arena.size + n :=
      Nat.not_le.2 (Nat.lt_of_le_of_lt fits (by decide))
    rw [grow_eq_settle hspace, hextend, hrun, settle, dif_pos fits]
    refine ⟨?_, fun _ => hgranted, fun _ => ⟨_, _, rfl⟩⟩
    rintro offset a ⟨⟩
    rfl
  · have hfails : ∃ e a, Arena.grow n s.arena = .error e a := by
      by_cases hspace : Address.space ≤ s.arena.size + n
      · exact ⟨_, _, by rw [Arena.grow, if_pos hspace]⟩
      · exact ⟨_, _, by rw [grow_eq_settle hspace, hextend, hrun, settle]⟩
    obtain ⟨e, a, hfails⟩ := hfails
    rw [hfails]
    refine ⟨?_, ?_, fun hgranted => absurd hgranted hrefused⟩
    · rintro _ _ ⟨⟩
    · rintro ⟨_, _, ⟨⟩⟩

include hs

theorem Sound.call_iff (hgrowth : s.growth = some (n, phase)) :
    (s.region.brk.top = base + s.arena.size ∧ s.region.brk.Serves n →
        (s.step .call).2 = some ⟨n, .ok s.arena.size⟩) ∧
      (¬ (s.region.brk.top = base + s.arena.size ∧ s.region.brk.Serves n) →
        (s.step .call).2 = some ⟨n, .error (.failed (.outOfMemory n))⟩) := by
  -- with a base there is one request left, whenever the growth was begun
  obtain rfl : phase = .claim base (base + s.arena.size) := by
    have hsuits := hs.suits _ hgrowth
    rw [hbase] at hsuits
    cases phase with
    | locate => cases hsuits
    | align b gap => cases hsuits.1
    | claim b target =>
      obtain ⟨-, rfl, hsame⟩ := hsuits
      rw [hsame base rfl]
  rcases Region.conclude_cases n base (base + s.arena.size) s.region with
    ⟨brk, hrun, hgranted, htop⟩ | ⟨brk, hrun, hrefused, -⟩
  · have hcall : Region.Phase.call n (.claim base (base + s.arena.size)) s.region =
        .ok none { base := some base, brk } := by
      simp only [Region.Phase.call, bind, EStateM.bind, hrun]
      rfl
    refine ⟨fun _ => ?_, fun hrefused => absurd hgranted hrefused⟩
    simp only [step, hgrowth, hcall, dif_pos (fits_of_top hgranted.1 htop)]
  · have hcall : Region.Phase.call n (.claim base (base + s.arena.size)) s.region =
        .error (.failed (.outOfMemory n)) { s.region with brk } := by
      simp only [Region.Phase.call, bind, EStateM.bind, hrun]
    refine ⟨fun hgranted => absurd hgranted hrefused, fun _ => ?_⟩
    simp only [step, hgrowth, hcall]

end Base

/-! ### What happens in the long run -/

section Runs

variable {start base : Nat} {es : List Event}

theorem Sound.ofBreak (brk : ProgramBreak) : (ofBreak brk).Sound brk.top :=
  ⟨nofun, rfl, fun _ => ⟨rfl, rfl⟩, nofun, nofun, nofun⟩

theorem Sound.after (hs : s.Sound start) (es : List Event) : (s.after es).Sound start := by
  induction es generalizing s with
  | nil => exact hs
  | cons e es ih => exact ih ((hs.effect e).sound hs)

theorem Sound.base_eq (hs : s.Sound start) (hbase : s.region.base = some base) (es : List Event) :
    (s.after es).region.base = some base := by
  induction es generalizing s with
  | nil => exact hbase
  | cons e es ih =>
    have he := hs.effect e
    exact ih (he.sound hs) (he.base_eq hbase)

theorem Sound.granted (hs : s.Sound start) (es : List Event) :
    (s.after es).grown.map Tenure.count =
        s.grown.map Tenure.count ++ (s.outcomes es).filterMap Outcome.granted? ∧
      (s.after es).arena.size =
        s.arena.size + ((s.outcomes es).filterMap Outcome.granted?).sum := by
  induction es generalizing s with
  | nil => exact ⟨(List.append_nil _).symm, rfl⟩
  | cons e es ih =>
    have he := hs.effect e
    obtain ⟨hcounts, hsize⟩ := he.granted
    obtain ⟨hcounts', hsize'⟩ := ih (he.sound hs)
    rw [SharedArena.after, outcomes, List.filterMap_append, List.sum_append, hcounts', hcounts,
      hsize', hsize, List.append_assoc, Nat.add_assoc]
    exact ⟨rfl, rfl⟩

theorem Sound.unchanged (hs : s.Sound start) (hwrites : ∀ first content, .write first content ∉ es)
    (hfailed : ∀ o ∈ s.outcomes es, ∀ offset, o.result ≠ .ok offset) :
    (s.after es).region.base = s.region.base ∧ (s.after es).bytes = s.bytes := by
  induction es generalizing s with
  | nil => exact ⟨rfl, rfl⟩
  | cons e es ih =>
    have he := hs.effect e
    rw [outcomes] at hfailed
    obtain ⟨hbase, hbytes⟩ := he.unchanged
      (fun first content heq => hwrites first content (heq ▸ List.mem_cons_self))
      fun x hx => hfailed x (List.mem_append_left _ (Option.mem_toList.2 hx))
    obtain ⟨hbase', hbytes'⟩ := ih (he.sound hs)
      (fun first content hmem => hwrites first content (List.mem_cons_of_mem _ hmem))
      fun x hx => hfailed x (List.mem_append_right _ hx)
    exact ⟨hbase'.trans hbase, hbytes'.trans hbytes⟩

theorem Sound.stuck (hs : s.Sound start) (hbase : s.region.base = some base)
    (hlt : base + s.arena.size < s.region.brk.top) (es : List Event) :
    base + (s.after es).arena.size < (s.after es).region.brk.top ∧
      ∀ o ∈ s.outcomes es, ∃ m, o.result = .error (.failed (.outOfMemory m)) := by
  induction es generalizing s with
  | nil => exact ⟨hlt, by simp [outcomes]⟩
  | cons e es ih =>
    have he := hs.effect e
    obtain ⟨hlt', ho⟩ := he.stuck hbase hlt
    obtain ⟨hend, hos⟩ := ih (he.sound hs) (he.base_eq hbase) hlt'
    refine ⟨hend, fun o hmem => ?_⟩
    rcases List.mem_append.1 hmem with hmem | hmem
    · exact ho o (Option.mem_toList.1 hmem)
    · exact hos o hmem

/-- The addresses of the arena are exactly those that it was handed out when it grew. -/
theorem Sound.mem_iff (hs : s.Sound start) (hbase : s.region.base = some base) (address : Nat) :
    (base ≤ address ∧ address < base + s.arena.size) ↔
      ∃ t ∈ s.ledger, t.holder = .grown ∧ address ∈ t.addresses := by
  rw [(hs.contiguous base hbase).mem_iff]
  simp only [grown, List.mem_filter, decide_eq_true_eq, and_assoc]

theorem Sound.not_mem (hs : s.Sound start) (hbase : s.region.base = some base) {t : Tenure}
    (ht : t ∈ s.ledger) (hholder : t.holder ≠ .grown) {address : Nat}
    (haddress : address ∈ t.addresses) : ¬ (base ≤ address ∧ address < base + s.arena.size) := by
  intro hmem
  obtain ⟨u, hu, hgrown, hua⟩ := (hs.mem_iff hbase address).1 hmem
  exact hholder (hs.tiles.eq_of_mem ht hu haddress hua ▸ hgrown)

end Runs

/-- **An arena among others stays in one piece**, whatever happens between its requests. -/
theorem contiguous (brk : ProgramBreak) {es : List Event} {s : SharedArena}
    (hs : (ofBreak brk).after es = s) :
    s.grown.map Tenure.count = ((ofBreak brk).outcomes es).filterMap Outcome.granted? ∧
    s.arena.size = (((ofBreak brk).outcomes es).filterMap Outcome.granted?).sum ∧
    Tenure.Tile brk.top s.ledger s.region.brk.top ∧
    (s.growth = none → ∀ n, s.Ends n [.grow n, .call, .call, .call] (Arena.grow n s.arena)) ∧
    (∀ n, (s.step (.raise n)).1.arena = s.arena.raiseBreak n) ∧
    (∀ es', (∀ first content, .write first content ∉ es') →
      (∀ o ∈ s.outcomes es', ∀ offset, o.result ≠ .ok offset) →
      (s.after es').region.base = s.region.base ∧ (s.after es').bytes = s.bytes) ∧
    ∀ base, s.region.base = some base →
      base % Region.baseAlignment = 0 ∧ base + s.arena.size ≤ s.region.brk.top ∧
      (∀ es', (s.after es').region.base = some base) ∧
      (∀ address, (base ≤ address ∧ address < base + s.arena.size) ↔
        ∃ t ∈ s.ledger, t.holder = .grown ∧ address ∈ t.addresses) ∧
      (∀ t ∈ s.ledger, t.holder ≠ .grown → ∀ address ∈ t.addresses,
        ¬ (base ≤ address ∧ address < base + s.arena.size)) ∧
      (∀ n, (∀ offset a, Arena.grow n s.arena = .ok offset a → offset = s.arena.size) ∧
        ((∃ offset a, Arena.grow n s.arena = .ok offset a) ↔
          s.region.brk.top = base + s.arena.size ∧ s.region.brk.Serves n)) ∧
      (∀ n phase, s.growth = some (n, phase) →
        (s.region.brk.top = base + s.arena.size ∧ s.region.brk.Serves n →
          (s.step .call).2 = some ⟨n, .ok s.arena.size⟩) ∧
        (¬ (s.region.brk.top = base + s.arena.size ∧ s.region.brk.Serves n) →
          (s.step .call).2 = some ⟨n, .error (.failed (.outOfMemory n))⟩)) ∧
      (base + s.arena.size < s.region.brk.top → ∀ es',
        (∀ o ∈ s.outcomes es', ∃ m, o.result = .error (.failed (.outOfMemory m))) ∧
        ∀ n, ¬ ∃ offset a, Arena.grow n (s.after es').arena = .ok offset a) := by
  subst hs
  have hstart := Sound.ofBreak brk
  have hs := hstart.after es
  obtain ⟨hcounts, hsize⟩ := hstart.granted es
  refine ⟨hcounts, hsize.trans (Nat.zero_add _), hs.tiles, fun hidle n => ends_grow hidle n,
    fun _ => rfl, fun es' => hs.unchanged, fun base hbase => ⟨hs.aligned base hbase,
      hs.le_top base hbase, hs.base_eq hbase, hs.mem_iff hbase,
      fun t ht hholder address => hs.not_mem hbase ht hholder, grow_iff hbase,
      fun n phase => hs.call_iff hbase, fun hlt es' => ?_⟩⟩
  -- the break stays above the end of the arena, where every growth expects it
  obtain ⟨hend, houtcomes⟩ := hs.stuck hbase hlt es'
  refine ⟨houtcomes, fun n hgrows => ?_⟩
  have hthere := ((grow_iff (hs.base_eq hbase es') n).2.1 hgrows).1
  exact absurd hthere hend.ne'

/-- Others move the break during a first growth, which fails, and after two that succeed. -/
theorem contiguous_ofDisturbed : ∃ s, (ofBreak { top := 4097, top_lt := by decide }).after
      [.grow 8, .call, .raise 5, .call, .call, .grow 40, .call, .call, .call, .raise 0, .grow 24,
        .call, .write 0 [1, 2, 3], .raise 1] = s ∧
    s.region.base = some 4128 ∧ s.arena.size = 64 ∧ s.region.brk.top = 4193 ∧
    s.grown.map Tenure.count = [40, 24] ∧ 4128 % Region.baseAlignment = 0 ∧
    (∀ t ∈ s.ledger, t.holder ≠ .grown → ∀ address ∈ t.addresses,
      ¬ (4128 ≤ address ∧ address < 4128 + s.arena.size)) ∧
    ∀ es', ∀ o ∈ s.outcomes es', ∃ m, o.result = .error (.failed (.outOfMemory m)) := by
  obtain ⟨s, hs⟩ : ∃ s, (ofBreak { top := 4097, top_lt := by decide }).after
      [.grow 8, .call, .raise 5, .call, .call, .grow 40, .call, .call, .call, .raise 0, .grow 24,
        .call, .write 0 [1, 2, 3], .raise 1] = s := ⟨_, rfl⟩
  have hbase : s.region.base = some 4128 := by rw [← hs]; decide +kernel
  have hsize : s.arena.size = 64 := by rw [← hs]; decide +kernel
  have htop : s.region.brk.top = 4193 := by rw [← hs]; decide +kernel
  have hgrown : s.grown.map Tenure.count = [40, 24] := by rw [← hs]; decide +kernel
  obtain ⟨-, -, -, -, -, -, hcontiguous⟩ := contiguous _ hs
  obtain ⟨haligned, -, -, -, hothers, -, -, hstuck⟩ := hcontiguous 4128 hbase
  exact ⟨s, hs, hbase, hsize, htop, hgrown, haligned, hothers,
    fun es' => (hstuck (by rw [hsize, htop]; decide) es').1⟩

end SharedArena

end TaggedHeap
