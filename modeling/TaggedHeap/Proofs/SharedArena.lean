import TaggedHeap.Proofs.Phase
import Mathlib.Order.Interval.Set.Basic

/-!
# Arenas on a break that others move

Everybody in a process moves the same program break, also between two requests of an arena that
grows (`SharedArena.Event`).  The addresses that the system hands out are put on record in a ledger,
with their holder; as the break only rises they tile the range that it has passed (`Tenure.Tile`).

A growth that nobody disturbs comes to what `Arena.grow` makes of it (`SharedArena.ends_grow`).
-/

namespace TaggedHeap

/-! ### The ledger -/

/-- Who has asked for some addresses. -/
inductive Holder
  /-- The arena, when it grew. -/
  | grown
  /-- The arena, but it did not grow by them. -/
  | lost
  /-- Somebody else. -/
  | other
deriving DecidableEq, Repr

/-- Addresses that the system has handed out at once. -/
structure Tenure where
  /-- Who has asked for them. -/
  holder : Holder
  /-- The first of them. -/
  start : Nat
  /-- How many they are. -/
  count : Nat
deriving DecidableEq, Repr

namespace Tenure

variable {t u : Tenure} {ts : List Tenure} {start stop address : Nat}

/-- The addresses. -/
def addresses (t : Tenure) : Set Nat := Set.Ico t.start (t.start + t.count)

/-- The addresses follow each other from `start` up to `stop`. -/
def Tile : (start : Nat) → List Tenure → (stop : Nat) → Prop
  | start, [], stop => start = stop
  | start, t :: ts, stop => t.start = start ∧ Tile (t.start + t.count) ts stop

namespace Tile

theorem concat (h : Tile start ts stop) (ht : t.start = stop) :
    Tile start (ts ++ [t]) (t.start + t.count) := by
  induction ts generalizing start with
  | nil => exact ⟨ht.trans h.symm, rfl⟩
  | cons u ts ih => exact ⟨h.1, ih h.2⟩

theorem le (h : Tile start ts stop) : start ≤ stop := by
  induction ts generalizing start with
  | nil => exact h.le
  | cons u ts ih =>
    have := ih h.2
    have := h.1
    omega

theorem mem_iff (h : Tile start ts stop) :
    (start ≤ address ∧ address < stop) ↔ ∃ t ∈ ts, address ∈ t.addresses := by
  induction ts generalizing start with
  | nil =>
    have hstop : start = stop := h
    simp only [List.not_mem_nil, false_and, exists_false, iff_false]
    omega
  | cons u ts ih =>
    obtain ⟨rfl, h⟩ := h
    have hle := h.le
    have hu : address ∈ u.addresses ↔ u.start ≤ address ∧ address < u.start + u.count := Iff.rfl
    rw [List.exists_mem_cons_iff, ← ih h, hu]
    omega

theorem eq_of_mem (h : Tile start ts stop) (ht : t ∈ ts) (hu : u ∈ ts)
    (hta : address ∈ t.addresses) (hua : address ∈ u.addresses) : t = u := by
  induction ts generalizing start with
  | nil => cases ht
  | cons x ts ih =>
    -- the parts after the first start where it ends
    have habove : ∀ y ∈ ts, address ∈ y.addresses → address ∉ x.addresses := fun y hy hya hxa => by
      have hlow := (h.2.mem_iff.2 ⟨y, hy, hya⟩).1
      have hhigh : address < x.start + x.count := hxa.2
      omega
    obtain rfl | htail := List.mem_cons.1 ht
    · obtain rfl | hutail := List.mem_cons.1 hu
      · rfl
      · exact absurd hta (habove u hutail hua)
    · obtain rfl | hutail := List.mem_cons.1 hu
      · exact absurd hua (habove t htail hta)
      · exact ih h.2 htail hutail

end Tile

end Tenure

/-! ### An arena among others -/

/-- What becomes of a growth. -/
structure Outcome where
  /-- Bytes asked for. -/
  bytes : Nat
  /-- The answer. -/
  result : Except Stop Nat

/-- Bytes by which the arena has grown, if it has. -/
def Outcome.granted? (o : Outcome) : Option Nat :=
  match o.result with
  | .ok _ => some o.bytes
  | .error _ => none

/-- An arena above the program break, with what is going on around it. -/
structure SharedArena where
  /-- The bytes, by offset. -/
  bytes : Array UInt8
  /-- They lie next to each other in memory. -/
  size_le : bytes.size ≤ maxContiguous
  /-- Where they lie, and the break. -/
  region : Region
  /-- The growth that is under way, if there is one: its bytes and its next request. -/
  growth : Option (Nat × Region.Phase)
  /-- What the system has handed out so far, to anybody. -/
  ledger : List Tenure

namespace SharedArena

/-- What happens to the arena, or around it. -/
inductive Event
  /-- The arena begins to grow by `n` bytes, unless it is about to grow already. -/
  | grow (n : Nat)
  /-- The growth that is under way makes its next request. -/
  | call
  /-- Somebody else asks the system for `n` bytes. -/
  | raise (n : Nat)
  /-- Some bytes of the arena are written, unless it is about to grow. -/
  | write (start : Nat) (content : List UInt8)

/-- The arena. -/
def arena (s : SharedArena) : Arena := ⟨s.bytes, .system s.region, s.size_le⟩

/-- An arena that has no bytes yet. -/
def ofBreak (brk : ProgramBreak) : SharedArena where
  bytes := #[]
  size_le := Nat.zero_le _
  region := { brk }
  growth := none
  ledger := []

/-- The region after a request, with what the system has handed out on record. -/
def book (s : SharedArena) (holder : Holder) (region : Region) : SharedArena :=
  { s with
    region
    ledger := s.ledger ++ [⟨holder, s.region.brk.top, region.brk.top - s.region.brk.top⟩] }

/-- A growth that goes on with another request, or ends without success. -/
def goOn (s : SharedArena) (region : Region) (growth : Option (Nat × Region.Phase)) : SharedArena :=
  { s.book .lost region with growth }

/-- A growth that ends with `n` bytes more. -/
def enlarge (s : SharedArena) (n : Nat) (region : Region)
    (fits : s.arena.size + n ≤ maxContiguous) : SharedArena :=
  { s.book .grown region with
    bytes := (s.arena.append n (.system region) fits).bytes
    size_le := (s.arena.append n (.system region) fits).size_le
    growth := none }

/-- What an event leads to, and the outcome of a growth that it ends. -/
def step (s : SharedArena) : Event → SharedArena × Option Outcome
  | .grow n =>
    match s.growth with
    | some _ => (s, none)
    | none =>
      if Address.space ≤ s.arena.size + n then (s, some ⟨n, .error (.failed (.outOfMemory n))⟩)
      else ({ s with growth := some (n, .first s.region s.arena.size) }, none)
  | .call =>
    match s.growth with
    | none => (s, none)
    | some (n, phase) =>
      match phase.call n s.region with
      | .ok (some phase) region => (s.goOn region (some (n, phase)), none)
      | .ok none region =>
        if fits : s.arena.size + n ≤ maxContiguous then
          (s.enlarge n region fits, some ⟨n, .ok s.arena.size⟩)
        else (s.goOn region none, some ⟨n, .error (.fault .capacity)⟩)
      | .error e region => (s.goOn region none, some ⟨n, .error e⟩)
  | .raise n => (s.book .other { s.region with brk := s.region.brk.raise n }, none)
  | .write start content =>
    match s.growth, s.arena.write start content with
    | none, .ok a => ({ s with bytes := a.bytes, size_le := a.size_le }, none)
    | _, _ => (s, none)

/-- What the events lead to, one after the other. -/
def after (s : SharedArena) : List Event → SharedArena
  | [] => s
  | e :: es => (s.step e).1.after es

/-- The outcomes of the growths that end meanwhile. -/
def outcomes (s : SharedArena) : List Event → List Outcome
  | [] => []
  | e :: es => (s.step e).2.toList ++ (s.step e).1.outcomes es

variable {s s' : SharedArena} {n : Nat} {phase : Region.Phase}

/-! ### Growing undisturbed -/

/-- After the events a growth by `n` bytes has ended as given. -/
def Ends (s : SharedArena) (n : Nat) (es : List Event) : EStateM.Result Stop Arena Nat → Prop
  | .ok offset a =>
    (s.after es).arena = a ∧ (s.after es).growth = none ∧ s.outcomes es = [⟨n, .ok offset⟩]
  | .error e a =>
    (s.after es).arena = a ∧ (s.after es).growth = none ∧ s.outcomes es = [⟨n, .error e⟩]

/-- An arena of which a region has been extended, or not, by `n` bytes. -/
def settle (a : Arena) (n : Nat) : EStateM.Result Stop Region Unit → EStateM.Result Stop Arena Nat
  | .error e region => .error e { a with source := .system region }
  | .ok () region =>
    if fits : a.size + n ≤ maxContiguous then .ok a.size (a.append n (.system region) fits)
    else .error (.fault .capacity) { a with source := .system region }

theorem after_calls_idle (hidle : s.growth = none) (k : Nat) :
    s.after (List.replicate k .call) = s ∧ s.outcomes (List.replicate k .call) = [] := by
  induction k with
  | zero => exact ⟨rfl, rfl⟩
  | succ k ih =>
    simp only [List.replicate_succ, after, outcomes, step, hidle]
    exact ih

theorem Ends.cons {e : Event} {es : List Event} {r : EStateM.Result Stop Arena Nat}
    (hstep : s.step e = (s', none)) (h : s'.Ends n es r) : s.Ends n (e :: es) r := by
  cases r <;> simpa only [Ends, after, outcomes, hstep, Option.toList_none, List.nil_append] using h

theorem ends_ok {e : Event} {offset : Nat} (hstep : s.step e = (s', some ⟨n, .ok offset⟩))
    (hidle : s'.growth = none) (k : Nat) :
    s.Ends n (e :: List.replicate k .call) (.ok offset s'.arena) := by
  obtain ⟨hafter, houtcomes⟩ := after_calls_idle hidle k
  simp only [Ends, after, outcomes, hstep, hafter, houtcomes]
  exact ⟨trivial, hidle, rfl⟩

theorem ends_error {e : Event} {stop : Stop} (hstep : s.step e = (s', some ⟨n, .error stop⟩))
    (hidle : s'.growth = none) (k : Nat) :
    s.Ends n (e :: List.replicate k .call) (.error stop s'.arena) := by
  obtain ⟨hafter, houtcomes⟩ := after_calls_idle hidle k
  simp only [Ends, after, outcomes, hstep, hafter, houtcomes]
  exact ⟨trivial, hidle, rfl⟩

theorem settle_with_source (a : Arena) (source : Source) (n : Nat)
    (r : EStateM.Result Stop Region Unit) : settle { a with source } n r = settle a n r := by
  cases r <;> rfl

theorem ends_calls (hgrowth : s.growth = some (n, phase)) {k : Nat} (hk : phase.depth ≤ k) :
    s.Ends n (List.replicate k .call) (settle s.arena n (phase.rest n s.region)) := by
  -- each request leaves fewer to be made, and calls are ignored once the growth has ended
  induction k generalizing s phase with
  | zero => cases phase <;> cases hk
  | succ k ih =>
    rw [Region.Phase.rest_eq, List.replicate_succ]
    cases hcall : phase.call n s.region with
    | error e region =>
      have hstep : s.step .call = (s.goOn region none, some ⟨n, .error e⟩) := by
        simp only [step, hgrowth, hcall]
      exact ends_error hstep rfl k
    | ok next region =>
      cases next with
      | none =>
        by_cases fits : s.arena.size + n ≤ maxContiguous
        · have hstep : s.step .call =
              (s.enlarge n region fits, some ⟨n, .ok s.arena.size⟩) := by
            simp only [step, hgrowth, hcall, dif_pos fits]
          simp only [settle, dif_pos fits]
          exact ends_ok hstep rfl k
        · have hstep : s.step .call =
              (s.goOn region none, some ⟨n, .error (.fault .capacity)⟩) := by
            simp only [step, hgrowth, hcall, dif_neg fits]
          simp only [settle, dif_neg fits]
          exact ends_error hstep rfl k
      | some phase' =>
        have hstep : s.step .call = (s.goOn region (some (n, phase')), none) := by
          simp only [step, hgrowth, hcall]
        have hlt := Region.Phase.depth_lt hcall
        have hrest := ih (s := s.goOn region (some (n, phase'))) rfl
          (Nat.le_of_lt_succ (hlt.trans_le hk))
        rw [show (s.goOn region (some (n, phase'))).arena =
          { s.arena with source := .system region } from rfl, settle_with_source] at hrest
        exact Ends.cons hstep hrest

theorem grow_eq_settle (hspace : ¬ Address.space ≤ s.arena.size + n) :
    Arena.grow n s.arena = settle s.arena n (Region.extend s.arena.size n s.region) := by
  rw [Arena.grow, if_neg hspace]
  show (match Region.extend s.arena.size n s.region with
    | .error e region => _
    | .ok () region => _) = _
  cases Region.extend s.arena.size n s.region <;> rfl

/-- **A growth that nobody disturbs** comes to what the arena makes of it on its own. -/
theorem ends_grow (hidle : s.growth = none) (n : Nat) :
    s.Ends n [.grow n, .call, .call, .call] (Arena.grow n s.arena) := by
  by_cases hspace : Address.space ≤ s.arena.size + n
  · have hstep : s.step (.grow n) = (s, some ⟨n, .error (.failed (.outOfMemory n))⟩) := by
      simp only [step, hidle, if_pos hspace]
    rw [Arena.grow, if_pos hspace]
    exact ends_error hstep hidle 3
  · have hstep : s.step (.grow n) =
        ({ s with growth := some (n, .first s.region s.arena.size) }, none) := by
      simp only [step, hidle, if_neg hspace]
    have hcalls := ends_calls (s := { s with growth := some (n, .first s.region s.arena.size) })
      rfl (Region.Phase.depth_le _)
    rw [Region.Phase.rest_first] at hcalls
    rw [grow_eq_settle hspace]
    exact Ends.cons hstep hcalls

end SharedArena

end TaggedHeap
