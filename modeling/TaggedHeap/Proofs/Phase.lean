import TaggedHeap.Proofs.Growth

/-!
# Extending a region request by request

A region above the program break is extended by one request to the system or, the first time, by
up to three (`Region.Phase`).  Each request is answered the old break, which it raises, or it is
refused and leaves the break where it is (`Region.request_cases`).  The new bytes are had exactly if
the last request is answered the address where they should start (`Region.conclude_cases`).

If nobody else moves the break between them, the requests come to `Region.extend`
(`Region.Phase.rest_first`, `Region.Phase.rest_eq`).
-/

namespace TaggedHeap

namespace ProgramBreak

/-- The system serves a request for `n` bytes. -/
def Serves (brk : ProgramBreak) (n : Nat) : Prop := ∃ address brk', request n brk = .ok address brk'

/-- A request answers the old break and raises it, or is refused and leaves it where it is. -/
theorem request_cases (n : Nat) (brk : ProgramBreak) :
    (∃ brk', request n brk = .ok brk.top brk' ∧ brk'.top = brk.top + n) ∨
      ∃ brk', request n brk = .error (.failed (.outOfMemory n)) brk' ∧ brk'.top = brk.top := by
  unfold request
  by_cases hlimit : requestLimit ≤ n
  · rw [if_pos hlimit]
    exact .inr ⟨brk, rfl, rfl⟩
  · rw [if_neg hlimit]
    by_cases hgrant : brk.grants brk.decided n ∧ brk.top + n < ceiling
    · rw [dif_pos hgrant]
      exact .inl ⟨_, rfl, rfl⟩
    · rw [dif_neg hgrant]
      exact .inr ⟨_, rfl, rfl⟩

/-- The break only rises. -/
theorem le_top_raise (brk : ProgramBreak) (n : Nat) : brk.top ≤ (brk.raise n).top := by
  rcases request_cases n brk with ⟨brk', hrun, htop⟩ | ⟨brk', hrun, htop⟩
  · simp only [raise, hrun, htop]
    exact Nat.le_add_right _ _
  · simp only [raise, hrun, htop, le_refl]

end ProgramBreak

namespace Region

/-! ### Extending a region one request after the other -/

/-- The next request of a region that is being extended. -/
inductive Phase
  /-- Asks where the break is. -/
  | locate
  /-- Moves the break up by `gap` bytes, to `base`. -/
  | align (base gap : Nat)
  /-- Asks for the new bytes, which should start at `target`, of the region at `base`. -/
  | claim (base target : Nat)
deriving DecidableEq, Repr

/-- Asks for the `n` new bytes of the region at `base`, which should start at `target`. -/
def conclude (n base target : Nat) : EStateM Stop Region Unit := do
  let address ← request n
  if address = target then modify fun r => { r with base := some base }
  else throw (.failed (.outOfMemory n))

namespace Phase

/-- The first request that extends a region of `size` bytes. -/
def first (r : Region) (size : Nat) : Phase :=
  match r.base with
  | none => locate
  | some base => claim base (base + size)

/-- Makes the request, for a region that is being extended by `n` bytes.  Answers what is to be done
next, if anything. -/
def call (n : Nat) : Phase → EStateM Stop Region (Option Phase)
  | locate => do
    let current ← request 0
    let base := ceilTo current baseAlignment
    return some (if current < base then align base (base - current) else claim base base)
  | align base gap => do
    let _ ← request gap
    return some (claim base base)
  | claim base target => do
    conclude n base target
    return none

/-- What is left of extending a region, if nobody else moves the break meanwhile. -/
def rest (n : Nat) : Phase → EStateM Stop Region Unit
  | locate => start n
  | align base gap => do
    let _ ← request gap
    conclude n base base
  | claim base target => conclude n base target

/-- How many requests are left at most. -/
def depth : Phase → Nat
  | locate => 3
  | align _ _ => 2
  | claim _ _ => 1

/-- The phase suits a region of `size` bytes with the given base. -/
def Suits (base? : Option Nat) (size : Nat) : Phase → Prop
  | locate => base? = none
  | align base _ => base? = none ∧ base % baseAlignment = 0
  | claim base target => base % baseAlignment = 0 ∧ target = base + size ∧ ∀ b ∈ base?, b = base

end Phase

variable {r : Region} {n : Nat} {p : Phase}

theorem get_bind {α : Type} {f : Region → EStateM Stop Region α} : (get >>= f) r = f r r := rfl

theorem request_cases (n : Nat) (r : Region) :
    (∃ brk, request n r = .ok r.brk.top { r with brk } ∧ r.brk.Serves n ∧
        brk.top = r.brk.top + n) ∨
      ∃ brk, request n r = .error (.failed (.outOfMemory n)) { r with brk } ∧ ¬ r.brk.Serves n ∧
        brk.top = r.brk.top := by
  unfold request ProgramBreak.Serves
  rcases ProgramBreak.request_cases n r.brk with ⟨brk, hrun, htop⟩ | ⟨brk, hrun, htop⟩
  · simp only [hrun]
    exact .inl ⟨brk, rfl, ⟨_, _, rfl⟩, htop⟩
  · simp only [hrun]
    exact .inr ⟨brk, rfl, by simp, htop⟩

/-- The new bytes are had exactly if the break is where they should start, and the system serves the
request. -/
theorem conclude_cases (n base target : Nat) (r : Region) :
    (∃ brk, conclude n base target r = .ok () { base := some base, brk } ∧
        (r.brk.top = target ∧ r.brk.Serves n) ∧ brk.top = r.brk.top + n) ∨
      ∃ brk, conclude n base target r = .error (.failed (.outOfMemory n)) { r with brk } ∧
        ¬ (r.brk.top = target ∧ r.brk.Serves n) ∧ r.brk.top ≤ brk.top := by
  rcases request_cases n r with ⟨brk, hrun, hserves, htop⟩ | ⟨brk, hrun, hrefused, htop⟩
  · simp only [conclude, bind, EStateM.bind, hrun]
    by_cases htarget : r.brk.top = target
    · rw [if_pos htarget]
      exact .inl ⟨brk, rfl, ⟨htarget, hserves⟩, htop⟩
    · rw [if_neg htarget]
      exact .inr ⟨brk, rfl, fun h => htarget h.1, htop ▸ Nat.le_add_right _ _⟩
  · simp only [conclude, bind, EStateM.bind, hrun]
    exact .inr ⟨brk, rfl, fun h => hrefused h.2, htop.ge⟩

theorem ceilTo_baseAlignment (m : Nat) : ceilTo m baseAlignment % baseAlignment = 0 := by
  have hceil : ceilTo m baseAlignment = (m + 15) / 16 * 16 := ceilTo_two_pow m 4
  rw [hceil]
  exact Nat.mul_mod_left _ _

namespace Phase

theorem suits_first {size : Nat} (halign : ∀ b ∈ r.base, b % baseAlignment = 0) :
    (first r size).Suits r.base size := by
  unfold first
  cases hbase : r.base with
  | none => rfl
  | some base =>
    refine ⟨halign base hbase, rfl, fun b hb => (Option.some.inj hb).symm⟩

/-- **What a request comes to**: the next one, or the end of a growth, which succeeds only if the
new bytes start at the break, or a refusal. -/
theorem call_cases {size : Nat} (hp : p.Suits r.base size) (hempty : r.base = none → size = 0) :
    (∃ p' brk, p.call n r = .ok (some p') { r with brk } ∧ r.brk.top ≤ brk.top ∧
        p'.Suits r.base size) ∨
      (∃ base brk, p.call n r = .ok none { base := some base, brk } ∧
        p = .claim base r.brk.top ∧ brk.top = r.brk.top + n) ∨
      ∃ m brk, p.call n r = .error (.failed (.outOfMemory m)) { r with brk } ∧
        r.brk.top ≤ brk.top := by
  cases p with
  | locate =>
    have hbase : r.base = none := hp
    rcases request_cases 0 r with ⟨brk, hrun, -, htop⟩ | ⟨brk, hrun, -, htop⟩
    · simp only [call, bind, EStateM.bind, hrun]
      have hceil := ceilTo_baseAlignment r.brk.top
      refine .inl ⟨_, brk, rfl, htop.ge, ?_⟩
      split
      · exact ⟨hbase, hceil⟩
      · exact ⟨hceil, by rw [hempty hbase, Nat.add_zero], by simp [hbase]⟩
    · simp only [call, bind, EStateM.bind, hrun]
      exact .inr (.inr ⟨0, brk, rfl, htop.ge⟩)
  | align base gap =>
    obtain ⟨hbase, halign⟩ := hp
    rcases request_cases gap r with ⟨brk, hrun, -, htop⟩ | ⟨brk, hrun, -, htop⟩
    · simp only [call, bind, EStateM.bind, hrun]
      exact .inl ⟨_, brk, rfl, htop ▸ Nat.le_add_right _ _, halign,
        by rw [hempty hbase, Nat.add_zero], by simp [hbase]⟩
    · simp only [call, bind, EStateM.bind, hrun]
      exact .inr (.inr ⟨gap, brk, rfl, htop.ge⟩)
  | claim base target =>
    -- the only request after which the arena may have its bytes
    rcases conclude_cases n base target r with ⟨brk, hrun, ⟨rfl, -⟩, htop⟩ | ⟨brk, hrun, -, htop⟩
    · simp only [call, bind, EStateM.bind, hrun]
      exact .inr (.inl ⟨base, brk, rfl, rfl, htop⟩)
    · simp only [call, bind, EStateM.bind, hrun]
      exact .inr (.inr ⟨n, brk, rfl, htop⟩)

theorem rest_first (r : Region) (size n : Nat) : (first r size).rest n r = extend size n r := by
  rw [first, extend, get_bind]
  cases hbase : r.base with
  | none => rfl
  | some base =>
    simp only [rest, conclude, bind, EStateM.bind]
    rcases request_cases n r with ⟨brk, hrun, -⟩ | ⟨brk, hrun, -⟩
    · simp only [hrun]
      by_cases htarget : r.brk.top = base + size
      · rw [if_pos htarget, if_neg (not_not.2 htarget), hbase]
        rfl
      · rw [if_neg htarget, if_pos htarget]
    · simp only [hrun]

theorem rest_eq (n : Nat) (p : Phase) (r : Region) : p.rest n r =
    match p.call n r with
    | .ok none r => .ok () r
    | .ok (some p) r => p.rest n r
    | .error e r => .error e r := by
  cases p with
  | locate =>
    simp only [rest, start, call, bind, EStateM.bind]
    cases request 0 r with
    | error e r => rfl
    | ok current r =>
      simp only [pure, EStateM.pure]
      split <;> rfl
  | align base gap =>
    simp only [rest, call, bind, EStateM.bind]
    cases request gap r <;> rfl
  | claim base target =>
    simp only [rest, call, bind, EStateM.bind]
    cases conclude n base target r <;> rfl

theorem depth_le (p : Phase) : p.depth ≤ 3 := by
  cases p <;> simp [depth]

/-- A request that is not the last one leaves fewer to be made. -/
theorem depth_lt {p' : Phase} {r' : Region} (h : p.call n r = .ok (some p') r') :
    p'.depth < p.depth := by
  cases p with
  | locate =>
    simp only [call, bind, EStateM.bind] at h
    split at h
    · cases h
      split <;> simp [depth]
    · cases h
  | align base gap =>
    simp only [call, bind, EStateM.bind] at h
    split at h <;> cases h
    simp [depth]
  | claim base target =>
    simp only [call, bind, EStateM.bind] at h
    split at h <;> cases h

end Phase

end Region

end TaggedHeap
