import TaggedHeap.Error

/-!
# The program break

The system hands out memory by raising a single address, the program break.  Each request for
`n` bytes either answers the old break and raises it by `n`, or is refused and leaves it where
it is.  Which of the two happens is up to the system (`ProgramBreak.grants`), except that the
break stays below `ProgramBreak.ceiling`.  So is what the new bytes hold
(`ProgramBreak.contents`).  Anybody else in the process may make such requests as well
(`ProgramBreak.raise`).

A `Region` is memory obtained that way from one base on.  Its first request is preceded by one
that moves the break up to `baseAlignment`.  Later requests extend the region only if the break
is still at its end; if it is not, the bytes just obtained are lost and the region stays as it
was.  Nothing is written to the bytes that are obtained (`Region.fresh`).
-/

namespace TaggedHeap

/-- Addresses of a process lie in the lower half of the address space, below this one. -/
def ProgramBreak.ceiling : Nat := 0x8000_0000_0000_0000

/-- The break, and what the system makes of requests to raise it. -/
structure ProgramBreak where
  /-- The current break. -/
  top : Nat
  /-- Requests the system has decided so far. -/
  decided : Nat := 0
  /-- Whether the system grants a request, given how many it has decided before and the number
  of bytes.  By default it refuses what no process can be given. -/
  grants : Nat → Nat → Bool := fun _ n => n < 0x4000_0000_0000_0000
  /-- What the byte at an address holds when it is handed out.  That happens to an address only
  once, since the break never goes down. -/
  contents : Nat → UInt8 := fun _ => 0
  /-- The break is an address. -/
  top_lt : top < ProgramBreak.ceiling

namespace ProgramBreak

/-- Requests that a signed 64-bit increment cannot express never reach the system. -/
def requestLimit : Nat := 0x8000_0000_0000_0000

/-- Asks for `n` bytes above the break and answers the break they start at. -/
def request (n : Nat) : EStateM Stop ProgramBreak Nat := fun brk =>
  if requestLimit ≤ n then .error (.failed (.outOfMemory n)) brk
  else
    let decided := brk.decided + 1
    if granted : brk.grants brk.decided n ∧ brk.top + n < ceiling then
      .ok brk.top { brk with top := brk.top + n, decided, top_lt := granted.2 }
    else .error (.failed (.outOfMemory n)) { brk with decided }

/-- The break after somebody else has asked for `n` bytes. -/
def raise (brk : ProgramBreak) (n : Nat) : ProgramBreak :=
  match request n brk with
  | .ok _ brk => brk
  | .error _ brk => brk

end ProgramBreak

/-- A contiguous region above the program break. -/
structure Region where
  /-- Where the region starts, once it has been asked for. -/
  base : Option Nat := none
  /-- The break it grows with. -/
  brk : ProgramBreak

namespace Region

/-- Regions start at multiples of this many bytes. -/
def baseAlignment : Nat := 16

/-- Asks the system for `n` bytes on behalf of the region. -/
def request (n : Nat) : EStateM Stop Region Nat := fun r =>
  match ProgramBreak.request n r.brk with
  | .ok address brk => .ok address { r with brk }
  | .error e brk => .error e { r with brk }

/-- The first extension: moves the break up to the base alignment and starts the region there.
Bytes skipped that way stay lost when the request itself is refused. -/
def start (n : Nat) : EStateM Stop Region Unit := do
  let current ← request 0
  let base := ceilTo current baseAlignment
  if current < base then
    let _ ← request (base - current)
  let address ← request n
  if address = base then modify fun r => { r with base := some base }
  else throw (.failed (.outOfMemory n))

/-- Adds `n` bytes to a region of `size` bytes. -/
def extend (size n : Nat) : EStateM Stop Region Unit := do
  match (← get).base with
  | none => start n
  | some base =>
    let address ← request n
    if address ≠ base + size then throw (.failed (.outOfMemory n))

/-- The last `n` bytes of a region that was extended when it had `size` bytes. -/
def fresh (r : Region) (size n : Nat) : Array UInt8 :=
  Array.ofFn fun i : Fin n => r.brk.contents (r.base.getD 0 + size + i)

end Region

end TaggedHeap
