import TaggedHeap.Memory.ProgramBreak
import TaggedHeap.Memory.Word

/-!
# Arenas

An arena is a contiguous run of bytes addressed by offset, which grows only at its end.  Its
bytes come from a buffer with a limit or from the program break (`Source`).  New bytes of a buffer
are zero, and those above the break are what the system handed out (`Source.fresh`).  An arena that
would become larger than `maxContiguous` faults.

Reads and writes that reach outside the arena fault.  Writing changes no byte outside the
range written (`getElem?_overwrite`).
-/

namespace TaggedHeap

/-- Where the bytes of an arena come from. -/
inductive Source
  /-- A buffer of at most `limit` bytes. -/
  | buffer (limit : Nat)
  /-- A region above the program break. -/
  | system (region : Region)

/-- What the `n` bytes hold by which an arena of `size` bytes grows. -/
def Source.fresh (source : Source) (size n : Nat) : Array UInt8 :=
  match source with
  | .buffer _ => Array.replicate n 0
  | .system region => region.fresh size n

@[simp] theorem Source.size_fresh (source : Source) (size n : Nat) :
    (source.fresh size n).size = n := by
  cases source with
  | buffer limit => exact Array.size_replicate
  | system region => exact Array.size_ofFn

/-- The most bytes that lie next to each other in memory. -/
def maxContiguous : Nat := 0x7FFF_FFFF_FFFF_FFFF

/-- A growing run of bytes. -/
structure Arena where
  /-- The bytes, by offset. -/
  bytes : Array UInt8 := #[]
  /-- What the arena grows from. -/
  source : Source
  /-- The bytes lie next to each other in memory. -/
  size_le : bytes.size ≤ maxContiguous := by decide

/-- The bytes with those of `xs` in place from offset `start` on. -/
def overwrite (bytes : Array UInt8) (start : Nat) : List UInt8 → Array UInt8
  | [] => bytes
  | x :: xs => overwrite (bytes.setIfInBounds start x) (start + 1) xs

@[simp] theorem size_overwrite (bytes : Array UInt8) (start : Nat) (xs : List UInt8) :
    (overwrite bytes start xs).size = bytes.size := by
  induction xs generalizing bytes start with
  | nil => rfl
  | cons x xs ih => rw [overwrite, ih, Array.size_setIfInBounds]

theorem getElem?_overwrite (bytes : Array UInt8) (start : Nat) (xs : List UInt8) (i : Nat)
    (h : start + xs.length ≤ bytes.size) :
    (overwrite bytes start xs)[i]? =
      if start ≤ i ∧ i < start + xs.length then xs[i - start]? else bytes[i]? := by
  induction xs generalizing bytes start with
  | nil =>
    rw [overwrite, if_neg]
    simp only [List.length_nil]
    omega
  | cons x xs ih =>
    simp only [List.length_cons] at h
    rw [overwrite, ih _ _ (by rw [Array.size_setIfInBounds]; omega),
      Array.getElem?_setIfInBounds]
    simp only [List.length_cons]
    by_cases hi : start = i
    · subst hi
      rw [if_neg (by omega), if_pos rfl, if_pos (by omega), if_pos (by omega), Nat.sub_self]
      rfl
    · by_cases hlt : start + 1 ≤ i ∧ i < start + 1 + xs.length
      · rw [if_pos hlt, if_pos (by omega), show i - start = (i - (start + 1)) + 1 by omega]
        rfl
      · rw [if_neg hlt, if_neg hi, if_neg (by omega)]

namespace Arena

variable (a : Arena)

/-- An arena over an empty buffer of at most `limit` bytes, by default without limit. -/
def ofLimit (limit : Nat := Address.space - 1) : Arena := { source := .buffer limit }

/-- An arena that will start at the given program break. -/
def ofBreak (brk : ProgramBreak) : Arena := { source := .system { brk } }

/-- Bytes in the arena. -/
def size : Nat := a.bytes.size

/-- The limit of the buffer behind the arena, if there is one. -/
def limit? : Option Nat :=
  match a.source with
  | .buffer limit => some limit
  | .system _ => none

/-- The byte at an offset, zero outside the arena. -/
def byte (pos : Nat) : UInt8 := a.bytes[pos]?.getD 0

/-- The bytes from `start` up to, and without, `stop`. -/
def slice (start stop : Nat) : Except Fault (List UInt8) :=
  if start ≤ stop ∧ stop ≤ a.size then .ok (a.bytes.extract start stop).toList
  else .error .outOfBounds

/-- Puts `xs` in place from `start` on. -/
def write (start : Nat) (xs : List UInt8) : Except Fault Arena := do
  let stop ← Address.add start xs.length
  if stop ≤ a.size then
    return { a with
      bytes := overwrite a.bytes start xs
      size_le := (size_overwrite _ _ _).symm ▸ a.size_le }
  else throw .outOfBounds

/-- The word at an offset, as if the arena went on with zeros. -/
def peek (pos : Nat) : UInt32 :=
  Word.ofBytes (a.byte pos) (a.byte (pos + 1)) (a.byte (pos + 2)) (a.byte (pos + 3))

/-- The word at `pos`. -/
def word (pos : Nat) : Except Fault UInt32 := do
  let stop ← Address.add pos wordBytes
  if stop ≤ a.size then return a.peek pos else throw .outOfBounds

/-- Stores a word at `pos`. -/
def setWord (pos : Nat) (w : UInt32) : Except Fault Arena := a.write pos (Word.toBytes w)

/-- The arena with `n` bytes more, which come from `source`. -/
def append (n : Nat) (source : Source) (fits : a.size + n ≤ maxContiguous) : Arena where
  bytes := a.bytes ++ source.fresh a.size n
  source := source
  size_le := by rwa [Array.size_append, Source.size_fresh]

/-- The first `n` bytes of the arena, if it has and may have that many. -/
def truncate (n : Nat) : Arena :=
  if n ≤ a.size ∧ (a.limit?.all fun limit => decide (n ≤ limit)) then
    { a with
      bytes := a.bytes.extract 0 n
      size_le := Nat.le_trans (by rw [Array.size_extract]; omega) a.size_le }
  else a

/-- Grows the arena by `n` bytes and answers the offset of the first of them.  An arena that
is refused the bytes keeps its own, but the program break may have moved. -/
def grow (n : Nat) : EStateM Stop Arena Nat := fun a =>
  if Address.space ≤ a.size + n then .error (.failed (.outOfMemory n)) a
  else
    match a.source with
    | .buffer limit =>
      if limit < a.size + n then .error (.failed (.outOfMemory n)) a
      else if fits : a.size + n ≤ maxContiguous then .ok a.size (a.append n a.source fits)
      else .error (.fault .capacity) a
    | .system region =>
      match Region.extend a.size n region with
      | .error e region => .error e { a with source := .system region }
      | .ok () region =>
        if fits : a.size + n ≤ maxContiguous then .ok a.size (a.append n (.system region) fits)
        else .error (.fault .capacity) { a with source := .system region }

/-- Somebody else asks for `n` bytes above the program break; a buffer does not notice. -/
def raiseBreak (n : Nat) : Arena :=
  match a.source with
  | .buffer _ => a
  | .system region => { a with source := .system { region with brk := region.brk.raise n } }

/-- Bytes between the end of the arena and the program break, if the arena has bytes above
it. -/
def breakGap? : Option Nat :=
  match a.source with
  | .system { base := some base, brk } =>
    if a.size = 0 then none else some (brk.top - (base + a.size))
  | _ => none

/-- Where the arena starts, if it lies above the program break. -/
def base? : Option Nat :=
  match a.source with
  | .system region => region.base
  | .buffer _ => none

end Arena

end TaggedHeap
