import TaggedHeap.Memory.Arena
import TaggedHeap.Script.Reply

/-!
# Scripts for a bare arena

A script grows an arena, writes to it and looks at it.  Each step leaves an entry; the script
ends early at a step that faults.
-/

namespace TaggedHeap

/-- A step of a script for an arena. -/
inductive ArenaStep
  /-- Grows the arena. -/
  | grow (n : Nat)
  /-- Writes some bytes. -/
  | write (start : Nat) (content : List UInt8)
  /-- Reads all bytes. -/
  | bytes
  /-- Asks for the limit of the buffer. -/
  | limit
  /-- Somebody else raises the program break. -/
  | raiseBreak (n : Nat)
  /-- Asks how far the program break is above the arena. -/
  | breakGap
  /-- Asks how far the base of the arena is off its alignment. -/
  | baseOffset
deriving DecidableEq, Repr

/-- What a step of a script for an arena left. -/
structure ArenaEntry where
  /-- The answer of the step. -/
  reply : Except Stop Reply
  /-- Bytes in the arena afterwards. -/
  size : Nat

namespace ArenaStep

/-- Carries a step out. -/
def run (a : Arena) : ArenaStep → Except Stop Reply × Arena
  | grow n =>
    match Arena.grow n a with
    | .ok offset a => (.ok (.number offset), a)
    | .error e a => (.error e, a)
  | write start content =>
    match a.write start content with
    | .ok a => (.ok .nothing, a)
    | .error f => (.error (.fault f), a)
  | bytes => (.ok (.bytes a.bytes.toList), a)
  | limit => (.ok (.ofNumber? a.limit?), a)
  | raiseBreak n => (.ok .nothing, a.raiseBreak n)
  | breakGap => (.ok (.ofNumber? a.breakGap?), a)
  | baseOffset => (.ok (.ofNumber? (a.base?.map (· % Region.baseAlignment))), a)

/-- Carries steps out one after the other, up to the first that faults. -/
def runAll (a : Arena) : List ArenaStep → List ArenaEntry
  | [] => []
  | step :: steps =>
    let (reply, a) := step.run a
    let entry : ArenaEntry := { reply, size := a.size }
    match reply with
    | .error (.fault _) => [entry]
    | _ => entry :: runAll a steps

end ArenaStep

end TaggedHeap
