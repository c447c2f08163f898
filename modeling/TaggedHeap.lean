import TaggedHeap.Memory.Access
import TaggedHeap.Script.Arena
import TaggedHeap.Script.Heap
import TaggedHeap.Proofs.Edit
import TaggedHeap.Proofs.Ring
import TaggedHeap.Proofs.Tiling
import TaggedHeap.Proofs.Codec
import TaggedHeap.Proofs.View
import TaggedHeap.Proofs.Strand
import TaggedHeap.Proofs.Uniqueness
import TaggedHeap.Proofs.Walk
import TaggedHeap.Proofs.Audit
import TaggedHeap.Proofs.Tampering
import TaggedHeap.Proofs.Surgery
import TaggedHeap.Proofs.Carve
import TaggedHeap.Proofs.BestFit
import TaggedHeap.Proofs.Growth
import TaggedHeap.Proofs.Prologue
import TaggedHeap.Proofs.Session
import TaggedHeap.Proofs.Disguise
import TaggedHeap.Proofs.Allocate
import TaggedHeap.Proofs.Release
import TaggedHeap.Proofs.Payload
import TaggedHeap.Proofs.Resize
import TaggedHeap.Proofs.Request
import TaggedHeap.Proofs.Client
import TaggedHeap.Proofs.Contract
import TaggedHeap.Proofs.Refusal
import TaggedHeap.Proofs.Safety
import TaggedHeap.Proofs.Twins
import TaggedHeap.Proofs.Independence
import TaggedHeap.Proofs.ReleaseOrder
import TaggedHeap.Proofs.Phase
import TaggedHeap.Proofs.SharedArena
import TaggedHeap.Proofs.SharedBreak
import TaggedHeap.Proofs.Shift
import TaggedHeap.Proofs.Translate
import TaggedHeap.Proofs.ShiftedView
import TaggedHeap.Proofs.Position
import TaggedHeap.Proofs.Supply
import TaggedHeap.Proofs.Flush
import TaggedHeap.Proofs.Listing
import TaggedHeap.Proofs.ReleaseEffect
import TaggedHeap.Proofs.AllocateEffect
import TaggedHeap.Proofs.ResizeEffect
import TaggedHeap.Proofs.Interchange
import TaggedHeap.Proofs.Slack
import TaggedHeap.Proofs.Clearing
import TaggedHeap.Proofs.RoundTrip
import TaggedHeap.Proofs.Truncation
import TaggedHeap.Proofs.Verdicts
import TaggedHeap.Proofs.Warnings
