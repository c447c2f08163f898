import TaggedHeap.Proofs.Phase
import TaggedHeap.Proofs.Translate

/-!
# Where new bytes come from

All that requests do to an arena is to write in it (`Heap.Rewritten`) and to grow it.  So whatever
is true of the size and the source of an arena, and is kept up by growing (`Lasting`), is true after
every action, unless the action is that somebody else moves the break (`Action.maintains_perform`).
-/

namespace TaggedHeap

/-! ### Writing -/

namespace Heap

/-- `h'` is what becomes of `h` when some bytes of its arena are written. -/
def Rewritten (h h' : Heap) : Prop := h.arena.Edit h'.arena Set.univ

variable {h h' h'' : Heap} {block size target before after : Nat} {l : Link}

theorem Rewritten.trans (hh : h.Rewritten h') (hh' : h'.Rewritten h'') : h.Rewritten h'' :=
  (Arena.Edit.trans hh hh').mono (Set.subset_univ _)

theorem of_bind {α β : Type} {x : Except Fault α} {f : α → Except Fault β} {b : β} {p : Prop}
    (hrun : (x >>= f) = .ok b) (hf : ∀ a, f a = .ok b → p) : p := by
  obtain ⟨a, -, hrun⟩ := exists_of_bind_ok hrun
  exact hf a hrun

theorem Rewritten.bind {β : Type} {x : Except Fault Heap} {f : Heap → Except Fault β} {b : β}
    (hrun : (x >>= f) = .ok b) (hx : ∀ h₁, x = .ok h₁ → h.Rewritten h₁)
    (hf : ∀ h₁, f h₁ = .ok b → h₁.Rewritten h') : h.Rewritten h' := by
  obtain ⟨h₁, hx₁, hrun⟩ := exists_of_bind_ok hrun
  exact (hx h₁ hx₁).trans (hf h₁ hrun)

theorem rewritten_write {pos : Nat} {xs : List UInt8} (hrun : h.write pos xs = .ok h') :
    h.Rewritten h' := by
  obtain ⟨a, ha, hh⟩ := exists_of_bind_ok hrun
  cases hh
  obtain ⟨-, -, hsource⟩ := Arena.write_eq_ok_iff.1 ha
  exact ⟨Arena.size_of_write ha, hsource, fun i hi => absurd (Set.mem_univ i) hi⟩

theorem rewritten_setTag {pos : Nat} {used : Bool} (hrun : h.setTag pos size used = .ok h') :
    h.Rewritten h' :=
  of_bind hrun fun t hrun =>
    rewritten_write (show h.write pos (Word.toBytes t.raw) = .ok h' from hrun)

theorem rewritten_setTags {used : Bool} (hrun : h.setTags block size used = .ok h') :
    h.Rewritten h' :=
  .bind hrun (fun _ => rewritten_setTag) fun _ hrun => of_bind hrun fun _ => rewritten_setTag

theorem rewritten_setPayload {p : Pointer} {count : Nat} {byte : Nat → UInt8}
    (hrun : h.setPayload p count byte = .ok h') : h.Rewritten h' := by
  refine of_bind hrun fun size hrun => of_bind hrun fun stop hrun => ?_
  split at hrun
  · exact rewritten_write hrun
  · cases hrun

theorem rewritten_copyBytes {start count : Nat} (hrun : copyBytes start target count h = .ok h') :
    h.Rewritten h' :=
  of_bind hrun fun _ hrun => of_bind hrun fun _ => rewritten_write

theorem rewritten_setLink (hrun : h.setLink block l target = .ok h') : h.Rewritten h' := by
  refine of_bind hrun fun pos hrun => ?_
  split at hrun
  · cases hrun
  · exact rewritten_write (show h.write pos (Word.toBytes _) = .ok h' from hrun)

theorem rewritten_clearLink (hrun : h.clearLink block l = .ok h') : h.Rewritten h' :=
  of_bind hrun fun pos hrun =>
    rewritten_write (show h.write pos (Word.toBytes 0) = .ok h' from hrun)

theorem rewritten_splice (hrun : h.splice before after = .ok h') : h.Rewritten h' :=
  .bind hrun (fun _ => rewritten_setLink) fun _ => rewritten_setLink

theorem rewritten_writeSentinels (hrun : h.writeSentinels = .ok h') : h.Rewritten h' :=
  .bind hrun (fun _ => rewritten_setTags) fun _ hrun =>
    .bind hrun (fun _ => rewritten_setTags) fun _ hrun =>
      .bind hrun (fun _ => rewritten_splice) fun _ hrun =>
        .bind hrun (fun _ => rewritten_clearLink) fun _ => rewritten_clearLink

theorem rewritten_unlink (hrun : h.unlink block = .ok h') : h.Rewritten h' :=
  of_bind hrun fun _ hrun => of_bind hrun fun _ => rewritten_splice

theorem rewritten_pushFront (hrun : h.pushFront block = .ok h') : h.Rewritten h' :=
  of_bind hrun fun _ hrun => .bind hrun (fun _ => rewritten_splice) fun _ => rewritten_splice

theorem rewritten_listFree (hrun : h.listFree block size = .ok h') : h.Rewritten h' :=
  .bind hrun (fun _ => rewritten_setTags) fun _ => rewritten_pushFront

theorem rewritten_moveTop {α : Type} {a b : α} {m n : Nat}
    (hrun : (pure (a, h.moveTop m n) : Except Fault _) = .ok (b, h')) : h.Rewritten h' := by
  cases hrun
  rw [moveTop]
  split <;> exact ⟨rfl, rfl, fun _ _ => rfl⟩

theorem rewritten_join {prev next : Option Nat} {merged : Nat}
    (hrun : h.join block size prev next = .ok (merged, h')) : h.Rewritten h' := by
  have hlist : ∀ {g : Heap} {start total m n}, (do
      let g ← g.listFree start total
      return (start, g.moveTop m n)) = Except.ok (merged, h') → g.Rewritten h' := fun hrun =>
    .bind hrun (fun _ => rewritten_listFree) fun _ => rewritten_moveTop
  cases prev <;> cases next
  case none.none =>
    refine .bind hrun (fun _ => rewritten_pushFront) fun h₁ hrun => ?_
    cases hrun
    exact ⟨rfl, rfl, fun _ _ => rfl⟩
  case none.some next =>
    exact of_bind hrun fun t hrun => of_bind hrun fun total hrun =>
      .bind hrun (fun _ => rewritten_unlink) fun _ => hlist
  case some.none prev =>
    exact of_bind hrun fun t hrun => of_bind hrun fun total hrun =>
      .bind hrun (fun _ => rewritten_unlink) fun _ => hlist
  case some.some prev next =>
    exact of_bind hrun fun t hrun => of_bind hrun fun total hrun => of_bind hrun fun t hrun =>
      of_bind hrun fun total hrun => .bind hrun (fun _ => rewritten_unlink) fun _ hrun =>
        .bind hrun (fun _ => rewritten_unlink) fun _ => hlist

theorem rewritten_merge {result : Merge} (hrun : h.merge block = .ok (result, h')) :
    h.Rewritten h' := by
  refine of_bind hrun fun t hrun => of_bind hrun fun below hrun => of_bind hrun fun prev hrun =>
    of_bind hrun fun above hrun => of_bind hrun fun next hrun => ?_
  obtain ⟨⟨merged, h₁⟩, hjoin, hrun⟩ := exists_of_bind_ok hrun
  obtain ⟨t', -, hrun⟩ := exists_of_bind_ok hrun
  cases hrun
  exact rewritten_join hjoin

theorem rewritten_carve {total need node : Nat} {result : Carving}
    (hrun : h.carve block total need node = .ok (result, h')) : h.Rewritten h' := by
  refine of_bind hrun fun before hrun => of_bind hrun fun after hrun =>
    of_bind hrun fun rest hrun => ?_
  split at hrun
  · exact .bind hrun (fun _ => rewritten_setTags) fun _ hrun => of_bind hrun fun _ hrun =>
      .bind hrun (fun _ => rewritten_setTags) fun _ hrun =>
        .bind hrun (fun _ => rewritten_splice) fun _ hrun =>
          .bind hrun (fun _ => rewritten_splice) fun _ => rewritten_moveTop
  · exact .bind hrun (fun _ => rewritten_splice) fun _ hrun =>
      .bind hrun (fun _ => rewritten_setTags) fun _ => rewritten_moveTop

theorem rewritten_cutDown {need rest : Nat} (hrun : cutDown block size need h = .ok (rest, h')) :
    h.Rewritten h' :=
  of_bind hrun fun _ hrun => of_bind hrun fun _ hrun =>
    .bind hrun (fun _ => rewritten_setTags) fun _ hrun =>
      .bind hrun (fun _ => rewritten_setTags) fun _ => rewritten_moveTop

theorem rewritten_addTopBlock {offset : Nat} (hrun : addTopBlock offset size h = .ok (block, h')) :
    h.Rewritten h' := by
  refine of_bind hrun fun _ hrun => .bind hrun (fun _ => rewritten_setTags) fun _ hrun => ?_
  cases hrun
  exact ⟨rfl, rfl, fun _ _ => rfl⟩

end Heap

/-! ### Growing -/

/-- What is true of the size and the source of an arena, and remains so when it grows or is
refused. -/
structure Lasting (P : Nat → Source → Prop) : Prop where
  /-- The arena grows. -/
  grow : ∀ {n offset : Nat} {a b : Arena}, P a.size a.source → Arena.grow n a = .ok offset b →
    P b.size b.source
  /-- The arena is refused the bytes. -/
  refused : ∀ {n : Nat} {a b : Arena} {e : HeapError}, P a.size a.source →
    Arena.grow n a = .error (.failed e) b → P b.size b.source

namespace SessionM

variable {α β : Type} {P : Nat → Source → Prop}

/-- What is true of the size and the source of the arena remains true, unless there is a fault. -/
def Maintains (P : Nat → Source → Prop) (act : SessionM α) : Prop :=
  ∀ s, P s.heap.arena.size s.heap.arena.source →
    (∀ a s', act s = .ok a s' → P s'.heap.arena.size s'.heap.arena.source) ∧
    ∀ e s', act s = .error (.failed e) s' → P s'.heap.arena.size s'.heap.arena.source

namespace Maintains

variable {act : SessionM α} {f : α → SessionM β}

theorem pure (a : α) : Maintains P (Pure.pure a) := by
  intro s hs
  constructor <;> rintro _ _ ⟨⟩
  exact hs

theorem note (r : Record) : Maintains P (SessionM.note r) := by
  intro s hs
  constructor <;> rintro _ _ ⟨⟩
  exact hs

theorem fail (e : HeapError) : Maintains P (SessionM.fail e : SessionM α) := by
  intro s hs
  constructor <;> rintro _ _ ⟨⟩
  exact hs

theorem edit {change : Heap → Except Fault (α × Heap)}
    (h : ∀ {g a g'}, change g = .ok (a, g') → g.Rewritten g') :
    Maintains P (SessionM.edit change) := by
  intro s hs
  refine ⟨fun a s' hrun => ?_, fun e s' hrun => absurd hrun (Unfailing.edit _ _ _ _)⟩
  obtain ⟨g, hchange, rfl⟩ := of_edit hrun
  have hedit := h hchange
  rwa [hedit.size_eq, hedit.source_eq]

theorem alter {change : Heap → Except Fault Heap}
    (h : ∀ {g g'}, change g = .ok g' → g.Rewritten g') : Maintains P (SessionM.alter change) := by
  refine .edit fun {g a g'} hrun => ?_
  obtain ⟨g₁, hchange, hrun⟩ := exists_of_bind_ok hrun
  cases hrun
  exact h hchange

theorem ask (query : Heap → Except Fault α) : Maintains P (SessionM.ask query) := by
  intro s hs
  refine ⟨fun a s' hrun => ?_, fun e s' hrun => absurd hrun (Unfailing.ask _ _ _ _)⟩
  obtain ⟨rfl, -⟩ := of_ask hrun
  exact hs

theorem calculate (result : Except Fault α) : Maintains P (SessionM.calculate result) := .ask _

theorem bind (h : Maintains P act) (hf : ∀ a, Maintains P (f a)) : Maintains P (act >>= f) := by
  intro s hs
  refine ⟨fun b s' hrun => ?_, fun e s' hrun => ?_⟩
  · obtain ⟨a, s₁, hact, hrun⟩ := ok_of_bind hrun
    exact (hf a s₁ ((h s hs).1 a s₁ hact)).1 b s' hrun
  · rcases failed_of_bind hrun with hact | ⟨a, s₁, hact, hrun⟩
    · exact (h s hs).2 e s' hact
    · exact (hf a s₁ ((h s hs).1 a s₁ hact)).2 e s' hrun

theorem of_get {f : Session → SessionM β} (hf : ∀ s, Maintains P (f s)) :
    Maintains P (get >>= f) := fun s => hf s s

theorem noteError {record : HeapError → Record} (h : Maintains P act) :
    Maintains P (SessionM.noteError act record) := by
  intro s hs
  refine ⟨fun a s' hrun => (h s hs).1 a s' (of_noteError hrun), fun e s' hrun => ?_⟩
  obtain ⟨log, hact⟩ := failed_of_noteError hrun
  exact (h s hs).2 e ⟨s'.heap, log⟩ hact

theorem growArena (hP : Lasting P) (n : Nat) : Maintains P (SessionM.growArena n) := by
  intro s hs
  refine ⟨fun offset s' hrun => ?_, fun e s' hrun => ?_⟩
  · obtain ⟨arena, hgrow, rfl⟩ := of_growArena hrun
    exact hP.grow hs hgrow
  · unfold SessionM.growArena at hrun
    split at hrun
    · cases hrun
    · rename_i hgrow
      cases hrun
      exact hP.refused hs hgrow

end Maintains

end SessionM

open Heap SessionM

section Requests

variable {P : Nat → Source → Prop}

theorem maintains_mergeBlock (block : Nat) : Maintains P (mergeBlock block) :=
  (Maintains.edit rewritten_merge).bind fun _ => (Maintains.note _).bind fun _ => .pure _

theorem maintains_carveBlock (block total need node : Nat) :
    Maintains P (carveBlock block total need node) :=
  (Maintains.edit rewritten_carve).bind fun _ => .note _

theorem maintains_occupy (block need : Nat) : Maintains P (occupy block need) :=
  (Maintains.ask _).bind fun _ => maintains_carveBlock _ _ _ _

theorem maintains_releaseBlock (p : Pointer) : Maintains P (releaseBlock p) :=
  (Maintains.calculate _).bind fun block => (Maintains.ask _).bind fun _ =>
    (Maintains.alter rewritten_setTags).bind fun _ =>
      (maintains_mergeBlock block).bind fun _ => .note _

theorem maintains_release (p : Option Pointer) : Maintains P (release p) := by
  cases p with
  | none => exact .pure _
  | some p => exact maintains_releaseBlock p

theorem maintains_shrink (block oldSize need size : Nat) :
    Maintains P (shrink block oldSize need size) := by
  refine .of_get fun s => ?_
  split
  · exact (Maintains.edit rewritten_cutDown).bind fun rest =>
      (maintains_mergeBlock rest).bind fun _ => .note _
  · exact .note _

theorem maintains_blockSize (size : Nat) : Maintains P (blockSize size) := by
  refine .of_get fun s => ?_
  split
  · exact .fail _
  · split
    · exact .pure _
    · exact .fail _

variable (hP : Lasting P)

include hP

theorem maintains_growFor (need : Nat) : Maintains P (growFor need) := by
  refine .of_get fun s => ?_
  cases growthFor? s.heap need with
  | none => exact .fail _
  | some size =>
    exact (Maintains.growArena hP size).noteError.bind fun offset =>
      (Maintains.edit rewritten_addTopBlock).bind fun block =>
        (Maintains.note _).bind fun _ => maintains_mergeBlock block

theorem maintains_allocate (size : Nat) : Maintains P (allocate size) := by
  unfold allocate
  split
  · exact .pure _
  refine (maintains_blockSize size).bind fun need => (Maintains.ask _).bind fun fit => ?_
  have hserve : ∀ block origin, Maintains P (do
      occupy block need
      note (.allocated size block origin)
      return some (Pointer.ofHeader block)) := fun block origin =>
    (maintains_occupy block need).bind fun _ => (Maintains.note _).bind fun _ => .pure _
  cases fit with
  | some block => exact hserve block .reused
  | none => exact (maintains_growFor hP need).noteError.bind fun block => hserve block .grown

theorem maintains_moveBlock (p : Pointer) (block oldSize size : Nat) :
    Maintains P (moveBlock p block oldSize size) := by
  refine (maintains_allocate hP size).bind fun r => ?_
  cases r with
  | none => exact .pure _
  | some q =>
    exact (Maintains.calculate _).bind fun _ => (Maintains.alter rewritten_copyBytes).bind fun _ =>
      (maintains_releaseBlock p).bind fun _ => (Maintains.calculate _).bind fun _ =>
        (Maintains.note _).bind fun _ => .pure _

theorem maintains_resizeBlock (p : Pointer) (size : Nat) : Maintains P (resizeBlock p size) := by
  refine (maintains_blockSize size).bind fun need => (Maintains.calculate _).bind fun block =>
    (Maintains.ask _).bind fun t => ?_
  dsimp only
  split
  · exact .pure _
  split
  · exact (maintains_shrink _ _ _ _).bind fun _ => .pure _
  refine (Maintains.ask _).bind fun room => ?_
  split
  · exact (maintains_carveBlock _ _ _ _).bind fun _ => (Maintains.note _).bind fun _ => .pure _
  · exact maintains_moveBlock hP _ _ _ _

theorem maintains_resize (p : Option Pointer) (size : Nat) : Maintains P (resize p size) := by
  unfold resize
  split
  · exact (maintains_release p).bind fun _ => .pure _
  · cases p with
    | none => exact maintains_allocate hP size
    | some p => exact maintains_resizeBlock hP p size

theorem maintains_zeroAllocate (count size : Nat) : Maintains P (zeroAllocate count size) := by
  have hclear : ∀ bytes, Maintains P (allocateCleared bytes) := fun bytes => by
    refine (maintains_allocate hP bytes).bind fun r => ?_
    cases r with
    | none => exact .pure _
    | some p => exact (Maintains.alter rewritten_setPayload).bind fun _ => .pure _
  unfold zeroAllocate
  split
  · exact (Maintains.note _).bind fun _ => hclear _
  · exact hclear _

/-- **What growing keeps up is kept up by every action**, except that it may depend on who moves the
program break. -/
theorem Action.maintains_perform (a : Action) (hraise : ∀ n, a = .raiseBreak n → ∀ arena : Arena,
      P arena.size arena.source → P (arena.raiseBreak n).size (arena.raiseBreak n).source) :
    Maintains P a.perform := by
  cases a with
  | allocate size => exact maintains_allocate hP size
  | zeroAllocate count size => exact maintains_zeroAllocate hP count size
  | resize p size => exact maintains_resize hP p size
  | release p => exact (maintains_release p).bind fun _ => .pure _
  | write p count byte =>
    exact (Maintains.alter rewritten_setPayload).bind fun _ => .pure _
  | raiseBreak n =>
    intro s hs
    constructor <;> rintro _ _ ⟨⟩
    exact hraise n rfl _ hs

end Requests

end TaggedHeap
