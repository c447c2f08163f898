import TaggedHeap.Proofs.Session

/-!
# What does not show

A heap asks the source of its arena for bytes when it grows, and at no other time.  Whether it
checks its links is only noticed when a check fails.  A `Disguise` changes these two and nothing
else.  Whatever is looked up in a heap is the same in disguise, and what changes the heap changes it
in disguise just so.

A computation takes no notice of a disguise (`SessionM.Parallel`) if it comes to the same with it,
faults apart.  Requests take no notice, unless they ask for new bytes and another source does not
answer the same; `Heap.NeedsGrowth` says when they ask, and `Heap.Asks` for how many.
-/

namespace TaggedHeap

/-- A change of the source that an arena grows from, and of whether links are checked.  Checks may
be dropped but not added. -/
structure Disguise where
  /-- The source to grow from. -/
  source : Source → Source
  /-- Whether links are checked. -/
  checks : Bool → Bool
  /-- No checks are added. -/
  of_checks : ∀ b, checks b = true → b = true

namespace Disguise

/-- Another source. -/
def supply (source : Source) : Disguise := ⟨fun _ => source, id, fun _ h => h⟩

/-- No change at all. -/
def plain : Disguise := ⟨id, id, fun _ h => h⟩

/-- Links are not checked. -/
def unchecked : Disguise := ⟨id, fun _ => false, by simp⟩

variable {d : Disguise}

/-- Asked to grow by `n` bytes, the arena answers the same in disguise, and is the same afterwards
but for the disguise. -/
structure Withstands (d : Disguise) (a : Arena) (n : Nat) : Prop where
  /-- The arena grows. -/
  ok : ∀ {offset : Nat} {b : Arena}, Arena.grow n a = .ok offset b →
    Arena.grow n { a with source := d.source a.source } =
      .ok offset { b with source := d.source b.source }
  /-- The arena is refused the bytes. -/
  failed : ∀ {e : HeapError} {b : Arena}, Arena.grow n a = .error (.failed e) b →
    Arena.grow n { a with source := d.source a.source } =
      .error (.failed e) { b with source := d.source b.source }

theorem withstands_of_id (hd : d.source = id) (a : Arena) (n : Nat) : d.Withstands a n := by
  constructor <;> intro _ _ h <;> simpa only [hd, id] using h

end Disguise

/-- An arena that grows from another source takes the same bytes. -/
theorem Arena.write_of_source {a b : Arena} {start : Nat} {xs : List UInt8} (f : Source → Source)
    (h : a.write start xs = .ok b) :
    { a with source := f a.source : Arena }.write start xs =
      .ok { b with source := f b.source } := by
  obtain ⟨hle, hbytes, hsource⟩ := write_eq_ok_iff.1 h
  exact write_eq_ok_iff.2 ⟨hle, hbytes, congrArg f hsource⟩

namespace Heap

variable (h : Heap) (d : Disguise)

/-- The heap in disguise. -/
def disguise : Heap where
  arena := { h.arena with source := d.source h.arena.source }
  layout := h.layout
  valid := h.valid
  head := h.head
  top := h.top
  exactLinks := d.checks h.exactLinks

theorem layout_disguise : (h.disguise d).layout = h.layout := rfl

theorem size_disguise : (h.disguise d).arena.size = h.arena.size := rfl

theorem arena_disguise (hd : d.source = id) : (h.disguise d).arena = h.arena := by
  simp only [disguise, hd, id]

theorem disguise_with_arena (hd : d.source = id) (arena : Arena) :
    { h.disguise d with arena } = ({ h with arena } : Heap).disguise d := by
  simp only [disguise, hd, id]

/-! ### What is looked up -/

theorem tag_disguise (pos : Nat) : (h.disguise d).tag pos = h.tag pos := rfl

theorem neighbour?_disguise (block : Nat) (l : Link) :
    (h.disguise d).neighbour? block l = h.neighbour? block l := rfl

theorem nextBlock?_disguise (block : Nat) :
    (h.disguise d).nextBlock? block = h.nextBlock? block := rfl

theorem prevBlock?_disguise (block : Nat) :
    (h.disguise d).prevBlock? block = h.prevBlock? block := rfl

theorem block_disguise (block : Nat) : (h.disguise d).block block = h.block block := rfl

theorem usableSize_disguise (p : Pointer) : (h.disguise d).usableSize p = h.usableSize p := rfl

theorem payload_disguise (p : Pointer) : (h.disguise d).payload p = h.payload p := rfl

theorem onlyFree_disguise (block : Option Nat) :
    (h.disguise d).onlyFree block = h.onlyFree block := by
  cases block <;> rfl

theorem roomAbove?_disguise (block oldSize need : Nat) :
    roomAbove? block oldSize need (h.disguise d) = roomAbove? block oldSize need h := by
  simp only [roomAbove?, nextBlock?_disguise, onlyFree_disguise, tag_disguise]

theorem bestFitFrom_disguise (need limit : Nat) (best : Option Candidate) (block : Option Nat) :
    (h.disguise d).bestFitFrom need limit best block = h.bestFitFrom need limit best block := by
  induction limit generalizing best block with
  | zero => cases block <;> rfl
  | succ limit ih =>
    cases block with
    | none => rfl
    | some block => simp only [bestFitFrom, tag_disguise, neighbour?_disguise, ih]

theorem bestFit?_disguise (need : Nat) : (h.disguise d).bestFit? need = h.bestFit? need := by
  simp only [bestFit?, bestFitFrom_disguise]
  rfl

theorem blocksFrom_disguise (limit : Nat) (block : Option Nat) :
    (h.disguise d).blocksFrom limit block = h.blocksFrom limit block := by
  induction limit generalizing block with
  | zero => rfl
  | succ limit ih =>
    cases block with
    | none => rfl
    | some block => simp only [blocksFrom, nextBlock?_disguise, block_disguise, ih]

theorem blocks_disguise (limit : Nat) : (h.disguise d).blocks limit = h.blocks limit := by
  simp only [blocks, blocksFrom_disguise]
  rfl

theorem freeBlocksFrom_disguise (limit : Nat) (block : Option Nat) :
    (h.disguise d).freeBlocksFrom limit block = h.freeBlocksFrom limit block := by
  induction limit generalizing block with
  | zero => rfl
  | succ limit ih =>
    cases block with
    | none => rfl
    | some block =>
      simp only [freeBlocksFrom, ih]
      rfl

theorem freeBlocks_disguise (limit : Nat) :
    (h.disguise d).freeBlocks limit = h.freeBlocks limit := by
  simp only [freeBlocks, freeBlocksFrom_disguise]
  rfl

theorem checkChain_disguise (limit : Nat) (block : Option Nat) (start : Nat) (afterFree : Bool) :
    (h.disguise d).checkChain limit block start afterFree =
      h.checkChain limit block start afterFree := by
  induction limit generalizing block start afterFree with
  | zero => cases block <;> rfl
  | succ limit ih =>
    cases block with
    | none => rfl
    | some block =>
      simp only [checkChain, ih]
      rfl

theorem checkList_disguise (free : List Nat) (unmet before : Nat) :
    (h.disguise d).checkList free unmet before = h.checkList free unmet before := by
  induction unmet generalizing before with
  | zero => rfl
  | succ unmet ih =>
    simp only [checkList, ih]
    rfl

theorem check_disguise : (h.disguise d).check = h.check := by
  simp only [check, audit, checkChain_disguise, concludeAudit, checkRing, checkList_disguise]
  rfl

/-! ### What is changed -/

variable {h} {h' : Heap} {block size target before after : Nat} {l : Link}

/-- Steps that are carried out one after the other. -/
theorem bind_disguise {β γ : Type} {x y : Except Fault Heap} {f : Heap → Except Fault β}
    {g : Heap → Except Fault γ} {b : β} {c : γ} (hrun : (x >>= f) = .ok b)
    (hx : ∀ h₁, x = .ok h₁ → y = .ok (h₁.disguise d))
    (hf : ∀ h₁, f h₁ = .ok b → g (h₁.disguise d) = .ok c) : (y >>= g) = .ok c := by
  obtain ⟨h₁, hx₁, hrun⟩ := exists_of_bind_ok hrun
  exact (bind_of_ok (hx h₁ hx₁)).trans (hf h₁ hrun)

theorem write_disguise {pos : Nat} {xs : List UInt8} (hrun : h.write pos xs = .ok h') :
    (h.disguise d).write pos xs = .ok (h'.disguise d) := by
  obtain ⟨a, ha, hh⟩ := exists_of_bind_ok hrun
  cases hh
  exact bind_of_ok (Arena.write_of_source d.source ha)

theorem setWord_disguise {pos : Nat} {w : UInt32} (hrun : h.setWord pos w = .ok h') :
    (h.disguise d).setWord pos w = .ok (h'.disguise d) :=
  write_disguise d (show h.write pos (Word.toBytes w) = .ok h' from hrun)

theorem setTag_disguise {pos : Nat} {used : Bool} (hrun : h.setTag pos size used = .ok h') :
    (h.disguise d).setTag pos size used = .ok (h'.disguise d) :=
  bind_ok_mono hrun fun _ hrun => setWord_disguise d hrun

theorem setTags_disguise {used : Bool} (hrun : h.setTags block size used = .ok h') :
    (h.disguise d).setTags block size used = .ok (h'.disguise d) :=
  bind_disguise d hrun (fun _ => setTag_disguise d) fun _ hrun =>
    bind_ok_mono hrun fun _ hrun => setTag_disguise d hrun

theorem setPayload_disguise {p : Pointer} {count : Nat} {byte : Nat → UInt8}
    (hrun : h.setPayload p count byte = .ok h') :
    (h.disguise d).setPayload p count byte = .ok (h'.disguise d) := by
  refine bind_ok_mono hrun fun size hrun => bind_ok_mono hrun fun stop hrun => ?_
  rw [size_disguise]
  split at hrun
  · rename_i hle
    rw [if_pos hle]
    exact write_disguise d hrun
  · cases hrun

theorem copyBytes_disguise {start count : Nat} (hrun : copyBytes start target count h = .ok h') :
    copyBytes start target count (h.disguise d) = .ok (h'.disguise d) :=
  bind_ok_mono hrun fun _ hrun => bind_ok_mono hrun fun _ hrun => write_disguise d hrun

/-- A check that is dropped does not fail. -/
theorem setLink_disguise (hrun : h.setLink block l target = .ok h') :
    (h.disguise d).setLink block l target = .ok (h'.disguise d) := by
  refine bind_ok_mono hrun fun pos hrun => ?_
  split at hrun
  · cases hrun
  · rename_i hexact
    rw [if_neg fun hinexact => hexact ⟨d.of_checks _ hinexact.1, hinexact.2⟩]
    exact setWord_disguise d hrun

theorem clearLink_disguise (hrun : h.clearLink block l = .ok h') :
    (h.disguise d).clearLink block l = .ok (h'.disguise d) :=
  bind_ok_mono hrun fun _ hrun => setWord_disguise d hrun

theorem splice_disguise (hrun : h.splice before after = .ok h') :
    (h.disguise d).splice before after = .ok (h'.disguise d) :=
  bind_disguise d hrun (fun _ => setLink_disguise d) fun _ => setLink_disguise d

theorem writeSentinels_disguise (hrun : h.writeSentinels = .ok h') :
    (h.disguise d).writeSentinels = .ok (h'.disguise d) := by
  refine bind_disguise d hrun (fun _ => setTags_disguise d) fun h₁ hrun => ?_
  refine bind_disguise d hrun (fun _ => setTags_disguise d) fun h₂ hrun => ?_
  refine bind_disguise d hrun (fun _ => splice_disguise d) fun h₃ hrun => ?_
  exact bind_disguise d hrun (fun _ => clearLink_disguise d) fun h₄ => clearLink_disguise d

theorem unlink_disguise (hrun : h.unlink block = .ok h') :
    (h.disguise d).unlink block = .ok (h'.disguise d) :=
  bind_ok_mono hrun fun _ hrun => bind_ok_mono hrun fun _ hrun => splice_disguise d hrun

theorem pushFront_disguise (hrun : h.pushFront block = .ok h') :
    (h.disguise d).pushFront block = .ok (h'.disguise d) :=
  bind_ok_mono hrun fun _ hrun =>
    bind_disguise d hrun (fun _ => splice_disguise d) fun _ => splice_disguise d

theorem listFree_disguise (hrun : h.listFree block size = .ok h') :
    (h.disguise d).listFree block size = .ok (h'.disguise d) :=
  bind_disguise d hrun (fun _ => setTags_disguise d) fun _ => pushFront_disguise d

theorem moveTop_disguise {α : Type} {a b : α} {m n : Nat}
    (hrun : (pure (a, h.moveTop m n) : Except Fault _) = .ok (b, h')) :
    (pure (a, (h.disguise d).moveTop m n) : Except Fault _) = .ok (b, h'.disguise d) := by
  have htop : (h.disguise d).moveTop m n = (h.moveTop m n).disguise d := by
    rw [moveTop, moveTop, apply_ite (fun h : Heap => h.disguise d)]
    rfl
  cases hrun
  rw [htop]
  rfl

theorem join_disguise {prev next : Option Nat} {merged : Nat}
    (hrun : h.join block size prev next = .ok (merged, h')) :
    (h.disguise d).join block size prev next = .ok (merged, h'.disguise d) := by
  cases prev <;> cases next
  case none.none =>
    refine bind_disguise d hrun (fun _ => pushFront_disguise d) fun h₁ hrun => ?_
    cases hrun
    rfl
  case none.some next =>
    refine bind_ok_mono hrun fun t hrun => bind_ok_mono hrun fun total hrun => ?_
    refine bind_disguise d hrun (fun _ => unlink_disguise d) fun h₁ hrun => ?_
    exact bind_disguise d hrun (fun _ => listFree_disguise d) fun h₂ => moveTop_disguise d
  case some.none prev =>
    refine bind_ok_mono hrun fun t hrun => bind_ok_mono hrun fun total hrun => ?_
    refine bind_disguise d hrun (fun _ => unlink_disguise d) fun h₁ hrun => ?_
    exact bind_disguise d hrun (fun _ => listFree_disguise d) fun h₂ => moveTop_disguise d
  case some.some prev next =>
    refine bind_ok_mono hrun fun t hrun => bind_ok_mono hrun fun total hrun => ?_
    refine bind_ok_mono hrun fun t hrun => bind_ok_mono hrun fun total hrun => ?_
    refine bind_disguise d hrun (fun _ => unlink_disguise d) fun h₁ hrun => ?_
    refine bind_disguise d hrun (fun _ => unlink_disguise d) fun h₂ hrun => ?_
    exact bind_disguise d hrun (fun _ => listFree_disguise d) fun h₃ => moveTop_disguise d

theorem merge_disguise {result : Merge} (hrun : h.merge block = .ok (result, h')) :
    (h.disguise d).merge block = .ok (result, h'.disguise d) := by
  simp only [merge, tag_disguise, prevBlock?_disguise, nextBlock?_disguise, onlyFree_disguise]
    at hrun ⊢
  refine bind_ok_mono hrun fun t hrun => bind_ok_mono hrun fun below hrun =>
    bind_ok_mono hrun fun prev hrun => bind_ok_mono hrun fun above hrun =>
    bind_ok_mono hrun fun next hrun => ?_
  obtain ⟨⟨merged, h₁⟩, hjoin, hrun⟩ := exists_of_bind_ok hrun
  obtain ⟨t', ht, hrun⟩ := exists_of_bind_ok hrun
  cases hrun
  exact (bind_of_ok (join_disguise d hjoin)).trans (bind_of_ok (r := (h₁.disguise d).tag merged) ht)

theorem carve_disguise {total need node : Nat} {result : Carving}
    (hrun : h.carve block total need node = .ok (result, h')) :
    (h.disguise d).carve block total need node = .ok (result, h'.disguise d) := by
  refine bind_ok_mono hrun fun before hrun => bind_ok_mono hrun fun after hrun =>
    bind_ok_mono hrun fun rest hrun => ?_
  rw [layout_disguise]
  split at hrun
  · rename_i hrest
    rw [if_pos hrest]
    refine bind_disguise d hrun (fun _ => setTags_disguise d) fun h₁ hrun =>
      bind_ok_mono hrun fun at' hrun => ?_
    refine bind_disguise d hrun (fun _ => setTags_disguise d) fun h₂ hrun => ?_
    refine bind_disguise d hrun (fun _ => splice_disguise d) fun h₃ hrun => ?_
    exact bind_disguise d hrun (fun _ => splice_disguise d) fun h₄ => moveTop_disguise d
  · rename_i hrest
    rw [if_neg hrest]
    refine bind_disguise d hrun (fun _ => splice_disguise d) fun h₁ hrun => ?_
    exact bind_disguise d hrun (fun _ => setTags_disguise d) fun h₂ => moveTop_disguise d

theorem cutDown_disguise {need rest : Nat} (hrun : cutDown block size need h = .ok (rest, h')) :
    cutDown block size need (h.disguise d) = .ok (rest, h'.disguise d) := by
  refine bind_ok_mono hrun fun at' hrun => bind_ok_mono hrun fun restSize hrun => ?_
  refine bind_disguise d hrun (fun _ => setTags_disguise d) fun h₁ hrun => ?_
  exact bind_disguise d hrun (fun _ => setTags_disguise d) fun h₂ => moveTop_disguise d

theorem addTopBlock_disguise {offset : Nat} (hrun : addTopBlock offset size h = .ok (block, h')) :
    addTopBlock offset size (h.disguise d) = .ok (block, h'.disguise d) := by
  refine bind_ok_mono hrun fun at' hrun => ?_
  refine bind_disguise d hrun (fun _ => setTags_disguise d) fun h₁ hrun => ?_
  cases hrun
  rfl

end Heap

namespace SessionM

variable {α β : Type} {d : Disguise} {s : Session}

theorem of_ask {query : Heap → Except Fault α} {s' : Session} {a : α}
    (h : ask query s = .ok a s') : s' = s ∧ query s.heap = .ok a := by
  unfold ask at h
  split at h
  · rename_i hquery
    cases h
    exact ⟨rfl, hquery⟩
  · cases h

/-- From the session on, the computation comes to the same in disguise, unless it faults, and logs
the same records. -/
def Parallel (d : Disguise) (act : SessionM α) (s : Session) : Prop :=
  ∃ records : Array Record, ∀ log, match act s with
    | .ok a s' => s'.log = s.log ++ records ∧
        act ⟨s.heap.disguise d, log⟩ = .ok a ⟨s'.heap.disguise d, log ++ records⟩
    | .error (.failed e) s' => s'.log = s.log ++ records ∧
        act ⟨s.heap.disguise d, log⟩ = .error (.failed e) ⟨s'.heap.disguise d, log ++ records⟩
    | .error (.fault _) _ => True

namespace Parallel

variable {act : SessionM α} {f : α → SessionM β}

/-- A computation that answers the same and logs nothing. -/
theorem of_ok {a : α} {h : Heap} (hact : act s = .ok a ⟨h, s.log⟩)
    (hact' : ∀ log, act ⟨s.heap.disguise d, log⟩ = .ok a ⟨h.disguise d, log⟩) :
    Parallel d act s := by
  refine ⟨#[], fun log => ?_⟩
  rw [hact]
  simpa only [Array.append_empty, true_and] using hact' log

theorem pure (a : α) : Parallel d (Pure.pure a) s := .of_ok rfl fun _ => rfl

theorem fail (e : HeapError) : Parallel d (SessionM.fail e : SessionM α) s :=
  ⟨#[], fun _ => ⟨Array.append_empty.symm, by rw [Array.append_empty]; rfl⟩⟩

theorem note (r : Record) : Parallel d (SessionM.note r) s := ⟨#[r], fun _ => ⟨rfl, rfl⟩⟩

theorem ask {query : Heap → Except Fault α} (h : query (s.heap.disguise d) = query s.heap) :
    Parallel d (SessionM.ask query) s := by
  cases hquery : query s.heap with
  | ok a => exact .of_ok (ask_ok hquery) fun log => ask_ok (h.trans hquery)
  | error f => exact ⟨#[], fun log => by simp only [SessionM.ask, hquery]⟩

theorem calculate (result : Except Fault α) : Parallel d (SessionM.calculate result) s := .ask rfl

theorem edit {change : Heap → Except Fault (α × Heap)}
    (h : ∀ a h', change s.heap = .ok (a, h') →
      change (s.heap.disguise d) = .ok (a, h'.disguise d)) :
    Parallel d (SessionM.edit change) s := by
  cases hrun : change s.heap with
  | ok r => exact .of_ok (edit_ok hrun) fun log => edit_ok (h _ _ hrun)
  | error f => exact ⟨#[], fun log => by simp only [SessionM.edit, hrun]⟩

theorem alter {change : Heap → Except Fault Heap}
    (h : ∀ h', change s.heap = .ok h' → change (s.heap.disguise d) = .ok (h'.disguise d)) :
    Parallel d (SessionM.alter change) s := by
  refine .edit fun a h' hrun => ?_
  obtain ⟨h₁, hchange, hrun⟩ := exists_of_bind_ok hrun
  cases hrun
  exact bind_of_ok (h _ hchange)

theorem bind (h : Parallel d act s) (hf : ∀ a s', act s = .ok a s' → Parallel d (f a) s') :
    Parallel d (act >>= f) s := by
  obtain ⟨records, hrun⟩ := h
  cases hact : act s with
  | ok a s' =>
    rw [hact] at hrun
    obtain ⟨records', hrun'⟩ := hf a s' hact
    refine ⟨records ++ records', fun log => ?_⟩
    obtain ⟨hlog, hact'⟩ := hrun log
    rw [bind_ok hact, bind_ok hact', ← Array.append_assoc, ← Array.append_assoc, ← hlog]
    exact hrun' (log ++ records)
  | error e s' =>
    rw [hact] at hrun
    refine ⟨records, fun log => ?_⟩
    rw [bind_error hact]
    cases e with
    | fault f => trivial
    | failed e =>
      obtain ⟨hlog, hact'⟩ := hrun log
      exact ⟨hlog, bind_error hact'⟩

theorem of_get {f : Session → SessionM β} (h : Parallel d (f s) s)
    (hf : ∀ log, f ⟨s.heap.disguise d, log⟩ = f s) : Parallel d (get >>= f) s := by
  obtain ⟨records, hrun⟩ := h
  refine ⟨records, fun log => ?_⟩
  rw [get_bind, get_bind, hf]
  exact hrun log

theorem noteError {record : HeapError → Record} (h : Parallel d act s) :
    Parallel d (SessionM.noteError act record) s := by
  obtain ⟨records, hrun⟩ := h
  cases hact : act s with
  | ok a s' =>
    rw [hact] at hrun
    refine ⟨records, fun log => ?_⟩
    rw [noteError_ok hact]
    exact ⟨(hrun log).1, noteError_ok (hrun log).2⟩
  | error e s' =>
    rw [hact] at hrun
    cases e with
    | fault f => exact ⟨records, fun log => by simp only [SessionM.noteError, hact]⟩
    | failed e =>
      refine ⟨records.push (record e), fun log => ?_⟩
      obtain ⟨hlog, hact'⟩ := hrun log
      rw [noteError_failed hact, noteError_failed hact', ← Array.push_append, ← Array.push_append,
        ← hlog]
      exact ⟨rfl, rfl⟩

theorem growArena {n : Nat} (h : d.Withstands s.heap.arena n) :
    Parallel d (SessionM.growArena n) s := by
  refine ⟨#[], fun log => ?_⟩
  cases hgrow : Arena.grow n s.heap.arena with
  | ok offset arena =>
    have hgrow' : Arena.grow n (s.heap.disguise d).arena = _ := h.ok hgrow
    simp only [SessionM.growArena, hgrow, hgrow', Array.append_empty, true_and]
    rfl
  | error e arena =>
    cases e with
    | fault f => simp only [SessionM.growArena, hgrow]
    | failed e =>
      have hgrow' : Arena.grow n (s.heap.disguise d).arena = _ := h.failed hgrow
      simp only [SessionM.growArena, hgrow, hgrow', Array.append_empty, true_and]
      rfl

theorem run_ok {a : α} {s' : Session} (h : Parallel d act s) (hact : act s = .ok a s') :
    act ⟨s.heap.disguise d, s.log⟩ = .ok a ⟨s'.heap.disguise d, s'.log⟩ := by
  obtain ⟨records, hrun⟩ := h
  obtain ⟨hlog, hact'⟩ : s'.log = s.log ++ records ∧ _ := by
    have hrun := hrun s.log
    rwa [hact] at hrun
  rwa [hlog]

/-- What takes no notice of another source does not ask it for anything. -/
theorem source_eq {a : α} {s' : Session} (h : Parallel (.supply s.heap.arena.source) act s)
    (hact : act s = .ok a s') : s'.heap.arena.source = s.heap.arena.source := by
  have hsame := hact.symm.trans (h.run_ok hact)
  rw [EStateM.Result.ok.injEq] at hsame
  exact congrArg (·.heap.arena.source) hsame.2

end Parallel

end SessionM

open SessionM

variable {d : Disguise} {s : Session} {size : Nat}

theorem parallel_mergeBlock (block : Nat) : Parallel d (mergeBlock block) s :=
  (Parallel.edit fun _ _ hrun => Heap.merge_disguise d hrun).bind fun _ _ _ =>
    (Parallel.note _).bind fun _ _ _ => .pure _

theorem parallel_carveBlock (block total need node : Nat) :
    Parallel d (carveBlock block total need node) s :=
  (Parallel.edit fun _ _ hrun => Heap.carve_disguise d hrun).bind fun _ _ _ => .note _

theorem parallel_occupy (block need : Nat) : Parallel d (occupy block need) s :=
  (Parallel.ask (s.heap.tag_disguise d block)).bind fun _ _ _ => parallel_carveBlock _ _ _ _

theorem parallel_releaseBlock (p : Pointer) : Parallel d (releaseBlock p) s := by
  refine (Parallel.calculate _).bind fun block s₁ _ => ?_
  refine (Parallel.ask (s₁.heap.tag_disguise d block)).bind fun t s₂ _ => ?_
  refine (Parallel.alter fun _ hrun => Heap.setTags_disguise d hrun).bind fun _ s₃ _ => ?_
  exact (parallel_mergeBlock block).bind fun _ _ _ => .note _

theorem parallel_release (p : Option Pointer) : Parallel d (release p) s := by
  cases p with
  | none => exact .pure _
  | some p => exact parallel_releaseBlock p

theorem parallel_shrink (block oldSize need size : Nat) :
    Parallel d (shrink block oldSize need size) s := by
  refine .of_get ?_ fun _ => rfl
  split
  · exact (Parallel.edit fun _ _ hrun => Heap.cutDown_disguise d hrun).bind fun rest _ _ =>
      (parallel_mergeBlock rest).bind fun _ _ _ => .note _
  · exact .note _

theorem parallel_afterGrowth (offset size : Nat) : Parallel d (afterGrowth offset size) s :=
  (Parallel.edit fun _ _ hrun => Heap.addTopBlock_disguise d hrun).bind fun block _ _ =>
    (Parallel.note _).bind fun _ _ _ => parallel_mergeBlock block

theorem parallel_growFor (need : Nat)
    (h : ∀ n ∈ growthFor? s.heap need, d.Withstands s.heap.arena n) :
    Parallel d (growFor need) s := by
  refine .of_get ?_ fun _ => rfl
  cases hsize : growthFor? s.heap need with
  | none => exact .fail _
  | some size =>
    exact (Parallel.growArena (h size hsize)).noteError.bind fun offset _ _ =>
      parallel_afterGrowth offset size

/-- A size is only answered if it suits a block and a tag. -/
theorem blockSize_ok {need : Nat} {s' : Session} (h : blockSize size s = .ok need s') :
    s' = s ∧ s.heap.layout.blockSizeFor? size = some need ∧ need ≤ maxTagged := by
  rw [blockSize, get_bind] at h
  cases hfor : s.heap.layout.blockSizeFor? size with
  | none =>
    rw [hfor] at h
    cases h
  | some n =>
    simp only [hfor] at h
    by_cases hle : n ≤ maxTagged
    · rw [if_pos hle] at h
      cases h
      exact ⟨rfl, rfl, hle⟩
    · rw [if_neg hle] at h
      cases h

theorem parallel_blockSize (size : Nat) : Parallel d (blockSize size) s := by
  refine .of_get ?_ fun _ => rfl
  split
  · exact .fail _
  · split
    · exact .pure _
    · exact .fail _

/-! ### Requests -/

namespace Heap

/-- The block of `p` is smaller than `need`, also together with the block above it if that is
free. -/
def Cramped (h : Heap) (p : Pointer) (need : Nat) : Prop :=
  ∃ block t, p.header = .ok block ∧ h.tag block = .ok t ∧ t.size < need ∧
    roomAbove? block t.size need h = .ok none

/-- A request for `size` bytes is served by new bytes of the arena or not at all.  If it is for the
block of a pointer, that has no room for them either. -/
def NeedsGrowth (h : Heap) (p : Option Pointer) (size : Nat) : Prop :=
  size ≠ 0 ∧ ∃ need, h.layout.blockSizeFor? size = some need ∧ need ≤ maxTagged ∧
    h.bestFit? need = .ok none ∧ ∀ q ∈ p, h.Cramped q need

instance (h : Heap) (p : Pointer) (need : Nat) : Decidable (h.Cramped p need) :=
  match hp : p.header with
  | .error _ => isFalse (by simp [Cramped, hp])
  | .ok block =>
    match ht : h.tag block with
    | .error _ => isFalse (by simp [Cramped, hp, ht])
    | .ok t =>
      decidable_of_iff (t.size < need ∧ roomAbove? block t.size need h = .ok none)
        (by simp [Cramped, hp, ht])

instance (h : Heap) (p : Option Pointer) (size : Nat) : Decidable (h.NeedsGrowth p size) :=
  match hn : h.layout.blockSizeFor? size with
  | none => isFalse (by simp [NeedsGrowth, hn])
  | some need =>
    decidable_of_iff (size ≠ 0 ∧ need ≤ maxTagged ∧ h.bestFit? need = .ok none ∧
      ∀ q ∈ p, h.Cramped q need) (by simp [NeedsGrowth, hn])

/-- The request makes the arena grow by `n` bytes, if it is given them. -/
def Asks (h : Heap) (p : Option Pointer) (size n : Nat) : Prop :=
  h.NeedsGrowth p size ∧
    ∃ need, h.layout.blockSizeFor? size = some need ∧ growthFor? h need = some n

theorem needsGrowth_disguise (h : Heap) (d : Disguise) (p : Option Pointer) (size : Nat) :
    (h.disguise d).NeedsGrowth p size ↔ h.NeedsGrowth p size := by
  simp only [NeedsGrowth, Cramped, layout_disguise, bestFit?_disguise, tag_disguise,
    roomAbove?_disguise]

end Heap

theorem parallel_allocate (h : ∀ n, s.heap.Asks none size n → d.Withstands s.heap.arena n) :
    Parallel d (allocate size) s := by
  unfold allocate
  by_cases hpos : size = 0
  · rw [if_pos hpos]
    exact .pure none
  rw [if_neg hpos]
  refine (parallel_blockSize size).bind fun need s₁ hneed => ?_
  obtain ⟨rfl, hfor, hle⟩ := blockSize_ok hneed
  refine (Parallel.ask (s₁.heap.bestFit?_disguise d need)).bind fun fit s₂ hfit => ?_
  obtain ⟨rfl, hfit⟩ := of_ask hfit
  cases fit with
  | some block =>
    exact (parallel_occupy block need).bind fun _ _ _ => (Parallel.note _).bind fun _ _ _ => .pure _
  | none =>
    have hneeds : s₂.heap.NeedsGrowth none size := ⟨hpos, need, hfor, hle, hfit, by simp⟩
    have hgrow := parallel_growFor need fun n hn => h n ⟨hneeds, need, hfor, hn⟩
    exact hgrow.noteError.bind fun block _ _ =>
      (parallel_occupy block need).bind fun _ _ _ => (Parallel.note _).bind fun _ _ _ => .pure _

theorem parallel_moveBlock (p : Pointer) (block oldSize : Nat)
    (h : ∀ n, s.heap.Asks none size n → d.Withstands s.heap.arena n) :
    Parallel d (moveBlock p block oldSize size) s := by
  refine (parallel_allocate h).bind fun r s₁ _ => ?_
  cases r with
  | none => exact .pure none
  | some q =>
    refine (Parallel.calculate _).bind fun room s₂ _ => ?_
    refine (Parallel.alter fun _ hrun => Heap.copyBytes_disguise d hrun).bind fun _ s₃ _ => ?_
    exact (parallel_releaseBlock p).bind fun _ _ _ => (Parallel.calculate _).bind fun _ _ _ =>
      (Parallel.note _).bind fun _ _ _ => .pure _

theorem parallel_resizeBlock (p : Pointer) (hpos : size ≠ 0)
    (h : ∀ n, s.heap.Asks (some p) size n → d.Withstands s.heap.arena n) :
    Parallel d (resizeBlock p size) s := by
  refine (parallel_blockSize size).bind fun need s₁ hneed => ?_
  obtain ⟨rfl, hfor, hle⟩ := blockSize_ok hneed
  refine (Parallel.calculate _).bind fun block s₂ hblock => ?_
  obtain ⟨rfl, hheader⟩ := of_ask hblock
  refine (Parallel.ask (s₂.heap.tag_disguise d block)).bind fun t s₃ ht => ?_
  obtain ⟨rfl, ht⟩ := of_ask ht
  dsimp only
  split
  · exact .pure _
  split
  · exact (parallel_shrink _ _ _ _).bind fun _ _ _ => .pure _
  refine (Parallel.ask (s₃.heap.roomAbove?_disguise d block t.size need)).bind
    fun room s₄ hroom => ?_
  obtain ⟨rfl, hroom⟩ := of_ask hroom
  cases room with
  | some room =>
    exact (parallel_carveBlock _ _ _ _).bind fun _ _ _ =>
      (Parallel.note _).bind fun _ _ _ => .pure _
  | none =>
    refine parallel_moveBlock p block t.size ?_
    rintro n ⟨⟨-, need', hfor', -, hfit, -⟩, hasks⟩
    obtain rfl := Option.some.inj (hfor.symm.trans hfor')
    refine h n ⟨⟨hpos, need, hfor, hle, hfit, ?_⟩, hasks⟩
    rintro _ ⟨⟩
    exact ⟨block, t, hheader, ht, by omega, hroom⟩

theorem parallel_resize (p : Option Pointer)
    (h : ∀ n, s.heap.Asks p size n → d.Withstands s.heap.arena n) :
    Parallel d (resize p size) s := by
  unfold resize
  by_cases hpos : size = 0
  · rw [if_pos hpos]
    exact (parallel_release p).bind fun _ _ _ => .pure _
  rw [if_neg hpos]
  cases p with
  | none => exact parallel_allocate h
  | some p => exact parallel_resizeBlock p hpos h

theorem parallel_allocateCleared (bytes : Nat)
    (h : ∀ n, s.heap.Asks none bytes n → d.Withstands s.heap.arena n) :
    Parallel d (allocateCleared bytes) s := by
  refine (parallel_allocate h).bind fun r s₁ _ => ?_
  cases r with
  | none => exact .pure none
  | some p =>
    exact (Parallel.alter fun _ hrun => Heap.setPayload_disguise d hrun).bind
      fun _ _ _ => .pure _

theorem parallel_zeroAllocate (count size : Nat)
    (h : ∀ n, s.heap.Asks none (count * size % Address.space) n → d.Withstands s.heap.arena n) :
    Parallel d (zeroAllocate count size) s := by
  unfold zeroAllocate
  split
  · refine (Parallel.note _).bind fun _ s₁ hnote => parallel_allocateCleared _ ?_
    cases hnote
    exact h
  · exact parallel_allocateCleared _ h

end TaggedHeap
