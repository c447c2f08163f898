import TaggedHeap.Proofs.Carve
import TaggedHeap.Proofs.Prologue

/-!
# Steps of a session

A request changes the heap in a few steps: a block is merged with its neighbours, a stretch is
carved, the arena grows.  Each step takes a sound heap to a sound heap, and `Heap.Evolves` says
what it leaves alone: where the heap lies, and the bytes at certain offsets.  These always
include everything below the heap and all other blocks in use (`Heap.safe`), since links are
only kept in free blocks and tags only change in blocks that are reshaped
(`Heap.Holds.safe_disjoint`).
-/

namespace TaggedHeap

namespace Heap

variable {h h' h'' : Heap} {v : View} {pre mid post : List Span} {ring : List Nat} {a : Arena}
  {s t : Set Nat}

/-- Offsets below the heap, and those of the given blocks. -/
def safe (h : Heap) (xs : List Span) : Set Nat := {i | i < h.head ∨ i ∈ Span.area xs}

/-- `h'` is what became of `h`, with the bytes at the offsets in `kept` as they were. -/
structure Evolves (h h' : Heap) (kept : Set Nat) : Prop where
  /-- The layout is fixed. -/
  layout_eq : h'.layout = h.layout
  /-- The heap does not move. -/
  head_eq : h'.head = h.head
  /-- Links are stored in the same way. -/
  exactLinks_eq : h'.exactLinks = h.exactLinks
  /-- The limit of the buffer, if there is one, is fixed. -/
  limit_eq : h'.arena.limit? = h.arena.limit?
  /-- The arena is not larger than a heap may become. -/
  size_le : h'.arena.size ≤ maxTagged
  /-- These bytes are what they were. -/
  keeps : h.arena.Keeps h'.arena kept

namespace Evolves

theorem refl (hsize : h.arena.size ≤ maxTagged) (s : Set Nat) : h.Evolves h s :=
  ⟨rfl, rfl, rfl, rfl, hsize, .refl _ _⟩

theorem mono (he : h.Evolves h' t) (hst : s ⊆ t) : h.Evolves h' s :=
  { he with keeps := he.keeps.mono hst }

theorem trans (he : h.Evolves h' s) (he' : h'.Evolves h'' s) : h.Evolves h'' s where
  layout_eq := he'.layout_eq.trans he.layout_eq
  head_eq := he'.head_eq.trans he.head_eq
  exactLinks_eq := he'.exactLinks_eq.trans he.exactLinks_eq
  limit_eq := he'.limit_eq.trans he.limit_eq
  size_le := he'.size_le
  keeps := he.keeps.trans he'.keeps

theorem of_edit (hsize : h.arena.size ≤ maxTagged) (hedit : h.arena.Edit a s)
    (hst : ∀ i ∈ t, i ∉ s) (top : Nat) : h.Evolves { h with arena := a, top } t where
  layout_eq := rfl
  head_eq := rfl
  exactLinks_eq := rfl
  limit_eq := by rw [Arena.limit?, Arena.limit?, hedit.source_eq]
  size_le := hedit.size_eq ▸ hsize
  keeps := hedit.keeps.mono hst

theorem safe_eq (he : h.Evolves h' s) (xs : List Span) : h'.safe xs = h.safe xs := by
  rw [safe, safe, he.head_eq]

end Evolves

/-- `h'` is `h`, except perhaps for what its arena grows from. -/
structure Stays (h h' : Heap) : Prop where
  /-- Nothing else changes. -/
  eq : ∃ source, h' = { h with arena := { h.arena with source } }
  /-- The limit of the buffer, if there is one, is fixed. -/
  limit_eq : h'.arena.limit? = h.arena.limit?

namespace Stays

theorem refl (h : Heap) : h.Stays h := ⟨⟨h.arena.source, rfl⟩, rfl⟩

theorem evolves (hs : h.Stays h') (hsize : h.arena.size ≤ maxTagged) (s : Set Nat) :
    h.Evolves h' s := by
  obtain ⟨⟨source, rfl⟩, hlimit⟩ := hs
  exact ⟨rfl, rfl, rfl, hlimit, hsize, ⟨Nat.le_refl _, fun _ _ => rfl⟩⟩

theorem sound (hs : h.Stays h') (hv : h.Sound v) : h'.Sound v := by
  obtain ⟨⟨source, rfl⟩, -⟩ := hs
  exact hv.with_source source

end Stays

theorem safe_mono {xs ys : List Span} (hxs : xs ⊆ ys) : h.safe xs ⊆ h.safe ys :=
  fun _ hi => hi.imp_right fun ⟨x, hx, hix⟩ => ⟨x, hxs hx, hix⟩

theorem Holds.safe_subset (hv : h.Holds v) {xs : List Span} (hxs : xs ⊆ v.spans) :
    h.safe xs ⊆ {i | i < h.arena.size} := by
  rintro i (hlow | ⟨x, hx, hix⟩)
  · have hbounds := hv.bounds (x := ⟨h.head, h.layout.minBlock, false⟩) (by simp [chain, sentinels])
    exact hlow.trans (by omega)
  · have hbounds := hv.bounds (mem_chain_of_mem (hxs hx))
    rw [Span.mem_bytes, Span.stop] at hix
    exact hix.2.trans_le (by omega)

/-- Neither links nor blocks that are reshaped reach into other blocks in use. -/
theorem Holds.safe_disjoint (hv : h.Holds ⟨pre ++ mid ++ post, ring⟩)
    (hring : ring ⊆ Span.freeHeaders (pre ++ mid ++ post)) {i : Nat}
    (hi : i ∈ h.safe (Span.used (pre ++ post))) : i ∉ h.ringBytes ring ∪ Span.area mid := by
  rcases hi with hlow | ⟨x, hx, hix⟩
  · rintro (⟨n, hn, hni⟩ | ⟨y, hy, hiy⟩)
    · obtain ⟨y, hy, rfl⟩ := hv.mem_nodes hn
      have := hv.bounds hy
      omega
    · have := hv.bounds (mem_chain_of_mem (x := y) (by simp [hy]))
      rw [Span.mem_bytes] at hiy
      omega
  · obtain ⟨hx, hfree⟩ := Span.mem_used.1 hx
    have hmx : x ∈ pre ++ mid ++ post := by
      simp only [List.mem_append] at hx ⊢
      tauto
    have hunlisted : x.offset ∉ ring := fun hmem => by
      obtain ⟨y, hy, hyfree, hxy⟩ := Span.mem_freeHeaders.1 (hring hmem)
      have := hv.tiles.offset_inj h.valid (mem_chain_of_mem hy) (mem_chain_of_mem hmx) hxy
      simp [this, hfree] at hyfree
    rintro (hi | ⟨y, hy, hiy⟩)
    · exact hv.not_mem_ringBytes (mem_chain_of_mem hmx) (hv.not_mem_nodes hmx hunlisted) hix hi
    · have hmy : y ∈ pre ++ mid ++ post := by simp [hy]
      obtain rfl := hv.eq_of_mem_bytes (mem_chain_of_mem hmx) (mem_chain_of_mem hmy) hix hiy
      have hnodup := hv.nodup_offsets.of_map _
      simp only [List.nodup_append, List.mem_append] at hnodup hx
      grind

/-- Neither links nor blocks that are merged reach into other blocks in use. -/
theorem Unmerged.safe_disjoint {left right : Option Span} {x : Span}
    (hu : h.Unmerged pre left x right post ring) {i : Nat}
    (hi : i ∈ h.safe (Span.used (pre ++ post))) :
    i ∉ h.ringBytes ring ∪ Span.area (left.toList ++ x :: right.toList) := by
  refine hu.holds.safe_disjoint (fun n hn => ?_) hi
  have := hu.listed.subset hn
  rw [Span.mem_freeHeaders] at this ⊢
  obtain ⟨y, hy, hfree⟩ := this
  refine ⟨y, ?_, hfree⟩
  simp only [List.mem_append, List.mem_cons] at hy ⊢
  tauto

end Heap

namespace SessionM

variable {α β : Type} {s s' : Session} {a : α} {e : Stop}

theorem bind_ok {act : SessionM α} {f : α → SessionM β} (h : act s = .ok a s') :
    (act >>= f) s = f a s' := by
  simp only [bind, EStateM.bind, h]

theorem bind_error {act : SessionM α} {f : α → SessionM β} (h : act s = .error e s') :
    (act >>= f) s = .error e s' := by
  simp only [bind, EStateM.bind, h]

theorem get_bind {f : Session → SessionM β} : (get >>= f) s = f s s := rfl

theorem ask_ok {query : Heap → Except Fault α} (h : query s.heap = .ok a) :
    ask query s = .ok a s := by
  simp only [ask, h]

theorem edit_ok {change : Heap → Except Fault (α × Heap)} {heap : Heap}
    (h : change s.heap = .ok (a, heap)) : edit change s = .ok a { s with heap } := by
  simp only [edit, h]

theorem alter_ok {change : Heap → Except Fault Heap} {heap : Heap}
    (h : change s.heap = .ok heap) : alter change s = .ok () { s with heap } :=
  edit_ok (by simp only [h, ok_bind, pure_eq_ok])

theorem noteError_ok {act : SessionM α} {record : HeapError → Record} (h : act s = .ok a s') :
    noteError act record s = .ok a s' := by
  simp only [noteError, h]

theorem of_noteError {act : SessionM α} {record : HeapError → Record}
    (h : noteError act record s = .ok a s') : act s = .ok a s' := by
  unfold noteError at h
  split at h
  · cases h
  · exact h

theorem failed_of_noteError {act : SessionM α} {record : HeapError → Record}
    (h : noteError act record s = .error e s') : ∃ log, act s = .error e ⟨s'.heap, log⟩ := by
  unfold noteError at h
  split at h
  · rename_i s₁ hact
    cases h
    exact ⟨s₁.log, hact⟩
  · exact ⟨s'.log, h⟩

theorem noteError_failed {act : SessionM α} {record : HeapError → Record} {e : HeapError}
    (h : act s = .error (.failed e) s') :
    noteError act record s = .error (.failed e) { s' with log := s'.log.push (record e) } := by
  simp only [noteError, h]

/-- The computation answers, with `post` true of the answer and the heap, or it is refused memory
and leaves the heap as it was. -/
def Answers (act : SessionM α) (s : Session) (post : α → Heap → Prop) : Prop :=
  (∃ a h log, act s = .ok a ⟨h, log⟩ ∧ post a h) ∨
    ∃ m h log, act s = .error (.failed (.outOfMemory m)) ⟨h, log⟩ ∧ s.heap.Stays h

namespace Answers

variable {act : SessionM α} {f : α → SessionM β} {post post' : α → Heap → Prop}
  {goal : β → Heap → Prop}

/-- What comes after the only part that can be refused memory. -/
theorem bind (h : Answers act s post) (hf : ∀ a h' log, post a h' →
    ∃ b h'' log', f a ⟨h', log⟩ = .ok b ⟨h'', log'⟩ ∧ goal b h'') :
    Answers (act >>= f) s goal := by
  rcases h with ⟨a, h', log, ha, hpost⟩ | ⟨m, h', log, ha, hstays⟩
  · obtain ⟨b, h'', log', hb, hgoal⟩ := hf a h' log hpost
    exact .inl ⟨b, h'', log', (bind_ok ha).trans hb, hgoal⟩
  · exact .inr ⟨m, h', log, bind_error ha, hstays⟩

theorem of_ok (h : Answers act s post) (hrun : act s = .ok a s') : post a s'.heap := by
  rcases h with ⟨a', h', log, ha, hpost⟩ | ⟨m, h', log, ha, -⟩
  · cases hrun.symm.trans ha
    exact hpost
  · cases hrun.symm.trans ha

theorem mono (h : Answers act s post) (himp : ∀ a h', post a h' → post' a h') :
    Answers act s post' :=
  h.imp_left fun ⟨a, h', log, ha, hpost⟩ => ⟨a, h', log, ha, himp a h' hpost⟩

theorem noteError {record : HeapError → Record} (h : Answers act s post) :
    Answers (noteError act record) s post := by
  rcases h with ⟨a, h', log, ha, hpost⟩ | ⟨m, h', log, ha, hstays⟩
  · exact .inl ⟨a, h', log, noteError_ok ha, hpost⟩
  · exact .inr ⟨m, h', _, noteError_failed ha, hstays⟩

end Answers

end SessionM

open Heap SessionM

/-! ### Parts of requests -/

/-- What is left of growing the heap once the arena has grown. -/
def afterGrowth (offset size : Nat) : SessionM Nat := do
  let block ← edit (addTopBlock offset size)
  note (.heapGrown size block)
  mergeBlock block

/-- What is left of a request for cleared memory once its size is known. -/
def allocateCleared (bytes : Nat) : SessionM (Option Pointer) := do
  match ← allocate bytes with
  | none => return none
  | some p =>
    alter (·.setPayload p bytes fun _ => 0)
    return some p

section ZeroAllocate

variable {s : Session} {count size : Nat}

theorem zeroAllocate_of_lt (hlt : count * size < Address.space) :
    zeroAllocate count size = allocateCleared (count * size % Address.space) := by
  have hfits : ¬ Address.space ≤ count * size := Nat.not_le.2 hlt
  unfold zeroAllocate
  split
  · contradiction
  · rfl

theorem zeroAllocate_of_le (hle : Address.space ≤ count * size) :
    zeroAllocate count size s = allocateCleared (count * size % Address.space)
      { s with log := s.log.push (.productWrapped count size) } := by
  unfold zeroAllocate
  split
  · rfl
  · contradiction

/-- The warning about a product that does not fit changes nothing but the log. -/
theorem zeroAllocate_eq (count size : Nat) (s : Session) : ∃ log,
    zeroAllocate count size s = allocateCleared (count * size % Address.space) ⟨s.heap, log⟩ := by
  rcases Nat.lt_or_ge (count * size) Address.space with hlt | hle
  · exact ⟨s.log, by rw [zeroAllocate_of_lt hlt]⟩
  · exact ⟨_, zeroAllocate_of_le hle⟩

end ZeroAllocate

/-! ### Steps -/

variable {s : Session} {pre post low : List Span} {left right : Option Span} {x node : Span}
  {ring before after : List Nat} {need : Nat}

/-- **Merging a block** with its free neighbours. -/
theorem mergeBlock_spec (hu : s.heap.Unmerged pre left x right post ring)
    (hsize : s.heap.arena.size ≤ maxTagged) :
    ∃ h' log, mergeBlock x.offset s = .ok (Span.merged left x right).offset ⟨h', log⟩ ∧
      h'.Sound ⟨pre ++ [Span.merged left x right] ++ post, (Span.merged left x right).offset ::
        ring.diff ((left.toList ++ right.toList).map Span.offset)⟩ ∧
      s.heap.Evolves h' (s.heap.safe (Span.used (pre ++ post))) ∧
      h'.arena.size = s.heap.arena.size := by
  obtain ⟨a, ha, hedit, hv⟩ := hu.merge hsize
  exact ⟨_, _, (bind_ok (edit_ok ha)).trans rfl, hv,
    .of_edit hsize hedit (fun i hi => hu.safe_disjoint hi) _, hedit.size_eq⟩

/-- **Carving a stretch** that ends with a listed free block. -/
theorem carveBlock_spec (hc : s.heap.Carvable pre low node post before after)
    (hsize : s.heap.arena.size ≤ maxTagged) (hx : (low ++ [node]).head? = some x) {total : Nat}
    (htotal : Span.totalSize (low ++ [node]) = total) (hneed : s.heap.layout.Admits need)
    (hle : need ≤ total) :
    ∃ h' log, carveBlock x.offset total need node.offset s = .ok () ⟨h', log⟩ ∧
      h'.Sound ⟨pre ++ Span.carved s.heap.layout x total need ++ post,
        before ++ Span.freeHeaders (Span.carved s.heap.layout x total need) ++ after⟩ ∧
      s.heap.Evolves h' (s.heap.safe (Span.used (pre ++ post)) ∪
        (Span.mk x.offset need false).inner) ∧
      h'.arena.size = s.heap.arena.size := by
  obtain ⟨a, result, ha, hedit, hv⟩ := hc.carve hsize hx htotal hneed hle
  have hring := hv.listed.subset
  refine ⟨_, _, (bind_ok (edit_ok ha)).trans rfl, hv, .of_edit hsize hedit ?_ _, hedit.size_eq⟩
  rintro i (hi | hi)
  · have hmiss := hv.holds.safe_disjoint hring hi
    rintro (hi' | ⟨y, hy, hiy⟩)
    · exact hmiss (.inl hi')
    · have := hv.holds.bounds (mem_chain_of_mem (x := y) (by simp [hy]))
      exact hmiss (.inr ⟨y, hy, Span.tagBytes_subset (by omega) hiy⟩)
  · -- the new block is in use, and only its tags are written
    have hmt := Span.taken_mem_carved s.heap.layout x total need
    have hms : Span.taken s.heap.layout x total need ∈
        pre ++ Span.carved s.heap.layout x total need ++ post := by simp [hmt]
    have hlt := Span.inner_subset_taken (l := s.heap.layout) hle hi
    rintro (hi' | ⟨y, hy, hiy⟩)
    · have hmx := mem_chain_of_mem (h := s.heap) hms
      refine hv.holds.not_mem_ringBytes hmx (hv.holds.not_mem_nodes hms ?_) hlt hi'
      rw [hv.mem_ring_iff hms]
      simp [Span.taken]
    · exact Span.inner_disjoint_carved hle hi hy hiy

/-- **Occupying a free block.** -/
theorem occupy_spec (hv : s.heap.Sound ⟨pre ++ [node] ++ post, before ++ node.offset :: after⟩)
    (hsize : s.heap.arena.size ≤ maxTagged) (hneed : s.heap.layout.Admits need)
    (hle : need ≤ node.size) :
    ∃ h' log, occupy node.offset need s = .ok () ⟨h', log⟩ ∧
      h'.Sound ⟨pre ++ Span.carved s.heap.layout node node.size need ++ post,
        before ++ Span.freeHeaders (Span.carved s.heap.layout node node.size need) ++ after⟩ ∧
      s.heap.Evolves h' (s.heap.safe (Span.used (pre ++ post))) ∧
      h'.arena.size = s.heap.arena.size := by
  have hc : s.heap.Carvable pre [] node post before after := ⟨hv, by simp⟩
  obtain ⟨t, ht, hsize', -⟩ := hv.holds.tag_eq (mem_chain_of_mem (x := node) (by simp))
  obtain ⟨h', log, hrun, hv', he, hsame⟩ :=
    carveBlock_spec hc hsize rfl (show _ = node.size by simp) hneed hle
  refine ⟨h', log, ?_, hv', he.mono Set.subset_union_left, hsame⟩
  rw [occupy, bind_ok (ask_ok ht), hsize', hrun]

/-- **The new bytes** become a free block on top of the others, joined with the topmost block if
that is free. -/
theorem afterGrowth_spec {h : Heap} {b : Arena} (hv : h.Sound ⟨pre ++ left.toList, ring⟩)
    (hleft : ∀ y ∈ left, y.free) (hbelow : ∀ y, Span.Separated (pre ++ [y]))
    (hneed : h.layout.Admits need) (hcap : h.arena.size + need ≤ maxTagged)
    (hkeep : h.arena.Keeps b {i | i < h.arena.size}) (hb : b.size = h.arena.size + need)
    (hlimit : b.limit? = h.arena.limit?)
    (hx : x = Span.merged left ⟨h.arena.size - 4, need, true⟩ none) (log : Array Record) :
    ∃ h' log', afterGrowth h.arena.size need ⟨{ h with arena := b }, log⟩ =
        .ok x.offset ⟨h', log'⟩ ∧
      h'.Sound ⟨pre ++ [x], x.offset :: ring.diff (left.toList.map Span.offset)⟩ ∧
      h.Evolves h' (h.safe (Span.used pre)) ∧ h'.arena.size = h.arena.size + need := by
  obtain ⟨c, hc, hedit, hu⟩ :=
    addTopBlock_spec hv hleft hbelow hneed hkeep hb (by rw [hb]; exact hcap)
  -- the new block lies above all others
  have hgrown : h.Evolves { h with arena := c, top := h.arena.size - 4 }
      (h.safe (Span.used pre)) := by
    have hsafe := hv.holds.safe_subset fun x hx =>
      List.mem_append_left left.toList (Span.mem_used.1 hx).1
    refine ⟨rfl, rfl, rfl, ?_, ?_, (hkeep.mono hsafe).trans
      (hedit.keeps.mono fun i hi hi' => ?_)⟩
    · rw [← hlimit, Arena.limit?, Arena.limit?, hedit.source_eq]
    · exact (hedit.size_eq.trans hb).trans_le hcap
    · rw [← List.append_nil pre] at hi
      exact hu.safe_disjoint hi (.inr ⟨_, by simp, Span.tagBytes_subset
        (show 8 ≤ need by have := hneed.le h.valid; omega) hi'⟩)
  obtain ⟨h', log', hrun, hv', he, hsame⟩ := mergeBlock_spec
    (s := ⟨_, log.push (.heapGrown need (h.arena.size - 4))⟩) hu hgrown.size_le
  have hgrow : edit (addTopBlock h.arena.size need) ⟨{ h with arena := b }, log⟩ =
    .ok _ ⟨_, log⟩ := edit_ok hc
  subst hx
  refine ⟨h', log', (bind_ok hgrow).trans hrun, by simpa using hv', hgrown.trans ?_, ?_⟩
  · rw [List.append_nil, hgrown.safe_eq] at he
    exact he
  · exact hsame.trans (hedit.size_eq.trans hb)

section Growing

variable (hneed : s.heap.layout.Admits need) (hle : need ≤ maxTagged)

include hneed hle

/-- A heap does not grow beyond what tags can hold. -/
theorem growFor_beyond (hcap : ¬ s.heap.arena.size + need ≤ maxTagged) :
    growFor need s = .error (.failed (.outOfMemory need)) s := by
  rw [growFor, get_bind, growthFor?_eq hneed hle, if_neg hcap]
  rfl

variable (hcap : s.heap.arena.size + need ≤ maxTagged)

include hcap

theorem growFor_granted {offset : Nat} {b : Arena}
    (hgrow : Arena.grow need s.heap.arena = .ok offset b) :
    growFor need s = afterGrowth offset need ⟨{ s.heap with arena := b }, s.log⟩ := by
  rw [growFor, get_bind, growthFor?_eq hneed hle, if_pos hcap]
  exact bind_ok (noteError_ok (by simp only [growArena, hgrow]))

theorem growFor_refused {e : HeapError} {b : Arena}
    (hgrow : Arena.grow need s.heap.arena = .error (.failed e) b) :
    growFor need s = .error (.failed e)
      ⟨{ s.heap with arena := b }, s.log.push (.growthFailed need e)⟩ := by
  have hrun : growArena need s = .error (.failed e) ⟨{ s.heap with arena := b }, s.log⟩ := by
    simp only [growArena, hgrow]
  rw [growFor, get_bind, growthFor?_eq hneed hle, if_pos hcap]
  exact bind_error (noteError_failed hrun)

end Growing

/-- **Growing the heap** adds a free block on top.  An arena that is refused the bytes keeps its
own. -/
theorem growFor_spec (hv : s.heap.Sound ⟨pre ++ left.toList, ring⟩) (hleft : ∀ y ∈ left, y.free)
    (hbelow : ∀ y, Span.Separated (pre ++ [y])) (hneed : s.heap.layout.Admits need)
    (hle : need ≤ maxTagged)
    (hx : x = Span.merged left ⟨s.heap.arena.size - 4, need, true⟩ none) :
    Answers (growFor need) s fun block h' => block = x.offset ∧
      h'.Sound ⟨pre ++ [x], x.offset :: ring.diff (left.toList.map Span.offset)⟩ ∧
      s.heap.Evolves h' (s.heap.safe (Span.used pre)) ∧
      h'.arena.size = s.heap.arena.size + need := by
  by_cases hcap : s.heap.arena.size + need ≤ maxTagged
  · rcases Arena.grow_cases hcap with ⟨source, fits, hgrow, hlimit⟩ | ⟨source, m, hgrow, hlimit⟩
    · obtain ⟨h', log, hrun, hspec⟩ := afterGrowth_spec hv hleft hbelow hneed hcap
        (Arena.append_keeps fits) (Arena.size_append _ fits) hlimit hx s.log
      exact .inl ⟨_, h', log, (growFor_granted hneed hle hcap hgrow).trans hrun, rfl, hspec⟩
    · exact .inr ⟨m, _, _, growFor_refused hneed hle hcap hgrow, ⟨source, rfl⟩, hlimit⟩
  · exact .inr ⟨need, s.heap, s.log, growFor_beyond hneed hle hcap, .refl _⟩

end TaggedHeap
