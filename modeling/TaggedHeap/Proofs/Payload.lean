import TaggedHeap.Proofs.Session

/-!
# Payloads

The payload of a block consists of the bytes between its tags (`Heap.Holds.payload_eq`).
Whatever is written there, the heap stays sound (`Heap.Sound.edit_inner`), and nothing changes in
other blocks in use (`Heap.Sound.evolves_inner`).
-/

namespace TaggedHeap

theorem Arena.slice_of_le {a : Arena} {start count : Nat} (h : start + count ≤ a.size) :
    a.slice start (start + count) = .ok ((List.range count).map fun i => a.byte (start + i)) := by
  rw [slice, if_pos ⟨Nat.le_add_right _ _, h⟩]
  refine congrArg _ (List.ext_getElem? fun i => ?_)
  rw [size] at h
  rw [Array.getElem?_toList, Array.getElem?_extract, List.getElem?_map]
  by_cases hi : i < count
  · rw [if_pos (by omega), List.getElem?_range hi, Option.map_some, byte,
      Array.getElem?_eq_getElem (by omega), Option.getD_some]
  · rw [if_neg (by omega), List.getElem?_eq_none (by rw [List.length_range]; omega),
      Option.map_none]

theorem Arena.Keeps.slice_eq {a b : Arena} {s : Set Nat} (h : a.Keeps b s)
    (hs : ∀ i < a.size, i ∈ s) : b.slice 0 a.size = .ok a.bytes.toList := by
  have hall : a.slice 0 a.size = .ok a.bytes.toList := by
    rw [slice, if_pos ⟨Nat.zero_le _, le_rfl⟩, size, Array.extract_size]
  rw [← hall, ← Nat.zero_add a.size, slice_of_le ((Nat.zero_add _).trans_le h.size_le),
    slice_of_le (Nat.zero_add _).le]
  refine congrArg _ (List.map_congr_left fun i hi => ?_)
  rw [List.mem_range] at hi
  rw [Nat.zero_add]
  exact h.byte_eq i (hs i hi)

namespace Heap

variable {h : Heap} {v : View} {x : Span} {rest : List Span} {a : Arena} {s : Set Nat}

namespace Holds

variable (hv : h.Holds v) (hx : x ∈ h.chain v.spans)

include hv hx

theorem usableSize_eq : h.usableSize (.ofHeader x.offset) = .ok (x.size - 8) := by
  obtain ⟨t, ht, hsize, -⟩ := hv.tag_eq hx
  have hb := hv.bounds hx
  rw [usableSize, header_ofHeader, ok_bind, ht, ok_bind, hsize]
  exact Address.sub_of_le (show 8 ≤ x.size by omega)

/-- **The payload of a block** consists of the bytes between its tags. -/
theorem payload_eq : h.payload (.ofHeader x.offset) =
    .ok ((List.range (x.size - 8)).map fun i => h.arena.byte (x.offset + 4 + i)) := by
  have hb := hv.bounds hx
  rw [payload, hv.usableSize_eq hx, ok_bind]
  show (do h.arena.slice (x.offset + 4) (← Address.add (x.offset + 4) (x.size - 8))) = _
  rw [Arena.add_of_le (a := h.arena) (by omega), ok_bind]
  exact Arena.slice_of_le (by omega)

theorem setPayload_spec {count : Nat} (hcount : count ≤ x.size - 8) (byte : Nat → UInt8) :
    ∃ b, h.setPayload (.ofHeader x.offset) count byte = .ok { h with arena := b } ∧
      h.arena.Edit b (Set.Ico (x.offset + 4) (x.offset + 4 + count)) ∧
      ∀ i < count, b.byte (x.offset + 4 + i) = byte i := by
  have hb := hv.bounds hx
  obtain ⟨b, hwrite, hedit, hbyte⟩ := Arena.write_spec (a := h.arena) (x.offset + 4)
    ((List.range count).map byte) (by simp only [List.length_map, List.length_range]; omega)
  simp only [List.length_map, List.length_range] at hedit hbyte
  refine ⟨b, ?_, hedit, fun i hi => ?_⟩
  · rw [setPayload, hv.usableSize_eq hx, ok_bind]
    show (do
      let stop ← Address.add (x.offset + 4) (x.size - 8)
      if stop ≤ h.arena.size ∧ count ≤ x.size - 8 then h.write (x.offset + 4) _
      else throw Fault.outOfBounds) = _
    rw [Arena.add_of_le (a := h.arena) (by omega), ok_bind, if_pos ⟨by omega, hcount⟩, write,
      hwrite]
    rfl
  · rw [hbyte i hi]
    simp [hi]

end Holds

theorem copyBytes_spec (start target count : Nat) (hstart : start + count ≤ h.arena.size)
    (htarget : target + count ≤ h.arena.size) :
    ∃ b, copyBytes start target count h = .ok { h with arena := b } ∧
      h.arena.Edit b (Set.Ico target (target + count)) ∧
      ∀ i < count, b.byte (target + i) = h.arena.byte (start + i) := by
  obtain ⟨b, hwrite, hedit, hbyte⟩ := Arena.write_spec (a := h.arena) target
    ((List.range count).map fun i => h.arena.byte (start + i))
    (by simpa only [List.length_map, List.length_range] using htarget)
  simp only [List.length_map, List.length_range] at hedit hbyte
  refine ⟨b, ?_, hedit, fun i hi => ?_⟩
  · rw [copyBytes, Arena.add_of_le hstart, ok_bind, Arena.slice_of_le hstart, ok_bind, write,
      hwrite]
    rfl
  · rw [hbyte i hi]
    simp [hi]

/-- The first bytes of a payload are copied to one that has room for `size` bytes. -/
theorem Holds.copyBytes_spec (hv : h.Holds v) {y : Span} {size : Nat} (hx : x ∈ v.spans)
    (hy : y ∈ v.spans) (hroom : size + 8 ≤ y.size) :
    ∃ b, copyBytes (x.offset + 4) (y.offset + 4) (min (x.size - 8) size) h =
        .ok { h with arena := b } ∧
      h.arena.Edit b y.inner ∧ ∀ i, i < x.size - 8 → i < size →
        b.byte (y.offset + 4 + i) = h.arena.byte (x.offset + 4 + i) := by
  have hbx := hv.bounds (mem_chain_of_mem hx)
  have hby := hv.bounds (mem_chain_of_mem hy)
  obtain ⟨b, hcopy, hedit, hbyte⟩ := Heap.copyBytes_spec (h := h) (x.offset + 4) (y.offset + 4)
    (min (x.size - 8) size) (by omega) (by omega)
  exact ⟨b, hcopy, hedit.mono (Span.Ico_subset_inner (by omega)), fun i hi hi' =>
    hbyte i (by omega)⟩

theorem Holds.not_mem_tagBytes (hv : h.Holds v) {y : Span} (hx : x ∈ h.chain v.spans)
    (hy : y ∈ h.chain v.spans) {i : Nat} (hi : i ∈ x.inner) : i ∉ y.tagBytes := by
  intro hiy
  have hby := hv.bounds hy
  obtain rfl := hv.eq_of_mem_bytes hy hx (Span.tagBytes_subset (by omega) hiy) (x.inner_subset hi)
  simp only [Span.mem_inner, Span.tagBytes, Span.stop, Set.mem_union, Set.mem_Ico] at hi hiy
  omega

theorem Sound.not_mem_ringBytes (hv : h.Sound v) (hx : x ∈ Span.used v.spans) {i : Nat}
    (hi : i ∈ x.bytes) : i ∉ h.ringBytes v.ring := by
  obtain ⟨hmem, hused⟩ := Span.mem_used.1 hx
  have hunlisted : x.offset ∉ v.ring := by
    rw [hv.mem_ring_iff hmem, hused]
    simp
  exact hv.holds.not_mem_ringBytes (mem_chain_of_mem hmem)
    (hv.holds.not_mem_nodes hmem hunlisted) hi

/-- **Payloads may be written**: a heap stays sound. -/
theorem Sound.edit_inner (hv : h.Sound v) (hx : x ∈ v.spans) (hused : x.free = false)
    (hedit : h.arena.Edit a s) (hs : s ⊆ x.inner) : { h with arena := a : Heap }.Sound v :=
  hv.keep hedit.keeps hedit.size_eq
    (fun _ hy _ hi his => hv.holds.not_mem_tagBytes (mem_chain_of_mem hx) hy (hs his) hi)
    fun _ hi his =>
      hv.not_mem_ringBytes (Span.mem_used.2 ⟨hx, hused⟩) (x.inner_subset (hs his)) hi

theorem Holds.not_mem_bytes (hv : h.Holds v) (hx : (Span.used v.spans).Perm (x :: rest)) {i : Nat}
    (hi : i ∈ h.safe rest) : i ∉ x.bytes := by
  have hmem : ∀ y ∈ x :: rest, y ∈ h.chain v.spans := fun y hy =>
    mem_chain_of_mem (Span.mem_used.1 (hx.mem_iff.2 hy)).1
  intro hix
  rcases hi with hlow | ⟨y, hy, hiy⟩
  · have := hv.bounds (hmem x (by simp))
    rw [Span.mem_bytes] at hix
    omega
  · obtain rfl := hv.eq_of_mem_bytes (hmem x (by simp)) (hmem y (by simp [hy])) hix hiy
    have hnodup := (hv.nodup_offsets.of_map _).filter (!·.free)
    exact (List.nodup_cons.1 (hx.nodup_iff.1 hnodup)).1 hy

theorem Sound.evolves_inner (hv : h.Sound v) (hsize : h.arena.size ≤ maxTagged)
    (hx : (Span.used v.spans).Perm (x :: rest)) (hedit : h.arena.Edit a s) (hs : s ⊆ x.inner) :
    h.Evolves { h with arena := a } (h.safe rest) :=
  .of_edit hsize hedit
    (fun _ hi his => hv.holds.not_mem_bytes hx hi (x.inner_subset (hs his))) h.top

end Heap

end TaggedHeap
