import TaggedHeap.Session.Request
import TaggedHeap.Proofs.Merge
import TaggedHeap.Proofs.Sizes

/-!
# Growing the arena

An arena that grows keeps its bytes (`Arena.append_keeps`).  What the new ones hold depends on its
source (`Arena.byte_append`); they are zero in a buffer, and above a program break whose system
hands out zeros, now and ever after (`Source.Blank`).  If the arena is refused the bytes, only what
is known of the program break may have changed (`Arena.grow_cases`).

The new bytes become a free block on top of the others (`Heap.addTopBlock_spec`).  Its header is
the last word of the arena as it was, which belongs to no block.
-/

namespace TaggedHeap

/-- The computation ends early only when it is refused memory, and either way `P` remains true of
the state. -/
def Reserves {σ α : Type} (P : σ → Prop) (act : EStateM Stop σ α) : Prop :=
  ∀ s, P s → match act s with
    | .ok _ s' => P s'
    | .error e s' => (∃ n, e = .failed (.outOfMemory n)) ∧ P s'

namespace Reserves

variable {σ α β : Type} {P : σ → Prop}

theorem pure (a : α) : Reserves P (Pure.pure a) := fun _ hs => hs

theorem throw (n : Nat) :
    Reserves (α := α) P (MonadExcept.throw (.failed (.outOfMemory n))) :=
  fun _ hs => ⟨⟨n, rfl⟩, hs⟩

theorem modify {f : σ → σ} (hf : ∀ s, P s → P (f s)) : Reserves P (modify f) := hf

theorem bind {act : EStateM Stop σ α} {f : α → EStateM Stop σ β} (h : Reserves P act)
    (hf : ∀ a, Reserves P (f a)) : Reserves P (act >>= f) := by
  intro s hs
  have hact := h s hs
  simp only [Bind.bind, EStateM.bind]
  cases hrun : act s with
  | ok a s' =>
    rw [hrun] at hact
    exact hf a s' hact
  | error e s' =>
    rw [hrun] at hact
    exact hact

theorem ite {c : Prop} [Decidable c] {act act' : EStateM Stop σ α} (h : Reserves P act)
    (h' : Reserves P act') : Reserves P (if c then act else act') := by
  split
  · exact h
  · exact h'

end Reserves

namespace ProgramBreak

/-- What the bytes above the break hold does not depend on who asks for them. -/
theorem reserves_request (contents : Nat → UInt8) (n : Nat) :
    Reserves (·.contents = contents) (request n) := by
  intro brk hbrk
  by_cases hlimit : requestLimit ≤ n
  · simp only [request, if_pos hlimit]
    exact ⟨⟨n, rfl⟩, hbrk⟩
  · simp only [request, if_neg hlimit]
    by_cases hgranted : brk.grants brk.decided n ∧ brk.top + n < ceiling
    · rw [dif_pos hgranted]
      exact hbrk
    · rw [dif_neg hgranted]
      exact ⟨⟨n, rfl⟩, hbrk⟩

theorem contents_raise (brk : ProgramBreak) (n : Nat) :
    (brk.raise n).contents = brk.contents := by
  have h := reserves_request brk.contents n brk rfl
  unfold raise
  cases hrun : request n brk with
  | ok address brk' => rwa [hrun] at h
  | error e brk' =>
    rw [hrun] at h
    exact h.2

end ProgramBreak

namespace Region

variable (contents : Nat → UInt8)

theorem reserves_request (n : Nat) : Reserves (·.brk.contents = contents) (request n) := by
  intro r hr
  have h := ProgramBreak.reserves_request contents n r.brk hr
  unfold request
  cases hrun : ProgramBreak.request n r.brk <;> rwa [hrun] at h

theorem reserves_start (n : Nat) : Reserves (·.brk.contents = contents) (start n) := by
  have hend : ∀ base, Reserves (·.brk.contents = contents) (do
      let address ← request n
      if address = base then modify fun r => { r with base := some base }
      else throw (.failed (.outOfMemory n))) := fun base =>
    (reserves_request contents n).bind fun address => .ite (.modify fun _ hr => hr) (.throw n)
  refine (reserves_request contents 0).bind fun current => .ite ?_ (hend _)
  exact (reserves_request contents _).bind fun _ => hend _

theorem reserves_extend (size n : Nat) :
    Reserves (·.brk.contents = contents) (extend size n) := by
  refine .bind (fun _ hr => hr : Reserves _ get) fun r => ?_
  cases r.base with
  | none => exact reserves_start contents n
  | some base =>
    exact (reserves_request contents n).bind fun address => .ite (.throw n) (.pure ())

variable {contents} {r r' : Region} {size n : Nat} {e : Stop}

theorem contents_of_extend (h : extend size n r = .ok () r') :
    r'.brk.contents = r.brk.contents := by
  have hextend := reserves_extend r.brk.contents size n r rfl
  rwa [h] at hextend

theorem extend_error (h : extend size n r = .error e r') :
    (∃ m, e = .failed (.outOfMemory m)) ∧ r'.brk.contents = r.brk.contents := by
  have hextend := reserves_extend r.brk.contents size n r rfl
  rwa [h] at hextend

end Region

/-- New bytes are zero. -/
def Source.Blank : Source → Prop
  | .buffer _ => True
  | .system region => region.brk.contents = fun _ => 0

theorem Source.blank_buffer (limit : Nat) : (buffer limit).Blank := trivial

theorem Source.Blank.fresh_eq {source : Source} (h : source.Blank) (size n : Nat) :
    source.fresh size n = Array.replicate n 0 := by
  cases source with
  | buffer limit => rfl
  | system region =>
    refine Array.ext (by rw [size_fresh, Array.size_replicate]) fun i hi hi' => ?_
    simp only [fresh, Region.fresh, Array.getElem_ofFn, Array.getElem_replicate]
    exact congrFun h _

namespace Arena

variable {a b : Arena} {n offset : Nat} {source : Source} {e : HeapError}

theorem size_append (a : Arena) (fits : a.size + n ≤ maxContiguous) :
    (a.append n source fits).size = a.size + n := by
  rw [size, append, Array.size_append, Source.size_fresh, size]

theorem byte_of_le {i : Nat} (h : a.size ≤ i) : a.byte i = 0 := by
  rw [byte, Array.getElem?_eq_none h]
  rfl

theorem byte_append (fits : a.size + n ≤ maxContiguous) (i : Nat) :
    (a.append n source fits).byte i =
      if i < a.size then a.byte i else (source.fresh a.size n)[i - a.size]?.getD 0 := by
  rw [byte, byte, append, Array.getElem?_append]
  exact apply_ite (Option.getD · 0) _ _ _

theorem append_keeps (fits : a.size + n ≤ maxContiguous) :
    a.Keeps (a.append n source fits) {i | i < a.size} where
  size_le := by
    rw [size_append]
    exact Nat.le_add_right _ _
  byte_eq i hi := (byte_append fits i).trans (if_pos hi)

/-- An arena that goes on with zeros can be read as before at all offsets. -/
theorem byte_append_of_blank (hblank : source.Blank) (fits : a.size + n ≤ maxContiguous)
    (i : Nat) : (a.append n source fits).byte i = a.byte i := by
  rw [byte_append, hblank.fresh_eq, Array.getElem?_replicate]
  split
  · rfl
  · rw [byte_of_le (by omega)]
    split <;> rfl

/-- Whether arenas grow depends on their size and their source.  One that does not grow keeps its
bytes. -/
theorem grow_uniform {size : Nat} (source : Source) (hcap : size + n ≤ maxTagged) :
    (∃ source', ∀ a : Arena, a.size = size → a.source = source → ∃ fits,
        Arena.grow n a = .ok size (a.append n source' fits) ∧
        (a.append n source' fits).limit? = a.limit?) ∨
      ∃ source' m, ∀ a : Arena, a.size = size → a.source = source →
        Arena.grow n a = .error (.failed (.outOfMemory m)) { a with source := source' } ∧
        { a with source := source' }.limit? = a.limit? := by
  have hspace : ¬ Address.space ≤ size + n := by
    simp only [maxTagged] at hcap
    rw [Address.space]
    omega
  have fits : size + n ≤ maxContiguous := hcap.trans (by decide)
  cases source with
  | buffer limit =>
    by_cases hlimit : limit < size + n
    · refine .inr ⟨.buffer limit, n, ?_⟩
      rintro a rfl hsource
      rw [grow, if_neg hspace, hsource]
      simp only [if_pos hlimit]
      exact ⟨by rw [← hsource], by rw [← hsource]⟩
    · refine .inl ⟨.buffer limit, ?_⟩
      rintro a rfl hsource
      refine ⟨fits, ?_, by simp only [limit?, append, hsource]⟩
      rw [grow, if_neg hspace, hsource]
      simp only [if_neg hlimit, dif_pos fits]
  | system region =>
    cases hextend : Region.extend size n region with
    | error e region' =>
      obtain ⟨⟨m, rfl⟩, -⟩ := Region.extend_error hextend
      refine .inr ⟨.system region', m, ?_⟩
      rintro a rfl hsource
      refine ⟨?_, by simp only [limit?, hsource]⟩
      rw [grow, if_neg hspace, hsource]
      simp only [hextend]
    | ok u region' =>
      refine .inl ⟨.system region', ?_⟩
      rintro a rfl hsource
      refine ⟨fits, ?_, by simp only [limit?, append, hsource]⟩
      rw [grow, if_neg hspace, hsource]
      simp only [hextend, dif_pos fits]

/-- An arena that may become that large grows, or is refused the bytes and keeps its own. -/
theorem grow_cases (hcap : a.size + n ≤ maxTagged) :
    (∃ source fits, Arena.grow n a = .ok a.size (a.append n source fits) ∧
        (a.append n source fits).limit? = a.limit?) ∨
      ∃ source m, Arena.grow n a = .error (.failed (.outOfMemory m)) { a with source } ∧
        { a with source : Arena }.limit? = a.limit? := by
  rcases grow_uniform a.source hcap with ⟨source, hgrow⟩ | ⟨source, m, hgrow⟩
  · obtain ⟨fits, hgrow⟩ := hgrow a rfl rfl
    exact .inl ⟨source, fits, hgrow⟩
  · exact .inr ⟨source, m, hgrow a rfl rfl⟩

/-- An arena that grows does so at its end, and with a region above the program break behind it the
region is extended. -/
theorem grow_ok (h : Arena.grow n a = .ok offset b) : offset = a.size ∧
    ∃ source fits, b = a.append n source fits ∧
      (source = a.source ∧ (∃ limit, a.source = .buffer limit) ∨
        ∃ region region', a.source = .system region ∧
          Region.extend a.size n region = .ok () region' ∧ source = .system region') := by
  unfold grow at h
  split at h
  · cases h
  split at h
  · rename_i limit hsource
    split at h
    · cases h
    · split at h <;> cases h
      exact ⟨rfl, a.source, _, rfl, .inl ⟨rfl, limit, hsource⟩⟩
  · rename_i region hsource
    split at h
    · cases h
    · rename_i region' hextend
      split at h <;> cases h
      exact ⟨rfl, .system region', _, rfl, .inr ⟨region, region', hsource, hextend, rfl⟩⟩

theorem grow_refused (h : Arena.grow n a = .error (.failed e) b) : ∃ source, b = { a with source } ∧
    (source = a.source ∧ e = .outOfMemory n ∨
      ∃ region region', a.source = .system region ∧
        Region.extend a.size n region = .error (.failed e) region' ∧ source = .system region') := by
  unfold grow at h
  split at h
  · cases h
    exact ⟨a.source, rfl, .inl ⟨rfl, rfl⟩⟩
  split at h
  · split at h
    · cases h
      exact ⟨a.source, rfl, .inl ⟨rfl, rfl⟩⟩
    · split at h <;> cases h
  · rename_i region hsource
    split at h
    · rename_i region' hextend
      cases h
      exact ⟨.system region', rfl, .inr ⟨region, region', hsource, hextend, rfl⟩⟩
    · split at h <;> cases h

end Arena

namespace Source.Blank

variable {a b : Arena} {n offset : Nat} {e : HeapError}

/-- An arena that goes on with zeros always will. -/
theorem grow (ha : a.source.Blank) (h : Arena.grow n a = .ok offset b) : b.source.Blank := by
  obtain ⟨-, _, fits, rfl, ⟨rfl, -⟩ | ⟨region, region', hsource, hextend, rfl⟩⟩ := Arena.grow_ok h
  · exact ha
  · rw [hsource] at ha
    exact (Region.contents_of_extend hextend).trans ha

theorem refused (ha : a.source.Blank) (h : Arena.grow n a = .error (.failed e) b) :
    b.source.Blank := by
  obtain ⟨_, rfl, ⟨rfl, -⟩ | ⟨region, region', hsource, hextend, rfl⟩⟩ := Arena.grow_refused h
  · exact ha
  · rw [hsource] at ha
    exact (Region.extend_error hextend).2.trans ha

theorem raiseBreak (ha : a.source.Blank) (n : Nat) : (a.raiseBreak n).source.Blank := by
  unfold Arena.raiseBreak
  split
  · exact ha
  · rename_i region hsource
    rw [hsource] at ha
    exact (region.brk.contents_raise n).trans ha

end Source.Blank

namespace Heap

variable {h : Heap} {spans pre : List Span} {left : Option Span} {ring : List Nat} {need : Nat}
  {b : Arena}

theorem growthFor?_eq (hneed : h.layout.Admits need) (hle : need ≤ maxTagged) :
    growthFor? h need = if h.arena.size + need ≤ maxTagged then some need else none := by
  rw [growthFor?, h.valid.roundUp?_of_admits hneed hle, Option.filter_some]
  refine if_congr ?_ rfl rfl
  rw [decide_eq_true_eq]
  refine and_iff_right_of_imp fun hcap => ?_
  simp only [maxTagged] at hcap
  rw [Address.space]
  omega

/-- The blocks of a heap lie below the last word of the arena. -/
theorem Holds.tagBytes_lt (hv : h.Holds ⟨spans, ring⟩) {x : Span} (hx : x ∈ h.chain spans)
    {i : Nat} (hi : i ∈ x.tagBytes) : i < h.arena.size - 4 := by
  have hbounds := hv.bounds hx
  have hmem := Span.tagBytes_subset (by omega) hi
  rw [Span.mem_bytes] at hmem
  exact Nat.lt_of_lt_of_le hmem.2 (hv.tiles.bounds hx).2

theorem Holds.linkBytes_lt (hv : h.Holds ⟨spans, ring⟩) {n : Nat} (hn : n ∈ h.nodes ring)
    (l : Link) {i : Nat} (hi : i ∈ Arena.linkBytes n l) : i < h.arena.size - 4 := by
  obtain ⟨x, hx, rfl⟩ := hv.mem_nodes hn
  have hstop := (hv.tiles.bounds hx).2
  have hbounds := hv.bounds hx
  rw [Arena.mem_linkBytes] at hi
  rw [Span.stop] at hstop
  cases l <;> simp only [Link.slot_next, Link.slot_prev] at hi <;> omega

/-- **The new bytes of an arena become a free block**, which is the topmost one from then on. -/
theorem addTopBlock_spec (hv : h.Sound ⟨pre ++ left.toList, ring⟩)
    (hleft : ∀ y ∈ left, y.free) (hbelow : ∀ y, Span.Separated (pre ++ [y]))
    (hneed : h.layout.Admits need) (hb : h.arena.Keeps b {i | i < h.arena.size})
    (hsize : b.size = h.arena.size + need) (hcap : b.size ≤ maxTagged) :
    ∃ c, addTopBlock h.arena.size need { h with arena := b } = .ok (h.arena.size - 4,
        { h with arena := c, top := h.arena.size - 4 }) ∧
      b.Edit c (Span.mk (h.arena.size - 4) need true).tagBytes ∧
      { h with arena := c, top := h.arena.size - 4 }.Unmerged pre left
        ⟨h.arena.size - 4, need, true⟩ none [] ring := by
  have hhead := hv.holds.bounds (x := ⟨h.head, h.layout.minBlock, false⟩)
    (by simp [chain, sentinels])
  have h16 := hneed.le h.valid
  have heven := hneed.mod_eight h.valid
  obtain ⟨c, hc, hedit, htag⟩ := setTags_spec (h := { h with arena := b })
    (h.arena.size - 4) need false (by omega) (by omega) (by omega)
    (by simp only; omega)
  have hkeep : h.arena.Keeps c {i | i < h.arena.size - 4} :=
    (hb.mono fun i (hi : i < _) => show i < _ by omega).trans
      (hedit.keeps.mono fun i (hi : i < _) hi' => by
      simp only [Span.tagBytes, Span.stop, Set.mem_union, Set.mem_Ico] at hi'
      omega)
  -- the old links lie below the new block
  have hlinks : ∀ n ∈ h.nodes ring, ∀ l, Arena.linkBytes n l ⊆ {i | i < h.arena.size - 4} :=
    fun n hn l i hi => hv.holds.linkBytes_lt hn l hi
  have hchain : h.chain (pre ++ (left.toList ++ [⟨h.arena.size - 4, need, true⟩]) ++ []) =
      h.chain (pre ++ left.toList) ++ [⟨h.arena.size - 4, need, true⟩] := by
    rw [List.append_nil, ← List.append_assoc, chain_append]
  refine ⟨c, ?_, hedit, ⟨⟨?_, ?_, ?_, ?_, ?_, ?_⟩, ?_, rfl, ?_, hleft, by simp, hbelow,
    fun _ => .singleton _⟩⟩
  · simp only [addTopBlock, Address.sub_of_le (show 4 ≤ h.arena.size by omega), ok_bind, hc,
      pure_eq_ok]
  · show Span.Tile h.layout h.head (h.chain _) (c.size - 4)
    rw [Option.toList_none, hchain, Span.tile_append]
    refine ⟨_, hv.tiles, rfl, hneed, ?_⟩
    rw [Span.tile_nil, Span.stop, hedit.size_eq, hsize]
    exact (show h.arena.size - 4 + need = h.arena.size + need - 4 by omega)
  · show ∀ x ∈ h.chain _, c.Tagged x
    rw [Option.toList_none, hchain]
    refine List.forall_mem_append.2 ⟨fun x hx => ?_, by simpa using htag⟩
    exact (hv.tagged x hx).keep hkeep fun i hi => hv.holds.tagBytes_lt hx hi
  · refine hv.holds.headers.trans (List.Sublist.subperm ?_)
    simp
  · exact hv.threads.keep hkeep hlinks
  · exact (hkeep.link?_eq (hlinks h.head (by simp [nodes]) _)).trans hv.head_prev
  · exact (hkeep.link?_eq (hlinks h.tail (by simp [nodes]) _)).trans hv.tail_next
  · show h.arena.size - 4 = h.lastOf _
    rw [List.append_nil, Option.toList_none, ← List.append_assoc, lastOf_append_singleton]
  · simpa using hv.listed

end Heap

end TaggedHeap
