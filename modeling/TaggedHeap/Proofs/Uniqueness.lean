import TaggedHeap.Proofs.View

/-!
# What tags and links determine

A heap holds one view only.  The tags of its blocks lead from block to block, upwards by the
headers and downwards by the footers, and the links of its list lead from block to block
forwards and backwards.  So either kind of tag determines the blocks, and either kind of link
determines the list.

All statements compare two arenas, `a` and `b`, that agree in one of the two kinds of words only.

* `Span.Tile.eq_of_headers`, `Span.Tile.eq_of_footers`: the blocks.
* `Arena.Threads.eq_of_next`, `Arena.Threads.eq_of_prev`: the list.
* `Heap.Sound.unique`: both together.
* `Heap.Holds.link?_eq`: conversely, the list determines all its links.
-/

namespace TaggedHeap

namespace Link

theorem resolve_inj {block : Nat} {w w' : UInt32} (h : resolve block w = resolve block w') :
    w = w' := by
  have hw := w.toNat_lt
  have hw' := w'.toNat_lt
  rw [← UInt32.toNat_inj]
  simp only [resolve, Address.wrappingOffset, Address.space, Word.signed, Int.cast_ofNat_Int] at h
  split at h <;> split at h <;> omega

end Link

namespace Arena

variable {a b : Arena} {x y : Span}

theorem Tagged.eq_of_header (hx : a.Tagged x) (hy : b.Tagged y) (hxy : x.offset = y.offset)
    (h : b.tagAt x.offset = a.tagAt x.offset) : x = y := by
  have hsize : x.size = y.size := by rw [← hx.size_eq, ← hy.size_eq, ← hxy, h]
  have hfree : x.free = y.free := by rw [← hx.free_eq, ← hy.free_eq, ← hxy, h]
  cases x
  cases y
  simp_all

theorem Tagged.eq_of_footer (hx : a.Tagged x) (hy : b.Tagged y) (hxy : x.stop = y.stop)
    (h : b.tagAt (x.stop - 4) = a.tagAt (x.stop - 4)) : x = y := by
  have htag : b.tagAt y.offset = a.tagAt x.offset := by
    rw [← hx.footer_eq, ← hy.footer_eq, ← hxy, h]
  have hsize : x.size = y.size := by rw [← hx.size_eq, ← hy.size_eq, htag]
  have hfree : x.free = y.free := by rw [← hx.free_eq, ← hy.free_eq, htag]
  have hoffset : x.offset = y.offset := by
    rw [Span.stop, Span.stop] at hxy
    omega
  cases x
  cases y
  simp_all

theorem peek_eq_of_link? {n : Nat} {l : Link} (h : b.link? n l = a.link? n l) :
    b.peek (n + l.slot) = a.peek (n + l.slot) := by
  rw [link?, link?] at h
  split_ifs at h with hb ha ha
  · rw [hb, ha]
  · exact Link.resolve_inj (Option.some.inj h)

end Arena

/-! ### Blocks -/

namespace Span.Tile

variable {a b : Arena} {l : Layout} {x y : Span} {xs ys : List Span} {start stop : Nat}

theorem lt (hl : l.Valid) (h : Tile l start (x :: xs) stop) : start < stop := by
  obtain ⟨rfl, hadm, h⟩ := h
  have hle := h.le
  have hpos := hadm.le hl
  rw [Span.stop] at hle
  omega

/-- The headers determine the blocks: each one says where the next one is. -/
theorem eq_of_headers (hl : l.Valid) (hx : Tile l start xs stop) (hy : Tile l start ys stop)
    (hxs : ∀ x ∈ xs, a.Tagged x) (hys : ∀ y ∈ ys, b.Tagged y)
    (h : ∀ x ∈ xs, b.tagAt x.offset = a.tagAt x.offset) : xs = ys := by
  induction xs generalizing start ys with
  | nil =>
    cases ys with
    | nil => rfl
    | cons y ys =>
      have hlt := hy.lt hl
      have heq := tile_nil.1 hx
      omega
  | cons x xs ih =>
    cases ys with
    | nil =>
      have hlt := hx.lt hl
      have heq := tile_nil.1 hy
      omega
    | cons y ys =>
      obtain ⟨hxstart, -, hx⟩ := hx
      obtain ⟨hystart, -, hy⟩ := hy
      obtain ⟨hxa, hxs⟩ := List.forall_mem_cons.1 hxs
      obtain ⟨hyb, hys'⟩ := List.forall_mem_cons.1 hys
      obtain ⟨hsame, h⟩ := List.forall_mem_cons.1 h
      have hxy := hxa.eq_of_header hyb (hxstart.trans hystart.symm) hsame
      subst hxy
      rw [ih hx hy hxs hys' h]

/-- The footers determine the blocks: each one says where the block below ends. -/
theorem eq_of_footers (hl : l.Valid) (hx : Tile l start xs stop) (hy : Tile l start ys stop)
    (hxs : ∀ x ∈ xs, a.Tagged x) (hys : ∀ y ∈ ys, b.Tagged y)
    (h : ∀ x ∈ xs, b.tagAt (x.stop - 4) = a.tagAt (x.stop - 4)) : xs = ys := by
  induction xs using List.reverseRecOn generalizing stop ys with
  | nil =>
    cases ys with
    | nil => rfl
    | cons y ys =>
      have hlt := hy.lt hl
      have heq := tile_nil.1 hx
      omega
  | append_singleton xs x ih =>
    rcases List.eq_nil_or_concat ys with rfl | ⟨ys, y, rfl⟩
    · obtain ⟨middle, hlow, hxm, hadm, hstop⟩ := tile_append.1 hx
      have hle := hlow.le
      have hpos := hadm.le hl
      have heq := tile_nil.1 hy
      have hend := tile_nil.1 hstop
      rw [Span.stop] at hend
      omega
    · rw [List.concat_eq_append] at hy hys ⊢
      obtain ⟨_, hx, rfl, -, hxstop⟩ := tile_append.1 hx
      obtain ⟨_, hy, rfl, -, hystop⟩ := tile_append.1 hy
      obtain ⟨hxs, hxa⟩ := List.forall_mem_append.1 hxs
      obtain ⟨hys', hyb⟩ := List.forall_mem_append.1 hys
      obtain ⟨h, hsame⟩ := List.forall_mem_append.1 h
      have hstop : x.stop = y.stop := (tile_nil.1 hxstop).trans (tile_nil.1 hystop).symm
      have hxy := (hxa x (by simp)).eq_of_footer (hyb y (by simp)) hstop (hsame x (by simp))
      subst hxy
      rw [ih hx hy hxs hys' h]

end Span.Tile

/-! ### The list -/

namespace Arena.Threads

variable {a b : Arena} {s t : Nat} {xs ys : List Nat}

theorem eq_of_next (hx : a.Threads (s :: (xs ++ [t]))) (hy : b.Threads (s :: (ys ++ [t])))
    (htx : t ∉ xs) (hty : t ∉ ys)
    (h : ∀ n ∈ s :: xs, b.link? n .next = a.link? n .next) : xs = ys := by
  induction xs generalizing s ys with
  | nil =>
    cases ys with
    | nil => rfl
    | cons y ys =>
      have ha := (List.isChain_cons_cons.1 hx).1.1
      have hb := (List.isChain_cons_cons.1 hy).1.1
      rw [h s (by simp), ha, Option.some.injEq] at hb
      exact absurd (by simp [hb]) hty
  | cons x xs ih =>
    obtain ⟨hsx, hx⟩ := List.isChain_cons_cons.1 hx
    have hb := h s (by simp)
    rw [hsx.1] at hb
    cases ys with
    | nil =>
      have hst := (List.isChain_cons_cons.1 hy).1.1
      rw [hb, Option.some.injEq] at hst
      exact absurd (by simp [hst]) htx
    | cons y ys =>
      obtain ⟨hsy, hy⟩ := List.isChain_cons_cons.1 hy
      have hxy : x = y := Option.some.inj (hb.symm.trans hsy.1)
      subst hxy
      rw [List.mem_cons, not_or] at htx hty
      rw [ih hx hy htx.2 hty.2 fun n hn => h n (List.mem_cons_of_mem _ hn)]

theorem of_concat {x : Nat} (hx : a.Threads (s :: (xs ++ [x] ++ [t]))) :
    a.Threads (s :: (xs ++ [x])) ∧ a.link? t .prev = some x := by
  rw [List.append_assoc, ← List.cons_append, Threads, List.singleton_append, List.isChain_split,
    List.isChain_cons_cons] at hx
  exact ⟨hx.1, hx.2.1.2⟩

theorem eq_of_prev (hx : a.Threads (s :: (xs ++ [t]))) (hy : b.Threads (s :: (ys ++ [t])))
    (hsx : s ∉ xs) (hsy : s ∉ ys)
    (h : ∀ n ∈ xs ++ [t], b.link? n .prev = a.link? n .prev) : xs = ys := by
  induction xs using List.reverseRecOn generalizing t ys with
  | nil =>
    rcases List.eq_nil_or_concat ys with rfl | ⟨ys, y, rfl⟩
    · rfl
    · rw [List.concat_eq_append] at hy hsy
      have ha := (List.isChain_cons_cons.1 hx).1.2
      have hb := hy.of_concat.2
      rw [h t (by simp), ha, Option.some.injEq] at hb
      exact absurd (by simp [hb]) hsy
  | append_singleton xs x ih =>
    obtain ⟨hx, hxt⟩ := of_concat hx
    have hb := h t (by simp)
    rw [hxt] at hb
    rcases List.eq_nil_or_concat ys with rfl | ⟨ys, y, rfl⟩
    · have hst := (List.isChain_cons_cons.1 hy).1.2
      rw [hb, Option.some.injEq] at hst
      exact absurd (by simp [hst]) hsx
    · rw [List.concat_eq_append] at hy hsy ⊢
      obtain ⟨hy, hyt⟩ := of_concat hy
      have hxy : x = y := Option.some.inj (hb.symm.trans hyt)
      subst hxy
      rw [List.mem_append, not_or] at hsx hsy
      rw [ih hx hy hsx.1 hsy.1 fun n hn => h n (List.mem_append_left _ hn)]

end Arena.Threads

/-! ### Heaps -/

namespace Heap

variable {h h' : Heap} {v v' : View}

theorem Holds.tail_not_mem (hv : h.Holds v) : h.tail ∉ v.ring := by
  have hnodup := (List.nodup_cons.1 hv.spaced.nodup).2
  intro hmem
  exact (List.nodup_append.1 hnodup).2.2 _ hmem _ (by simp) rfl

theorem Holds.head_not_mem (hv : h.Holds v) : h.head ∉ v.ring := by
  have hfresh := (List.nodup_cons.1 hv.spaced.nodup).1
  intro hmem
  exact hfresh (List.mem_append_left _ hmem)

theorem Holds.link?_eq (hv : h.Holds v) (hv' : h'.Holds v) (hlayout : h'.layout = h.layout)
    (hhead : h'.head = h.head) {n : Nat} (hn : n ∈ h.nodes v.ring) (l : Link) :
    h'.arena.link? n l = h.arena.link? n l := by
  have htail : h'.tail = h.tail := by rw [tail, tail, hlayout, hhead]
  have hnodes : h'.nodes v.ring = h.nodes v.ring := by rw [nodes, nodes, hhead, htail]
  have hthr := hv.threads
  have hthr' := hv'.threads
  rw [hnodes] at hthr'
  obtain ⟨before, after, hsplit⟩ := List.append_of_mem hn
  rw [hsplit, Arena.Threads, List.isChain_split] at hthr hthr'
  cases l with
  | next =>
    cases after with
    | nil =>
      have hlast := congrArg List.getLast? hsplit
      rw [nodes, ← List.cons_append, List.getLast?_concat, List.getLast?_concat,
        Option.some.injEq] at hlast
      rw [← hlast, hv.tail_next, ← htail, hv'.tail_next]
    | cons m after =>
      rw [(List.isChain_cons_cons.1 hthr.2).1.1, (List.isChain_cons_cons.1 hthr'.2).1.1]
  | prev =>
    rcases List.eq_nil_or_concat before with rfl | ⟨before, m, rfl⟩
    · have hfirst := congrArg List.head? hsplit
      rw [nodes, List.nil_append, List.head?_cons, List.head?_cons, Option.some.injEq] at hfirst
      rw [← hfirst, hv.head_prev, ← hhead, hv'.head_prev]
    · have hback : ∀ {c : Arena}, List.IsChain c.Linked (before ++ [m] ++ [n]) →
          c.link? n .prev = some m := by
        intro c hc
        rw [List.append_assoc, List.singleton_append, List.isChain_split] at hc
        exact (List.isChain_cons_cons.1 hc.2).1.2
      rw [List.concat_eq_append] at hthr hthr'
      rw [hback hthr.1, hback hthr'.1]

/-- **A heap holds one view only.** -/
theorem Sound.unique (hv : h.Sound v) (hv' : h.Sound v') : v' = v := by
  have hchain : h.chain v'.spans = h.chain v.spans :=
    hv'.tiles.eq_of_headers h.valid hv.tiles hv'.tagged hv.tagged fun _ _ => rfl
  have hring : v'.ring = v.ring := hv'.threads.eq_of_next hv.threads hv'.holds.tail_not_mem
    hv.holds.tail_not_mem fun _ _ => rfl
  cases v
  cases v'
  rw [View.mk.injEq]
  exact ⟨List.append_cancel_left hchain, hring⟩

end Heap

end TaggedHeap
