import TaggedHeap.Proofs.BestFit
import TaggedHeap.Proofs.Session

/-!
# Allocating

A request for some bytes is either refused or served by a block that was not in use before.  All
blocks in use before are in use afterwards with the bytes they had.  The block served is the best
fit among the free blocks (`allocate_reused`) or lies on top of the others (`allocate_grown`),
and in either case it is smaller than the least size that serves the request and a whole block
together (`Span.Suits`).
-/

namespace TaggedHeap

/-- The block is in use, has room for `size` bytes, and has not so much that a free block could be
cut off. -/
structure Span.Suits (l : Layout) (size : Nat) (x : Span) : Prop where
  /-- The block is in use. -/
  used : x.free = false
  /-- Its size is that of a block for `size` bytes, or slightly larger. -/
  fits : ∃ need, l.Serves size need ∧ need ≤ x.size ∧ x.size < need + l.minBlock

theorem Span.Suits.le {l : Layout} {size : Nat} {x : Span} (hx : x.Suits l size) :
    size + 8 ≤ x.size := by
  obtain ⟨need, hserves, hle, -⟩ := hx.fits
  exact hserves.le.trans hle

theorem Span.suits_taken {l : Layout} {size need total : Nat} (hl : l.Valid)
    (hserves : l.Serves size need) (hle : need ≤ total) (x : Span) :
    (Span.taken l x total need).Suits l size := by
  have hpos : 16 ≤ l.minBlock := hl.four_words_le
  refine ⟨rfl, need, hserves, ?_, ?_⟩ <;> rw [taken] <;> split <;> simp only <;> omega

open Heap SessionM

variable {s : Session} {v : View} {pre post : List Span} {left : Option Span} {node x : Span}
  {ring before after : List Nat} {size need : Nat}

theorem blockSize_cases (size : Nat) (s : Session) :
    (∃ need, s.heap.layout.Serves size need ∧ need ≤ maxTagged ∧ blockSize size s = .ok need s) ∨
      (∀ need, s.heap.layout.Serves size need → maxTagged < need) ∧
        blockSize size s = .error (.failed (.outOfMemory size)) s := by
  have hiff : ∀ n, s.heap.layout.blockSizeFor? size = some n ↔
      s.heap.layout.Serves size n ∧ n < Address.space := fun _ =>
    s.heap.valid.blockSizeFor?_eq_some_iff
  rw [blockSize, get_bind]
  cases hneed : s.heap.layout.blockSizeFor? size with
  | none =>
    refine .inr ⟨fun need hserves => ?_, rfl⟩
    by_contra hle
    have hsome := (hiff need).2 ⟨hserves, Nat.lt_of_le_of_lt (Nat.not_lt.1 hle) (by decide)⟩
    cases hneed.symm.trans hsome
  | some need =>
    obtain ⟨hserves, -⟩ := (hiff need).1 hneed
    by_cases hle : need ≤ maxTagged
    · exact .inl ⟨need, hserves, hle, by simp only [if_pos hle]; rfl⟩
    · refine .inr ⟨fun n hn => hn.eq hserves ▸ Nat.not_le.1 hle, ?_⟩
      simp only [if_neg hle]
      rfl

/-- **A free block serves the request**, if it is the best fit. -/
theorem allocate_reused (hv : s.heap.Sound ⟨pre ++ [node] ++ post, before ++ node.offset :: after⟩)
    (hsize : s.heap.arena.size ≤ maxTagged) (hpos : size ≠ 0)
    (hneed : blockSize size s = .ok need s) (hserves : s.heap.layout.Serves size need)
    (hfit : s.heap.bestFit? need = .ok (some node.offset)) (hle : need ≤ node.size) :
    ∃ h' log, allocate size s = .ok (some (.ofHeader node.offset)) ⟨h', log⟩ ∧
      h'.Sound ⟨pre ++ Span.carved s.heap.layout node node.size need ++ post,
        before ++ Span.freeHeaders (Span.carved s.heap.layout node node.size need) ++ after⟩ ∧
      s.heap.Evolves h' (s.heap.safe (Span.used (pre ++ post))) ∧
      h'.arena.size = s.heap.arena.size := by
  obtain ⟨h', log, hrun, hspec⟩ := occupy_spec hv hsize hserves.admits hle
  refine ⟨h', log.push (.allocated size node.offset .reused), ?_, hspec⟩
  rw [allocate, if_neg hpos, bind_ok hneed, bind_ok (ask_ok hfit)]
  exact (bind_ok hrun).trans rfl

/-- **The arena grows for the request**, if no free block is large enough. -/
theorem allocate_grown (hv : s.heap.Sound ⟨pre ++ left.toList, ring⟩) (hleft : ∀ y ∈ left, y.free)
    (hbelow : ∀ y, Span.Separated (pre ++ [y])) (hpos : size ≠ 0)
    (hneed : blockSize size s = .ok need s) (hserves : s.heap.layout.Serves size need)
    (hmax : need ≤ maxTagged) (hfit : s.heap.bestFit? need = .ok none)
    (hx : x = Span.merged left ⟨s.heap.arena.size - 4, need, true⟩ none) :
    Answers (allocate size) s fun r h' => r = some (.ofHeader x.offset) ∧
      h'.Sound ⟨pre ++ Span.carved s.heap.layout x x.size need,
        Span.freeHeaders (Span.carved s.heap.layout x x.size need) ++
          ring.diff (left.toList.map Span.offset)⟩ ∧
      s.heap.Evolves h' (s.heap.safe (Span.used pre)) ∧
      h'.arena.size = s.heap.arena.size + need := by
  have hgrow := growFor_spec hv hleft hbelow hserves.admits hmax hx
  rw [allocate, if_neg hpos, Answers, bind_ok hneed, bind_ok (ask_ok hfit)]
  refine hgrow.noteError.bind ?_
  rintro _ h' log ⟨rfl, hv', he, hsame⟩
  have hle : need ≤ x.size := hx ▸ Span.size_le_merged left ⟨_, need, true⟩ none
  obtain ⟨h'', log', hrun, hv'', he', hsame'⟩ := occupy_spec (s := ⟨h', log⟩)
    (show h'.Sound ⟨pre ++ [x] ++ [], [] ++ x.offset :: ring.diff (left.toList.map Span.offset)⟩ by
      simpa using hv') he.size_le (he.layout_eq ▸ hserves.admits) hle
  refine ⟨_, h'', log'.push (.allocated size x.offset .grown), (bind_ok hrun).trans rfl, rfl, ?_,
    he.trans ?_, hsame'.trans hsame⟩
  · simpa [he.layout_eq] using hv''
  · rw [List.append_nil, he.safe_eq] at he'
    exact he'

/-- **A request is served** by a block that was not in use, or refused. -/
theorem allocate_spec (hv : s.heap.Sound v) (hsize : s.heap.arena.size ≤ maxTagged)
    (hpos : size ≠ 0) :
    Answers (allocate size) s fun r h' => ∃ v' x, r = some (.ofHeader x.offset) ∧ h'.Sound v' ∧
      x.Suits s.heap.layout size ∧ (Span.used v'.spans).Perm (x :: Span.used v.spans) ∧
      s.heap.Evolves h' (s.heap.safe (Span.used v.spans)) := by
  rcases blockSize_cases size s with ⟨need, hserves, hmax, hneed⟩ | ⟨-, hrefused⟩
  · obtain ⟨xs, hperm, hring⟩ := hv.exists_listing
    rcases hfit : (Span.pick need none xs).map Candidate.block with _ | block
    · -- no free block is large enough, and the heap grows
      have hfit := (hv.bestFit?_eq need hperm hring).trans (congrArg _ hfit)
      obtain ⟨lo, left, hspans, hleft, hbelow⟩ := Span.exists_left hv.separated
      have hv₀ : s.heap.Sound ⟨lo ++ left.toList, v.ring⟩ := by rwa [← hspans]
      obtain ⟨x, hx⟩ : ∃ x, x = Span.merged left ⟨s.heap.arena.size - 4, need, true⟩ none :=
        ⟨_, rfl⟩
      refine (allocate_grown hv₀ hleft hbelow hpos hneed hserves hmax hfit hx).mono ?_
      rintro _ h' ⟨rfl, hv', he, -⟩
      have hused : Span.used v.spans = Span.used lo := by
        rw [hspans, Span.used_append, Span.used, Span.used, List.append_right_eq_self,
          List.filter_eq_nil_iff]
        exact fun y hy => by simp [hleft y (Option.mem_toList.1 hy)]
      refine ⟨_, Span.taken s.heap.layout x x.size need, rfl, hv',
        Span.suits_taken s.heap.valid hserves ?_ _, ?_, hused ▸ he⟩
      · exact hx ▸ Span.size_le_merged left ⟨_, need, true⟩ none
      · simp only [Span.used_append, Span.used_carved, hused]
        exact List.perm_append_singleton _ _
    · have hfit := (hv.bestFit?_eq need hperm hring).trans (congrArg _ hfit)
      obtain ⟨node, hmem, hfree, rfl, hle⟩ := hv.exists_of_bestFit? hfit
      obtain ⟨pre, post, before, after, rfl⟩ := hv.exists_of_free hmem hfree
      obtain ⟨h', log, hrun, hv', he, -⟩ :=
        allocate_reused hv hsize hpos hneed hserves hfit hle
      have hused : Span.used (pre ++ [node] ++ post) = Span.used (pre ++ post) := by
        simp [Span.used, hfree]
      refine .inl ⟨_, h', log, hrun, _, Span.taken s.heap.layout node _ need, rfl, hv',
        Span.suits_taken s.heap.valid hserves hle _, ?_, hused ▸ he⟩
      rw [hused]
      simp only [Span.used_append, Span.used_carved, List.append_assoc, List.singleton_append]
      exact List.perm_middle
  · refine .inr ⟨size, s.heap, s.log, ?_, .refl _⟩
    rw [allocate, if_neg hpos, bind_error hrefused]

end TaggedHeap
