import TaggedHeap.Heap.BestFit
import TaggedHeap.Proofs.Walk

/-!
# The best fit

The search walks the links from block to block, and is limited in the number of steps.  On a
sound heap it comes to the same as going through the free blocks in the order of the list
(`Heap.Sound.bestFit?_eq`): the limit is never reached, and the tail sentinel, which is looked
at last, is in use.
-/

namespace TaggedHeap

namespace Span

/-- The best of `best` and the given blocks, the first of which that has exactly the size asked
for is taken at once. -/
def pick (need : Nat) : (best : Option Candidate) → List Span → Option Candidate
  | best, [] => best
  | best, x :: xs =>
    if need ≤ x.size ∧ ∀ c ∈ best, x.size < c.size then
      if x.size = need then some ⟨x.offset, x.size⟩
      else pick need (some ⟨x.offset, x.size⟩) xs
    else pick need best xs

variable {need : Nat} {best : Option Candidate} {xs : List Span} {c : Candidate}

theorem exists_of_pick (h : pick need best xs = some c) :
    best = some c ∨ ∃ x ∈ xs, c = ⟨x.offset, x.size⟩ ∧ need ≤ x.size := by
  induction xs generalizing best with
  | nil => exact .inl h
  | cons x xs ih =>
    rw [pick] at h
    split at h
    · rename_i hx
      have hbest : some ⟨x.offset, x.size⟩ = some c →
          ∃ y ∈ x :: xs, c = ⟨y.offset, y.size⟩ ∧ need ≤ y.size :=
        fun hc => ⟨x, by simp, (Option.some.inj hc).symm, hx.1⟩
      split at h
      · exact .inr (hbest h)
      · rcases ih h with hc | ⟨y, hy, hc⟩
        · exact .inr (hbest hc)
        · exact .inr ⟨y, List.mem_cons_of_mem _ hy, hc⟩
    · exact (ih h).imp_right fun ⟨y, hy, hc⟩ => ⟨y, List.mem_cons_of_mem _ hy, hc⟩

end Span

namespace Heap

variable {h : Heap} {v : View} {need : Nat}

theorem improves_iff {t : Tag} {best : Option Candidate} :
    improves need t best ↔ t.isFree ∧ need ≤ t.size ∧ ∀ c ∈ best, t.size < c.size := by
  cases best <;> simp [improves, and_assoc]

theorem Holds.bestFitFrom_eq (hv : h.Holds v) {xs : List Span} {before : List Nat} {limit : Nat}
    (hxs : ∀ x ∈ xs, x ∈ v.spans ∧ x.free)
    (hnodes : h.nodes v.ring = before ++ (xs.map Span.offset ++ [h.tail]))
    (hlimit : xs.length < limit) (best : Option Candidate) :
    h.bestFitFrom need limit best ((xs.map Span.offset ++ [h.tail]).head?) =
      .ok (Span.pick need best xs) := by
  induction xs generalizing limit before best with
  | nil =>
    -- the search passes the tail sentinel too, which is in use
    obtain ⟨t, ht, -, hfree⟩ := hv.tag_eq (x := ⟨h.tail, h.layout.minBlock, false⟩)
      (by simp [chain, sentinels])
    cases limit with
    | zero => exact absurd hlimit (Nat.not_lt_zero _)
    | succ limit =>
      have hnot : improves need t best = false := by
        simp [improves, hfree]
      simp only [List.map_nil, List.nil_append, List.head?_cons, bestFitFrom, ht, ok_bind, hnot,
        hv.neighbour?_next_eq hnodes, List.head?_nil]
      cases limit <;> rfl
  | cons x xs ih =>
    obtain ⟨hmx, hfree⟩ := hxs x (by simp)
    obtain ⟨t, ht, hsize, htfree⟩ := hv.tag_eq (mem_chain_of_mem hmx)
    cases limit with
    | zero => exact absurd hlimit (Nat.not_lt_zero _)
    | succ limit =>
      have hrest := ih (fun y hy => hxs y (List.mem_cons_of_mem _ hy))
        (show h.nodes v.ring = (before ++ [x.offset]) ++ (xs.map Span.offset ++ [h.tail]) by
          simp [hnodes])
        (show xs.length < limit by simpa using hlimit)
      rw [List.map_cons, List.cons_append] at hnodes ⊢
      have himp : improves need t best ↔ need ≤ x.size ∧ ∀ c ∈ best, x.size < c.size := by
        rw [improves_iff, htfree, hfree, hsize]
        simp
      simp only [List.head?_cons, bestFitFrom, ht, ok_bind, himp, hsize,
        hv.neighbour?_next_eq hnodes, hrest, Span.pick]
      split_ifs <;> rfl

/-- **The search answers the best fit** among the free blocks in the order of the list. -/
theorem Sound.bestFit?_eq (hv : h.Sound v) (need : Nat) {xs : List Span}
    (hperm : xs.Perm (v.spans.filter Span.free)) (hring : xs.map Span.offset = v.ring) :
    h.bestFit? need = .ok ((Span.pick need none xs).map Candidate.block) := by
  have hnodes : h.nodes v.ring = [h.head] ++ (xs.map Span.offset ++ [h.tail]) := by
    rw [nodes, hring]
    rfl
  have hlen := hv.holds.length_le
  have hlimit : xs.length < h.arena.size + 1 := by
    have := List.length_filter_le Span.free v.spans
    have := hperm.length_eq
    omega
  have hxs : ∀ x ∈ xs, x ∈ v.spans ∧ x.free := fun x hx =>
    List.mem_filter.1 (hperm.subset hx)
  rw [bestFit?, hv.holds.neighbour?_next_eq (show h.nodes v.ring =
    [] ++ h.head :: (xs.map Span.offset ++ [h.tail]) from hnodes), ok_bind,
    hv.holds.bestFitFrom_eq hxs hnodes hlimit, ok_bind]
  rfl

theorem Sound.exists_of_bestFit? (hv : h.Sound v) {need block : Nat}
    (hfit : h.bestFit? need = .ok (some block)) :
    ∃ x ∈ v.spans, x.free ∧ x.offset = block ∧ need ≤ x.size := by
  obtain ⟨xs, hperm, hring⟩ := hv.exists_listing
  rw [hv.bestFit?_eq need hperm hring, Except.ok.injEq] at hfit
  obtain ⟨c, hpick, rfl⟩ := Option.map_eq_some_iff.1 hfit
  obtain ⟨x, hx, rfl, hle⟩ := (Span.exists_of_pick hpick).resolve_left (by simp)
  obtain ⟨hmem, hfree⟩ := List.mem_filter.1 (hperm.subset hx)
  exact ⟨x, hmem, hfree, rfl, hle⟩

end Heap

end TaggedHeap
