import TaggedHeap.Proofs.Edit
import Mathlib.Data.List.Chain
import Mathlib.Data.List.Infix
import Mathlib.Data.List.Nodup

/-!
# Threading the list of free blocks

A list of headers is threaded through an arena when each one is linked with the next in both
directions (`Arena.Threads`).  Links are words, so what is stored is read back only when both
headers lie in an arena of at most `maxTagged` bytes and differ by a positive multiple of the
word size (`Link.resolve_encode`, `Link.encode_ne_zero`); and storing a link changes no other
link only when headers lie apart (`Arena.Spaced`).

All surgery comes down to one operation.  `Heap.splice_spec`: two threaded lists become a
single one when the end of the first is spliced to the start of the second.
-/

namespace TaggedHeap

namespace Link

@[simp] theorem slot_next : slot .next = 4 := rfl

@[simp] theorem slot_prev : slot .prev = 8 := rfl

section Distance

variable {block target : Nat} (hblock : block ≤ maxTagged) (htarget : target ≤ maxTagged)

include hblock htarget

theorem distance_eq : distance block target = target - block := by
  simp only [maxTagged] at hblock htarget
  rw [distance, Address.signed, Address.signed, if_pos (by rw [Address.space]; omega),
    if_pos (by rw [Address.space]; omega)]

variable (hmod : block % 4 = target % 4)

include hmod

theorem exact : Exact block target := by
  rw [Exact, distance_eq hblock htarget]
  simp only [maxTagged] at hblock htarget
  simp only [Int.cast_ofNat_Int]
  omega

/-- The distance in words, which is stored for a link. -/
theorem signed_encode :
    ∃ d : Int, Word.signed (encode block target) = d ∧ d * 4 = target - block := by
  have hdiv : (target - block : Int).tdiv wordBytes * 4 = target - block :=
    Int.tdiv_mul_cancel (by simp only [Int.cast_ofNat_Int]; omega)
  refine ⟨_, ?_, hdiv⟩
  rw [encode, distance_eq hblock htarget]
  simp only [maxTagged] at hblock htarget
  simp only [Int.cast_ofNat_Int] at hdiv ⊢
  exact Word.signed_ofSigned (by omega) (by omega)

theorem resolve_encode : resolve block (encode block target) = target := by
  obtain ⟨d, hd, hmul⟩ := signed_encode hblock htarget hmod
  simp only [maxTagged] at hblock htarget
  rw [resolve, Address.wrappingOffset, hd, Int.cast_ofNat_Int, hmul, Address.space]
  omega

theorem encode_ne_zero (hne : block ≠ target) : encode block target ≠ 0 := by
  intro h
  obtain ⟨d, hd, hmul⟩ := signed_encode hblock htarget hmod
  rw [h, Word.signed_eq_zero_iff.2 rfl] at hd
  rw [← hd] at hmul
  omega

end Distance

end Link

namespace Arena

variable {a b : Arena} {s : Set Nat}

/-! ### Links -/

/-- The block that a link of the block at `block` leads to, if there is one. -/
def link? (a : Arena) (block : Nat) (l : Link) : Option Nat :=
  if a.peek (block + l.slot) = 0 then none
  else some (Link.resolve block (a.peek (block + l.slot)))

/-- The blocks at `x` and `y` are neighbours in the list. -/
def Linked (a : Arena) (x y : Nat) : Prop :=
  a.link? x .next = some y ∧ a.link? y .prev = some x

/-- Each of the blocks is linked with the next one. -/
def Threads (a : Arena) (nodes : List Nat) : Prop := nodes.IsChain a.Linked

/-- Offsets of a link of the block at `block`. -/
def linkBytes (block : Nat) (l : Link) : Set Nat :=
  Set.Ico (block + l.slot) (block + l.slot + 4)

/-- The link words of two blocks do not overlap, and a link between the blocks is a whole
number of words. -/
def Apart (x y : Nat) : Prop :=
  (x + 12 ≤ y ∨ y + 12 ≤ x) ∧ x % 4 = y % 4

/-- The blocks lie apart, and their link words inside the arena. -/
structure Spaced (a : Arena) (nodes : List Nat) : Prop where
  /-- The blocks lie apart. -/
  apart : nodes.Pairwise Apart
  /-- The link words lie inside the arena. -/
  inside : ∀ x ∈ nodes, x + 12 ≤ a.size

instance : Std.Symm Apart := ⟨fun _ _ h => ⟨h.1.symm, h.2.symm⟩⟩

instance (x y : Nat) : Decidable (Apart x y) := by
  unfold Apart
  infer_instance

instance (a : Arena) (x y : Nat) : Decidable (a.Linked x y) := by
  unfold Linked
  infer_instance

instance (a : Arena) (nodes : List Nat) : Decidable (a.Threads nodes) := by
  unfold Threads
  infer_instance

theorem mem_linkBytes {block i : Nat} {l : Link} :
    i ∈ linkBytes block l ↔ block + l.slot ≤ i ∧ i < block + l.slot + 4 := Iff.rfl

theorem Keeps.link?_eq (hab : a.Keeps b s) {block : Nat} {l : Link}
    (h : linkBytes block l ⊆ s) : b.link? block l = a.link? block l := by
  rw [link?, link?, hab.peek_eq fun i h₁ h₂ => h ⟨h₁, h₂⟩]

theorem Edit.link?_eq (hab : a.Edit b s) {block : Nat} {l : Link}
    (h : ∀ i ∈ linkBytes block l, i ∉ s) : b.link? block l = a.link? block l :=
  hab.keeps.link?_eq h

namespace Spaced

variable {nodes nodes' : List Nat}

theorem nodup (h : a.Spaced nodes) : nodes.Nodup := by
  refine h.apart.imp fun ⟨hxy, _⟩ => ?_
  rintro rfl
  omega

theorem sublist (h : a.Spaced nodes) (hs : nodes'.Sublist nodes) : a.Spaced nodes' :=
  ⟨h.apart.sublist hs, fun x hx => h.inside x (hs.subset hx)⟩

theorem perm (h : a.Spaced nodes) (hp : nodes.Perm nodes') : a.Spaced nodes' :=
  ⟨(hp.pairwise_iff fun hxy => symm hxy).1 h.apart,
    fun x hx => h.inside x (hp.mem_iff.2 hx)⟩

theorem of_size_eq (h : a.Spaced nodes) (hs : b.size = a.size) : b.Spaced nodes :=
  ⟨h.apart, fun x hx => hs ▸ h.inside x hx⟩

theorem apart_of_ne (h : a.Spaced nodes) {x y : Nat} (hx : x ∈ nodes) (hy : y ∈ nodes)
    (hne : x ≠ y) : Apart x y :=
  h.apart.forall hx hy hne

/-- Link words of different blocks do not overlap, nor do those of one block. -/
theorem linkBytes_disjoint (h : a.Spaced nodes) {x y : Nat} (hx : x ∈ nodes) (hy : y ∈ nodes)
    {l m : Link} (hne : x ≠ y ∨ l ≠ m) : ∀ i ∈ linkBytes x l, i ∉ linkBytes y m := by
  intro i hi hi'
  rw [mem_linkBytes] at hi hi'
  by_cases hxy : x = y
  · subst hxy
    cases l <;> cases m <;> simp only [Link.slot_next, Link.slot_prev] at hi hi' <;>
      first | omega | simp at hne
  · have := (h.apart_of_ne hx hy hxy).1
    cases l <;> cases m <;> simp only [Link.slot_next, Link.slot_prev] at hi hi' <;> omega

end Spaced

namespace Threads

variable {nodes xs ys : List Nat} {x y : Nat}

/-- Only the links forward from all but the last block and back from all but the first are
read. -/
theorem of_link?_eq (h : a.Threads nodes)
    (hnext : ∀ z ∈ nodes.dropLast, b.link? z .next = a.link? z .next)
    (hprev : ∀ z ∈ nodes.tail, b.link? z .prev = a.link? z .prev) : b.Threads nodes := by
  rw [Threads, List.isChain_iff_getElem] at h ⊢
  intro i hi
  obtain ⟨h₁, h₂⟩ := h i hi
  refine ⟨(hnext _ ?_).trans h₁, (hprev _ ?_).trans h₂⟩
  · have hi' : i < nodes.dropLast.length := by rw [List.length_dropLast]; omega
    exact List.getElem_dropLast hi' ▸ List.getElem_mem hi'
  · have hi' : i < nodes.tail.length := by rw [List.length_tail]; omega
    exact List.getElem_tail hi' ▸ List.getElem_mem hi'

theorem keep (h : a.Threads nodes) (hab : a.Keeps b s)
    (hs : ∀ x ∈ nodes, ∀ l, linkBytes x l ⊆ s) : b.Threads nodes :=
  h.of_link?_eq (fun z hz => hab.link?_eq (hs z (List.mem_of_mem_dropLast hz) _))
    fun z hz => hab.link?_eq (hs z (List.mem_of_mem_tail hz) _)

theorem edit (h : a.Threads nodes) (hab : a.Edit b s)
    (hs : ∀ x ∈ nodes, ∀ l, ∀ i ∈ linkBytes x l, i ∉ s) : b.Threads nodes :=
  h.keep hab.keeps hs

/-- A list that does not come back to its start visits nothing twice, since every link back
leads to one block only. -/
theorem nodup {x : Nat} {xs : List Nat} (h : a.Threads (x :: xs)) (hx : x ∉ xs) :
    (x :: xs).Nodup := by
  have hback : ∀ i j (hi : i < j) (hj : j < (x :: xs).length),
      (x :: xs).get ⟨i, hi.trans hj⟩ ≠ (x :: xs).get ⟨j, hj⟩ := by
    rw [Threads, List.isChain_iff_getElem] at h
    intro i
    induction i with
    | zero =>
      intro j hi hj heq
      match j with
      | j + 1 =>
        have heq : x = xs.get ⟨j, Nat.lt_of_succ_lt_succ hj⟩ := heq
        exact hx (heq ▸ List.getElem_mem _)
    | succ i ih =>
      intro j hi hj heq
      match j with
      | j + 1 =>
        have h₁ := (h i (by omega)).2
        have h₂ := (h j (by omega)).2
        have heq : (x :: xs)[i + 1] = (x :: xs)[j + 1] := heq
        rw [heq, h₂] at h₁
        exact ih j (by omega) (by omega) (Option.some.inj h₁).symm
  exact List.pairwise_iff_getElem.2 fun i j _ hj hi => hback i j hi hj

/-- Linking the end of one list with the start of another joins the lists. -/
theorem append (hnodes : a.Threads (xs ++ [x])) (hnodes' : a.Threads (y :: ys))
    (hxy : a.Linked x y) : a.Threads (xs ++ x :: y :: ys) := by
  rw [Threads, List.isChain_split]
  exact ⟨hnodes, List.isChain_cons_cons.2 ⟨hxy, hnodes'⟩⟩

end Threads

end Arena

namespace Heap

open Arena

variable {h : Heap} {x y n : Nat} {xs ys : List Nat} {l : Link}

/-! ### Following and storing links -/

theorem add_slot_le {n : Nat} (hx : x + 12 ≤ n) (l : Link) : x + l.slot + 4 ≤ n := by
  cases l <;> simp only [Link.slot_next, Link.slot_prev] <;> omega

section Slot

variable (hx : x + l.slot + 4 ≤ h.arena.size)

include hx

theorem linkWord_of_slot_le : h.linkWord x l = .ok (h.arena.peek (x + l.slot)) := by
  rw [linkWord, add_of_le (a := h.arena) (by omega), ok_bind, word_of_le hx]

theorem neighbour?_of_slot_le : h.neighbour? x l = .ok (h.arena.link? x l) := by
  rw [neighbour?, linkWord_of_slot_le hx, ok_bind, link?, pure_eq_ok]

theorem neighbour_of_slot_le (hy : h.arena.link? x l = some y) : h.neighbour x l = .ok y := by
  rw [link?] at hy
  split at hy
  · cases hy
  · rw [neighbour, linkWord_of_slot_le hx, ok_bind, pure_eq_ok, Option.some.inj hy]

/-- **A link that is stored leads where it should**, to any other header that is a whole number of
words away. -/
theorem setLink_of_slot_le (hsize : h.arena.size ≤ maxTagged) (hy : y ≤ h.arena.size)
    (hmod : x % 4 = y % 4) (hne : x ≠ y) :
    ∃ b, h.setLink x l y = .ok { h with arena := b } ∧ h.arena.Edit b (linkBytes x l) ∧
      b.link? x l = some y := by
  have hx' : x ≤ maxTagged := by omega
  have hy' : y ≤ maxTagged := by omega
  obtain ⟨b, hb, hedit, hpeek⟩ := setWord_spec (h := h) (Link.encode x y) hx
  refine ⟨b, ?_, hedit, ?_⟩
  · simp only [setLink, add_of_le (a := h.arena) (show x + l.slot ≤ _ by omega), ok_bind,
      Link.exact hx' hy' hmod, not_true_eq_false, and_false, if_false, hb]
  · -- a link to another block is never read as none
    rw [link?, hpeek, if_neg (Link.encode_ne_zero hx' hy' hmod hne),
      Link.resolve_encode hx' hy' hmod]

end Slot

theorem neighbour?_of_le (hx : x + 12 ≤ h.arena.size) :
    h.neighbour? x l = .ok (h.arena.link? x l) := neighbour?_of_slot_le (add_slot_le hx l)

theorem neighbour_of_link? (hx : x + 12 ≤ h.arena.size) (hy : h.arena.link? x l = some y) :
    h.neighbour x l = .ok y := neighbour_of_slot_le (add_slot_le hx l) hy

theorem setLink_spec (l : Link) (hsize : h.arena.size ≤ maxTagged)
    (hx : x + 12 ≤ h.arena.size) (hy : y + 12 ≤ h.arena.size) (hxy : Apart x y) :
    ∃ b, h.setLink x l y = .ok { h with arena := b } ∧ h.arena.Edit b (linkBytes x l) ∧
      b.link? x l = some y :=
  setLink_of_slot_le (add_slot_le hx l) hsize (by omega) hxy.2
    (by rintro rfl; have := hxy.1; omega)

theorem clearLink_spec (l : Link) (hx : x + 12 ≤ h.arena.size) :
    ∃ b, h.clearLink x l = .ok { h with arena := b } ∧ h.arena.Edit b (linkBytes x l) ∧
      b.link? x l = none := by
  have hle := add_slot_le hx l
  obtain ⟨b, hb, hedit, hpeek⟩ := setWord_spec (h := h) 0 hle
  refine ⟨b, ?_, hedit, ?_⟩
  · rw [clearLink, add_of_le (a := h.arena) (by omega), ok_bind, hb]
  · rw [link?, hpeek, if_pos rfl]

/-! ### Surgery -/

/-- **Splicing joins two lists**, and writes nothing but the two links that meet. -/
theorem splice_spec (hsize : h.arena.size ≤ maxTagged)
    (hspaced : h.arena.Spaced (xs ++ x :: y :: ys)) (hxs : h.arena.Threads (xs ++ [x]))
    (hys : h.arena.Threads (y :: ys)) :
    ∃ b, h.splice x y = .ok { h with arena := b } ∧
      h.arena.Edit b (linkBytes x .next ∪ linkBytes y .prev) ∧
      b.Threads (xs ++ x :: y :: ys) := by
  have hmx : x ∈ xs ++ x :: y :: ys := by simp
  have hmy : y ∈ xs ++ x :: y :: ys := by simp
  have hnodup := hspaced.nodup
  rw [List.nodup_append'] at hnodup
  obtain ⟨-, hnodup, hdisj⟩ := hnodup
  rw [List.nodup_cons, List.nodup_cons, List.mem_cons, not_or] at hnodup
  obtain ⟨⟨hne, hxys⟩, hyys, -⟩ := hnodup
  have hin := hspaced.inside
  have hap := hspaced.apart_of_ne hmx hmy hne
  obtain ⟨a₁, h₁, hedit₁, hlink₁⟩ :=
    setLink_spec (h := h) .next hsize (hin x hmx) (hin y hmy) hap
  have hs₁ := hedit₁.size_eq
  obtain ⟨b, h₂, hedit₂, hlink₂⟩ := setLink_spec (h := { h with arena := a₁ }) .prev
    (hs₁ ▸ hsize) (hs₁ ▸ hin y hmy) (hs₁ ▸ hin x hmx) (symm hap)
  have hedit := hedit₁.trans hedit₂
  -- only the link forward from `x` and the link back from `y` differ
  have hnext : ∀ z ∈ xs ++ x :: y :: ys, z ≠ x → b.link? z .next = h.arena.link? z .next := by
    refine fun z hz hzx => hedit.link?_eq fun i hi => ?_
    rintro (hi' | hi')
    · exact hspaced.linkBytes_disjoint hz hmx (.inl hzx) i hi hi'
    · exact hspaced.linkBytes_disjoint hz hmy (.inr (by decide)) i hi hi'
  have hprev : ∀ z ∈ xs ++ x :: y :: ys, z ≠ y → b.link? z .prev = h.arena.link? z .prev := by
    refine fun z hz hzy => hedit.link?_eq fun i hi => ?_
    rintro (hi' | hi')
    · exact hspaced.linkBytes_disjoint hz hmx (.inr (by decide)) i hi hi'
    · exact hspaced.linkBytes_disjoint hz hmy (.inl hzy) i hi hi'
  refine ⟨b, by simp only [splice, h₁, ok_bind, h₂], hedit, .append ?_ ?_ ⟨?_, hlink₂⟩⟩
  · refine hxs.of_link?_eq (fun z hz => ?_) fun z hz => ?_
    · rw [List.dropLast_concat] at hz
      exact hnext z (by simp [hz]) fun e => hdisj hz (by simp [e])
    · obtain hz | rfl :=
        (List.mem_append.1 (List.mem_of_mem_tail hz)).imp_right List.mem_singleton.1
      · exact hprev z (by simp [hz]) fun e => hdisj hz (by simp [e])
      · exact hprev z hmx hne
  · refine hys.of_link?_eq (fun z hz => ?_) fun z hz => ?_
    · have hz := List.mem_of_mem_dropLast hz
      refine hnext z (List.mem_append_right _ (List.mem_cons_of_mem _ hz)) ?_
      rintro rfl
      exact (List.mem_cons.1 hz).elim hne hxys
    · rw [List.tail_cons] at hz
      exact hprev z (by simp [hz]) fun e => hyys (e ▸ hz)
  · rw [← hlink₁]
    exact hedit₂.link?_eq (hspaced.linkBytes_disjoint hmx hmy (.inr (by decide)))

/-- A block between two others is taken out of the list. -/
theorem unlink_spec (hsize : h.arena.size ≤ maxTagged)
    (hspaced : h.arena.Spaced (xs ++ x :: n :: y :: ys))
    (hnodes : h.arena.Threads (xs ++ x :: n :: y :: ys)) :
    ∃ b, h.unlink n = .ok { h with arena := b } ∧
      h.arena.Edit b (linkBytes x .next ∪ linkBytes y .prev) ∧
      b.Threads (xs ++ x :: y :: ys) := by
  have hin := hspaced.inside n (by simp)
  rw [Threads, List.isChain_split, List.isChain_cons_cons, List.isChain_cons_cons] at hnodes
  obtain ⟨hxs, hxn, hny, hys⟩ := hnodes
  have hspaced' : h.arena.Spaced (xs ++ x :: y :: ys) :=
    hspaced.sublist (.append_left (.cons_cons _ (.cons _ (.refl _))) _)
  obtain ⟨b, hb, hspec⟩ := splice_spec hsize hspaced' hxs hys
  exact ⟨b, by simp only [unlink, neighbour_of_link? hin hxn.2, neighbour_of_link? hin hny.1,
    ok_bind, hb], hspec⟩

/-- A block enters the list after the head sentinel. -/
theorem pushFront_spec (hsize : h.arena.size ≤ maxTagged)
    (hspaced : h.arena.Spaced (h.head :: n :: y :: ys))
    (hnodes : h.arena.Threads (h.head :: y :: ys)) :
    ∃ b, h.pushFront n = .ok { h with arena := b } ∧
      h.arena.Edit b (linkBytes n .next ∪ linkBytes y .prev ∪
        (linkBytes h.head .next ∪ linkBytes n .prev)) ∧
      b.Threads (h.head :: n :: y :: ys) := by
  have hin := hspaced.inside h.head (by simp)
  obtain ⟨hhy, hys⟩ := List.isChain_cons_cons.1 hnodes
  have hspaced' := hspaced.sublist (.cons _ (.refl _))
  obtain ⟨a₁, h₁, hedit₁, hthr₁⟩ :=
    splice_spec hsize (show h.arena.Spaced ([] ++ n :: y :: ys) from hspaced')
      (List.IsChain.singleton _) hys
  have hs₁ := hedit₁.size_eq
  obtain ⟨b, h₂, hedit₂, hthr₂⟩ := splice_spec (h := { h with arena := a₁ })
    (hs₁ ▸ hsize) (show a₁.Spaced ([] ++ h.head :: n :: y :: ys) from hspaced.of_size_eq hs₁)
    (List.IsChain.singleton _) hthr₁
  exact ⟨b, by simp only [pushFront, neighbour_of_link? hin hhy.1, h₁, ok_bind, h₂],
    hedit₁.trans hedit₂, hthr₂⟩

/-- A block takes the place between two others, whatever was there before. -/
theorem relink_spec (hsize : h.arena.size ≤ maxTagged)
    (hspaced : h.arena.Spaced (xs ++ x :: n :: y :: ys)) (hxs : h.arena.Threads (xs ++ [x]))
    (hys : h.arena.Threads (y :: ys)) :
    ∃ a b, h.splice x n = .ok { h with arena := a } ∧
      { h with arena := a : Heap }.splice n y = .ok { h with arena := b } ∧
      h.arena.Edit b (linkBytes x .next ∪ linkBytes n .prev ∪
        (linkBytes n .next ∪ linkBytes y .prev)) ∧
      b.Threads (xs ++ x :: n :: y :: ys) := by
  have hspaced' : h.arena.Spaced (xs ++ [x, n]) :=
    hspaced.sublist (.append_left (.cons_cons _ (.cons_cons _ (List.nil_sublist _))) _)
  obtain ⟨a, h₁, hedit₁, hthr₁⟩ := splice_spec hsize hspaced' hxs (List.IsChain.singleton _)
  have hs₁ := hedit₁.size_eq
  have hnodup := hspaced.nodup
  -- the rest of the list does not hold the links that the first splice sets
  have hys₁ : a.Threads (y :: ys) := hys.edit hedit₁ fun z hz l i hi => by
    have hmz : z ∈ xs ++ x :: n :: y :: ys := by simp [List.mem_cons.1 hz]
    have hzx : z ≠ x := by rintro rfl; simp [List.nodup_append] at hnodup hz; tauto
    have hzn : z ≠ n := by rintro rfl; simp [List.nodup_append] at hnodup hz; tauto
    rintro (hi' | hi')
    · exact hspaced.linkBytes_disjoint hmz (by simp) (.inl hzx) i hi hi'
    · exact hspaced.linkBytes_disjoint hmz (by simp) (.inl hzn) i hi hi'
  rw [show xs ++ x :: n :: y :: ys = (xs ++ [x]) ++ n :: y :: ys by simp] at hspaced ⊢
  rw [show xs ++ [x, n] = (xs ++ [x]) ++ [n] by simp] at hthr₁
  obtain ⟨b, h₂, hedit₂, hthr₂⟩ := splice_spec (h := { h with arena := a }) (hs₁ ▸ hsize)
    (hspaced.of_size_eq hs₁) hthr₁ hys₁
  exact ⟨a, b, h₁, h₂, hedit₁.trans hedit₂, hthr₂⟩

end Heap

end TaggedHeap
