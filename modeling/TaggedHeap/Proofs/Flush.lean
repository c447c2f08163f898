import TaggedHeap.Proofs.Position
import TaggedHeap.Proofs.Supply

/-!
# The program break and the end of the arena

What is true of the size and the source of an arena, and lasts when it grows, is true in all states
of a run (`Client.maintained`).  Some facts about arenas above the program break are of this kind.

* An arena that has grown once has a base (`Source.Rooted`).  When it is refused bytes, it is told
  how many it has asked for (`Source.Rooted.refused`).
* As long as nobody else moves the break, the arena starts at an aligned address and ends at the
  break (`Source.Flush`).
* An arena that goes on with zeros always will (`lasting_blank`).
-/

namespace TaggedHeap

namespace Region

variable {r r' : Region} {size n base target : Nat} {e : HeapError}

theorem extend_of_base (hbase : r.base = some base) :
    extend size n r = conclude n base (base + size) r := by
  rw [← Phase.rest_first, Phase.first, hbase]
  rfl

theorem conclude_flush (base n : Nat) (htop : r.brk.top = target) :
    (∃ brk, conclude n base target r = .ok () { base := some base, brk } ∧
        brk.top = target + n) ∨
      ∃ brk, conclude n base target r = .error (.failed (.outOfMemory n)) { r with brk } ∧
        brk.top = target := by
  rcases request_cases n r with ⟨brk, hrun, -, hbrk⟩ | ⟨brk, hrun, -, hbrk⟩
  · refine .inl ⟨brk, ?_, htop ▸ hbrk⟩
    simp only [conclude, bind, EStateM.bind, hrun, if_pos htop]
    rfl
  · refine .inr ⟨brk, ?_, hbrk.trans htop⟩
    simp only [conclude, bind, EStateM.bind, hrun]

/-- A region that is extended has a base, and ends at the break; one that is not keeps its base. -/
theorem Phase.rest_cases (n : Nat) {p : Phase} (hp : p.Suits r.base size)
    (hempty : r.base = none → size = 0) :
    (∃ base brk, p.rest n r = .ok () { base := some base, brk } ∧ base % baseAlignment = 0 ∧
        brk.top = base + size + n) ∨
      ∃ m brk, p.rest n r = .error (.failed (.outOfMemory m)) { r with brk } := by
  -- by the number of requests that are left
  induction hdepth : p.depth using Nat.strong_induction_on generalizing p r with
  | _ depth ih =>
    subst hdepth
    rw [rest_eq]
    rcases call_cases (n := n) hp hempty with
      ⟨p', brk, hcall, -, hp'⟩ | ⟨base, brk, hcall, rfl, htop⟩ | ⟨m, brk, hcall, -⟩
    · rw [hcall]
      exact ih p'.depth (depth_lt hcall) hp' hempty rfl
    · rw [hcall]
      obtain ⟨halign, hstart, -⟩ := hp
      exact .inl ⟨base, brk, rfl, halign, hstart ▸ htop⟩
    · rw [hcall]
      exact .inr ⟨m, brk, rfl⟩

theorem extend_cases_of_none (size n : Nat) (hbase : r.base = none) :
    (∃ base brk, extend size n r = .ok () { base := some base, brk } ∧
        base % baseAlignment = 0 ∧ brk.top = base + n) ∨
      ∃ m brk, extend size n r = .error (.failed (.outOfMemory m)) { r with brk } := by
  have hstart : extend size n r = Phase.locate.rest n r := by
    rw [← Phase.rest_first, Phase.first, hbase]
  have hsuits : Phase.locate.Suits r.base 0 := hbase
  rw [hstart]
  exact Phase.rest_cases n hsuits fun _ => rfl

end Region

namespace Arena

/-- The arena gives `n` bytes more if it is asked for them now. -/
def Gives (a : Arena) (n : Nat) : Prop := ∃ offset b, Arena.grow n a = .ok offset b

instance (a : Arena) (n : Nat) : Decidable (a.Gives n) :=
  match h : Arena.grow n a with
  | .ok offset b => isTrue ⟨offset, b, h⟩
  | .error _ _ => isFalse (by simp [Gives, h])

end Arena

namespace Source

/-- A region above the program break has a base. -/
def Rooted : Source → Prop
  | .buffer _ => True
  | .system region => region.base.isSome

/-- A region of `size` bytes above the program break starts at an aligned address and ends at the
break.  Before it has a base it is empty. -/
def Flush (size : Nat) : Source → Prop
  | .buffer _ => True
  | .system region => (region.base = none → size = 0) ∧
      ∀ base ∈ region.base, base % Region.baseAlignment = 0 ∧ region.brk.top = base + size

end Source

theorem Arena.rooted_of_grow {a b : Arena} {n offset : Nat} (h : Arena.grow n a = .ok offset b) :
    b.source.Rooted := by
  obtain ⟨-, _, fits, rfl, ⟨rfl, limit, ha⟩ | ⟨region, region', -, hextend, rfl⟩⟩ := grow_ok h
  · show a.source.Rooted
    rw [ha]
    trivial
  show (Source.system region').Rooted
  cases hbase : region.base with
  | some base =>
    rw [Region.extend_of_base hbase] at hextend
    rcases Region.conclude_cases n base (base + a.size) region with
      ⟨brk, hrun, -⟩ | ⟨brk, hrun, -⟩ <;> cases hrun.symm.trans hextend
    rfl
  | none =>
    rcases Region.extend_cases_of_none a.size n hbase with
      ⟨base, brk, hrun, -⟩ | ⟨m, brk, hrun⟩ <;> cases hrun.symm.trans hextend
    rfl

/-- **An arena with a base that is refused** some bytes is told how many, and keeps its base. -/
theorem Source.Rooted.refused {a b : Arena} {n : Nat} {e : HeapError} (ha : a.source.Rooted)
    (h : Arena.grow n a = .error (.failed e) b) : e = .outOfMemory n ∧ b.source.Rooted := by
  obtain ⟨_, rfl, ⟨rfl, rfl⟩ | ⟨region, region', hsource, hextend, rfl⟩⟩ := Arena.grow_refused h
  · exact ⟨rfl, ha⟩
  rw [hsource] at ha
  obtain ⟨base, hbase⟩ := Option.isSome_iff_exists.1 ha
  rw [Region.extend_of_base hbase] at hextend
  rcases Region.conclude_cases n base (base + a.size) region with
    ⟨brk, hrun, -⟩ | ⟨brk, hrun, -⟩ <;> cases hrun.symm.trans hextend
  exact ⟨rfl, ha⟩

theorem lasting_rooted : Lasting fun _ source => source.Rooted where
  grow _ h := Arena.rooted_of_grow h
  refused ha h := (ha.refused h).2

theorem lasting_blank : Lasting fun _ source => source.Blank where
  grow ha h := ha.grow h
  refused ha h := ha.refused h

/-- A region that ends at the break does so when it has been extended, and also when it has not. -/
theorem Source.Flush.extend {r : Region} {size : Nat} (h : (Source.system r).Flush size) (n : Nat) :
    (∃ r', Region.extend size n r = .ok () r' ∧ (Source.system r').Flush (size + n)) ∨
      ∃ e r', Region.extend size n r = .error e r' ∧ (Source.system r').Flush size := by
  obtain ⟨hempty, hflush⟩ := h
  cases hbase : r.base with
  | some base =>
    obtain ⟨halign, htop⟩ := hflush base hbase
    rw [Region.extend_of_base hbase]
    rcases Region.conclude_flush base n htop with ⟨brk, hrun, hbrk⟩ | ⟨brk, hrun, hbrk⟩
    · refine .inl ⟨_, hrun, by simp, ?_⟩
      rintro _ ⟨⟩
      exact ⟨halign, hbrk.trans (Nat.add_assoc ..)⟩
    · refine .inr ⟨_, _, hrun, by simp [hbase], fun base' hbase' => ?_⟩
      obtain rfl : base = base' := Option.some.inj (hbase.symm.trans hbase')
      exact ⟨halign, hbrk⟩
  | none =>
    rcases Region.extend_cases_of_none size n hbase with
      ⟨base, brk, hrun, halign, hbrk⟩ | ⟨m, brk, hrun⟩
    · refine .inl ⟨_, hrun, by simp, ?_⟩
      rintro _ ⟨⟩
      exact ⟨halign, by rw [hempty hbase, Nat.zero_add]; exact hbrk⟩
    · exact .inr ⟨_, _, hrun, hempty, by simp [hbase]⟩

/-- **An arena that ends at the break** goes on to do so, unless somebody else moves the break. -/
theorem lasting_flush : Lasting fun size source => source.Flush size where
  grow {n offset a b} ha h := by
    obtain ⟨-, _, fits, rfl, ⟨rfl, limit, hlimit⟩ | ⟨region, region', hsource, hextend, rfl⟩⟩ :=
      Arena.grow_ok h
    · show a.source.Flush _
      rw [hlimit]
      trivial
    · rw [hsource] at ha
      rw [Arena.size_append]
      rcases ha.extend n with ⟨r', hrun, hflush⟩ | ⟨e, r', hrun, -⟩ <;>
        cases hrun.symm.trans hextend
      exact hflush
  refused {n a b e} ha h := by
    obtain ⟨_, rfl, ⟨rfl, -⟩ | ⟨region, region', hsource, hextend, rfl⟩⟩ := Arena.grow_refused h
    · exact ha
    · rw [hsource] at ha
      rcases ha.extend n with ⟨r', hrun, -⟩ | ⟨e', r', hrun, hflush⟩ <;>
        cases hrun.symm.trans hextend
      exact hflush

/-! ### Runs -/

namespace Heap

theorem grow_of_createValid {layout : Layout} {valid : layout.Valid} {arena : Arena}
    {exactLinks : Bool} {h : Heap} (hh : createValid layout valid arena exactLinks = .ok h) :
    ∃ bytes offset b, Arena.grow bytes arena = .ok offset b ∧ h.arena.size = b.size ∧
      h.arena.source = b.source := by
  obtain ⟨head, bytes, -, -, -, hcreate⟩ :=
    createValid_eq layout valid (show arena.size ≤ maxContiguous from arena.size_le)
  rw [hcreate arena rfl] at hh
  split at hh
  · cases hh
  cases hgrow : Arena.grow bytes arena with
  | error e a =>
    rw [hgrow] at hh
    cases hh
  | ok offset b =>
    rw [hgrow] at hh
    have hedit := rewritten_writeSentinels (ofFault_eq_ok hh)
    exact ⟨bytes, offset, b, hgrow, hedit.size_eq, hedit.source_eq⟩

end Heap

namespace Client

variable {c d : Client} {layout : Layout} {arena : Arena} {a : Action}
  {r : Except HeapError (Option Pointer)} {P : Nat → Source → Prop}

theorem grow_of_create {exactLinks : Bool} {s : Session}
    (hs : Session.create layout arena exactLinks = .ok s) :
    ∃ bytes offset b, Arena.grow bytes arena = .ok offset b ∧ s.heap.arena.size = b.size ∧
      s.heap.arena.source = b.source := by
  obtain ⟨h, hh, hs⟩ := exists_of_bind_ok hs
  cases hs
  rcases Heap.create_cases layout with ⟨flaw, hflaw⟩ | ⟨valid, hcreate⟩
  · cases (hflaw _ _).symm.trans hh
  · exact Heap.grow_of_createValid ((hcreate _ _).symm.trans hh)

/-- **What growing keeps up** is kept up when a heap is built. -/
theorem maintained_create {exactLinks : Bool} {s : Session} (hP : Lasting P)
    (ha : P arena.size arena.source) (hs : Session.create layout arena exactLinks = .ok s) :
    P s.heap.arena.size s.heap.arena.source := by
  obtain ⟨bytes, offset, b, hgrow, hsize, hsource⟩ := grow_of_create hs
  rw [hsize, hsource]
  exact hP.grow ha hgrow

theorem maintained (hP : Lasting P) (hc : P c.heap.arena.size c.heap.arena.source)
    (hraise : ∀ n, a = .raiseBreak n → ∀ arena : Arena, P arena.size arena.source →
      P (arena.raiseBreak n).size (arena.raiseBreak n).source)
    (hact : c.act a = .ok (r, d)) : P d.heap.arena.size d.heap.arena.source := by
  have hrun := a.maintains_perform hP hraise c.session hc
  cases r with
  | ok p => exact hrun.1 p _ (live_of_act hact).1
  | error e => exact hrun.2 e _ (error_of_act hact).1

theorem Reachable.rooted (hc : Reachable layout arena c) : c.heap.arena.source.Rooted := by
  induction hc with
  | create hs =>
    obtain ⟨bytes, offset, b, hgrow, -, hsource⟩ := grow_of_create hs
    exact (congrArg Source.Rooted hsource).mpr (Arena.rooted_of_grow hgrow)
  | act _ _ hact ih =>
    refine maintained lasting_rooted ih (fun n _ arena harena => ?_) hact
    unfold Arena.raiseBreak
    split
    · exact harena
    · rename_i hsource
      rwa [hsource] at harena

end Client

end TaggedHeap
