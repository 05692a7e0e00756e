import Xinu.Lib.Intervals
import Xinu.Proof.Memory.Free

namespace Xinu.Heap
open Lib

variable {h h' : Heap} {lo hi hi' k n a b m : Nat} {free free' pre post : List (Nat × Nat)}

/-- The free list of a heap whose blocks end at `hi` at the latest. -/
structure FreeList (h : Heap) (hi : Nat) (free : List (Nat × Nat)) : Prop where
  whole : Whole h h.memheap hi free
  coalesced : Coalesced free

def Aligned (free : List (Nat × Nat)) : Prop := ∀ c ∈ free, 8 ∣ c.1 ∧ 8 ∣ c.2

theorem FreeList.mono (list : FreeList h hi free) (more : hi ≤ hi') (top : hi' < WORD) : FreeList h hi' free where
  whole := by
    obtain ⟨listed, ordered, positive, range, -⟩ := list.whole
    refine ⟨listed, ⟨ordered.sorted, fun c member => ?_⟩, positive, by omega, top⟩
    have := ordered.bounds c member
    omega
  coalesced := list.coalesced

theorem FreeList.separate (list : FreeList h hi free) : Separate free :=
  ⟨list.coalesced, fun c member => (list.whole.ordered.bounds c member).2.2⟩

theorem FreeList.total_le (list : FreeList h hi free) : h.memheap + total free ≤ hi :=
  Lib.total_le list.whole.ordered.sorted
    (fun c member => ⟨(list.whole.ordered.bounds c member).1, (list.whole.ordered.bounds c member).2.1⟩) list.whole.range

theorem roundmb_dvd (n : Nat) : 8 ∣ roundmb n := ⟨(7 + n) % WORD / 8, Nat.mul_comm _ _⟩

theorem roundmb_spec (small : n ≤ 0xFFFFFFF8) : n ≤ roundmb n ∧ roundmb n ≤ 0xFFFFFFF8 ∧ roundmb n < n + 8 := by
  have bound : 7 + n < WORD := by
    rw [WORD]
    omega
  rw [roundmb, Nat.mod_eq_of_lt bound]
  omega

theorem roundmb_pos (nonzero : n ≠ 0) (small : n ≤ 0xFFFFFFF8) : 0 < roundmb n :=
  Nat.lt_of_lt_of_le (Nat.pos_of_ne_zero nonzero) (roundmb_spec small).1

@[simp] theorem covered_leftover : covered (leftover a n) = Set.Ico a (a + n) := by
  rw [leftover]
  split
  · subst n
    simp
  · simp

@[simp] theorem total_leftover : total (leftover a n) = n := by
  rw [leftover]
  split
  · subst n
    rfl
  · simp

structure Took (h h' : Heap) (hi a k : Nat) (free free' : List (Nat × Nat)) : Prop where
  list : FreeList h' hi free'
  inside : ∃ c ∈ free, c.1 ≤ a ∧ a + k ≤ c.1 + c.2
  bytes : covered free' = covered free \ Set.Ico a (a + k)
  total : total free' + k = total free
  aligned : Aligned free → 8 ∣ a ∧ Aligned free'
  length : h'.memlist.length = sub32 h.memlist.length k
  memheap : h'.memheap = h.memheap
  maxaddr : h'.maxaddr = h.maxaddr

theorem Ordered.around (ordered : Ordered lo hi (pre ++ (a, m) :: post)) :
    (∀ x ∈ covered pre, x < a) ∧ ∀ x ∈ covered post, a + m ≤ x := by
  have split := List.pairwise_append.mp ordered.sorted
  constructor
  · rintro x ⟨c, member, -, below⟩
    exact Nat.lt_of_lt_of_le below (split.2.2 c member (a, m) (.head _))
  · rintro x ⟨c, member, above, -⟩
    exact Nat.le_trans ((List.pairwise_cons.mp split.2.1).1 c member) above

theorem FreeList.took {p a' n' : Nat} (list : FreeList h hi (pre ++ (a, m) :: post))
    (taken : Taken h h' k (pre ++ (leftover a' n' ++ post))) (length : n' + k = m) (unit : 8 ∣ k)
    (ends : p = a ∧ a' = a + k ∨ p = a + n' ∧ a' = a) :
    Took h h' hi p k (pre ++ (a, m) :: post) (pre ++ (leftover a' n' ++ post)) := by
  have whole := list.whole
  have around := whole.ordered.around
  have start : a ≤ a' := by omega
  have fin : a' + n' ≤ a + m := by omega
  constructor
  · constructor
    · rw [taken.memheap]
      exact ⟨taken.listed, whole.ordered.shrink start fin, whole.positive, whole.range, whole.top⟩
    · exact list.coalesced.shrink start fin
  · exact ⟨(a, m), by simp, by show a ≤ p; omega, by show p + k ≤ a + m; omega⟩
  · ext x
    have before := around.1 x
    have behind := around.2 x
    simp only [covered_append, covered_cons, covered_leftover, Set.mem_union, Set.mem_sdiff, Set.mem_Ico]
    constructor
    · rintro (early | own | late)
      · exact ⟨.inl early, by have := before early; omega⟩
      · exact ⟨.inr (.inl (by omega)), by omega⟩
      · exact ⟨.inr (.inr late), by have := behind late; omega⟩
    · rintro ⟨early | own | late, outside⟩
      · exact .inl early
      · exact .inr (.inl (by omega))
      · exact .inr (.inr late)
  · simp only [total_append, total_leftover, total_cons]
    omega
  · intro aligned
    have own : 8 ∣ a ∧ 8 ∣ m := aligned (a, m) (by simp)
    have rest : 8 ∣ n' := by
      rw [← length] at own
      exact (Nat.dvd_add_iff_left unit).mpr own.2
    have places : 8 ∣ p ∧ 8 ∣ a' := by
      rcases ends with ⟨rfl, rfl⟩ | ⟨rfl, rfl⟩
      · exact ⟨own.1, Nat.dvd_add own.1 unit⟩
      · exact ⟨Nat.dvd_add own.1 rest, own.1⟩
    refine ⟨places.1, fun c member => ?_⟩
    rcases List.mem_append.mp member with before | member
    · exact aligned c (List.mem_append_left _ before)
    · rcases List.mem_append.mp member with part | after
      · obtain ⟨rfl, -⟩ := mem_leftover part
        exact ⟨places.2, rest⟩
      · exact aligned c (List.mem_append_right _ (.tail _ after))
  · exact taken.length
  · exact taken.memheap
  · exact taken.maxaddr

theorem memget_took (list : FreeList h hi free) (nonzero : n ≠ 0) (small : n ≤ 0xFFFFFFF8) :
    (∀ c ∈ free, c.2 < roundmb n) ∧ h.memget n = some (h, none) ∨
      ∃ a h' free', h.memget n = some (h', some a) ∧ Took h h' hi a (roundmb n) free free' := by
  rcases memget_spec list.whole nonzero (roundmb_pos nonzero small) with none | ⟨pre, a, m, post, h', rfl, fits, got, taken⟩
  · exact .inl none
  · exact .inr ⟨a, h', _, got, list.took taken (Nat.sub_add_cancel fits) (roundmb_dvd n) (.inl ⟨rfl, rfl⟩)⟩

theorem stkget_took (list : FreeList h hi free) (nonzero : n ≠ 0) (small : n ≤ 0xFFFFFFF8) :
    (∀ c ∈ free, c.2 < roundmb n) ∧ h.stkget n = some (h, none) ∨
      ∃ a h' free', h.stkget n = some (h', some (a + roundmb n - 4)) ∧ Took h h' hi a (roundmb n) free free' := by
  rcases stkget_spec list.whole nonzero (roundmb_pos nonzero small) with none | ⟨pre, a, m, post, h', rfl, fits, got, taken⟩
  · exact .inl none
  · refine .inr ⟨a + (m - roundmb n), h', _, ?_,
      list.took taken (Nat.sub_add_cancel fits) (roundmb_dvd n) (.inr ⟨rfl, rfl⟩)⟩
    rw [got, Nat.add_assoc, Nat.sub_add_cancel fits]

structure Gave (h h' : Heap) (hi b k : Nat) (free free' : List (Nat × Nat)) : Prop where
  list : FreeList h' hi free'
  bytes : covered free' = covered free ∪ Set.Ico b (b + k)
  total : total free' = total free + k
  aligned : Aligned free → 8 ∣ b → 8 ∣ k → Aligned free'
  length : h'.memlist.length = add32 h.memlist.length k
  memheap : h'.memheap = h.memheap
  maxaddr : h'.maxaddr = h.maxaddr

theorem Place.coalesced {l r : Nat} (place : Place lo hi b k l r pre post)
    (coalesced : Coalesced (pre ++ (leftover (b - l) l ++ (leftover (b + k) r ++ post)))) :
    Coalesced (pre ++ ([(b - l, l + k + r)] ++ post)) := by
  have within := place.within
  have split := List.pairwise_append.mp coalesced
  have later := (List.pairwise_append.mp (List.pairwise_append.mp split.2.1).2.1).2.1
  rw [Coalesced, List.pairwise_append, List.singleton_append, List.pairwise_cons]
  refine ⟨split.1, ⟨fun c member => ?_, later⟩, fun c member d rest => ?_⟩
  · have := place.after c member
    show b - l + (l + k + r) < c.1
    omega
  · have := place.before c member
    rcases List.mem_cons.mp rest with rfl | rest
    · exact this
    · have := place.after d rest
      omega

theorem FreeList.gave {l r : Nat} (list : FreeList h hi (pre ++ (leftover (b - l) l ++ (leftover (b + k) r ++ post))))
    (place : Place h.memheap hi b k l r pre post) (given : Given h h' k (pre ++ ([(b - l, l + k + r)] ++ post))) :
    Gave h h' hi b k (pre ++ (leftover (b - l) l ++ (leftover (b + k) r ++ post))) (pre ++ ([(b - l, l + k + r)] ++ post)) := by
  have within := place.within
  have whole := list.whole
  constructor
  · constructor
    · rw [given.memheap]
      exact ⟨given.listed, place.whole, whole.positive, whole.range, whole.top⟩
    · exact place.coalesced list.coalesced
  · have joined : Set.Ico (b - l) (b - l + (l + k + r)) =
        Set.Ico (b - l) (b - l + l) ∪ (Set.Ico (b + k) (b + k + r) ∪ Set.Ico b (b + k)) := by
      ext x
      simp only [Set.mem_union, Set.mem_Ico]
      omega
    ext x
    simp only [covered_append, covered_cons, covered_nil, covered_leftover, joined, Set.mem_union, Set.mem_empty_iff_false]
    tauto
  · simp only [total_append, total_leftover, total_cons, total_nil]
    omega
  · intro aligned start unit
    have side : ∀ {x y : Nat}, (∀ c ∈ leftover x y, 8 ∣ c.2) → 8 ∣ y := by
      intro x y all
      by_cases none : y = 0
      · rw [none]
        exact Nat.dvd_zero 8
      · exact all (x, y) (by simp [leftover, none])
    have left : 8 ∣ l := side (x := b - l) fun c member => (aligned c (by simp [member])).2
    have right : 8 ∣ r := side (x := b + k) fun c member => (aligned c (by simp [member])).2
    intro c member
    simp only [List.mem_append, List.mem_singleton] at member
    rcases member with first | rfl | rest
    · exact aligned c (by simp [first])
    · exact ⟨Nat.dvd_sub start left, Nat.dvd_add (Nat.dvd_add left unit) right⟩
    · exact aligned c (by simp [rest])
  · exact given.length
  · exact given.memheap
  · exact given.maxaddr

theorem meets_iff (nonempty : 0 < k) (positive : ∀ c ∈ free, 0 < c.2) :
    Meets b k free ↔ ¬ Disjoint (Set.Ico b (b + k)) (covered free) := by
  rw [Set.not_disjoint_iff]
  constructor
  · rintro ⟨c, member, below, above⟩
    have := positive c member
    exact ⟨max b c.1, ⟨by omega, by omega⟩, c, member, by omega, by omega⟩
  · rintro ⟨x, inside, c, member, start, fin⟩
    have := inside.1
    have := inside.2
    exact ⟨c, member, by omega, by omega⟩

theorem memfree_gave (list : FreeList h hi free) (nonzero : n ≠ 0) (small : n ≤ 0xFFFFFFF8)
    (above : h.memheap ≤ b) (below : b ≤ h.maxaddr) (fits : b + roundmb n ≤ hi) :
    ¬ Disjoint (Set.Ico b (b + roundmb n)) (covered free) ∧ h.memfree b n = some (h, SYSERR) ∨
      Disjoint (Set.Ico b (b + roundmb n)) (covered free) ∧
        ∃ h' free', h.memfree b n = some (h', OK) ∧ Gave h h' hi b (roundmb n) free free' := by
  have least := roundmb_pos nonzero small
  have meets := meets_iff (b := b) least list.separate.positive
  rcases memfree_spec list.whole list.coalesced nonzero least above below above fits with
    ⟨met, failed⟩ | ⟨pre, post, l, r, h', rfl, place, freed, given⟩
  · exact .inl ⟨meets.mp met, failed⟩
  · refine .inr ⟨?_, h', _, freed, list.gave place given⟩
    by_contra shared
    exact place.apart (meets.mpr shared)

theorem FreeList.restored {h'' : Heap} {free'' : List (Nat × Nat)} (list : FreeList h hi free)
    (took : Took h h' hi a k free free') (gave : Gave h' h'' hi a k free' free'') : free'' = free := by
  refine gave.list.separate.unique list.separate ?_
  rw [gave.bytes, took.bytes]
  apply Set.sdiff_union_of_subset
  rintro x inside
  obtain ⟨c, member, start, fin⟩ := took.inside
  have := inside.1
  have := inside.2
  exact ⟨c, member, by omega, by omega⟩

theorem heapInit_list (p : Platform) (below : p.memheap ≤ truncmb p.maxaddr) :
    FreeList (heapInit p) (heapInit p).maxaddr [(roundmb p.memheap, truncmb p.maxaddr - roundmb p.memheap)] ∧
      Aligned [(roundmb p.memheap, truncmb p.maxaddr - roundmb p.memheap)] ∧
      (heapInit p).memlist.length = truncmb p.maxaddr - roundmb p.memheap := by
  have top : truncmb p.maxaddr ≤ 0xFFFFFFF8 := by
    rw [truncmb, WORD]
    omega
  have small : p.memheap ≤ 0xFFFFFFF8 := Nat.le_trans below top
  have low := roundmb_spec small
  have positive := p.memheap_pos
  have room := p.room
  have upper : 8 ∣ truncmb p.maxaddr := ⟨p.maxaddr % WORD / 8, Nat.mul_comm _ _⟩
  have word : truncmb p.maxaddr < WORD := by
    rw [WORD]
    omega
  have length : sub32 (truncmb p.maxaddr) (roundmb p.memheap) = truncmb p.maxaddr - roundmb p.memheap :=
    sub32_le (Nat.le_of_lt room) word
  have nonnull : roundmb p.memheap ≠ NULL := by
    rw [NULL]
    omega
  refine ⟨⟨⟨⟨?_, ?_⟩, ⟨?_, ?_⟩, ?_, ?_, word⟩, ?_⟩, ?_, length⟩
  · refine ⟨?_, ?_⟩
    · show ptr (roundmb p.memheap) = _
      rw [ptr, if_neg nonnull]
      rfl
    · refine ⟨?_, trivial⟩
      show ptr ((heapInit p).block (roundmb p.memheap)).next = none
      simp only [heapInit, Function.update_self]
      rfl
  · intro b member
    cases List.mem_singleton.mp member
    rw [get_some]
    simp only [heapInit, Function.update_self]
    exact length
  · exact List.pairwise_singleton _ _
  · intro b member
    cases List.mem_singleton.mp member
    show roundmb p.memheap ≤ roundmb p.memheap ∧ roundmb p.memheap + (truncmb p.maxaddr - roundmb p.memheap) ≤
      truncmb p.maxaddr ∧ 0 < truncmb p.maxaddr - roundmb p.memheap
    omega
  · show 0 < roundmb p.memheap
    omega
  · exact Nat.le_of_lt room
  · exact List.pairwise_singleton _ _
  · intro c member
    cases List.mem_singleton.mp member
    exact ⟨roundmb_dvd _, Nat.dvd_sub upper (roundmb_dvd _)⟩

end Xinu.Heap
