import Mathlib.Data.List.Perm.Basic
import Mathlib.Data.Set.Card
import Mathlib.Order.Interval.Finset.Nat
import Xinu.Lib.Runs
import Xinu.Proof.Memory.Requests

namespace Xinu.Heap
open Lib

/-- The heap, and the blocks in use with what was asked for. -/
structure Use where
  heap : Heap
  out : List (Kind × Nat × Nat)

inductive Request
  | get (kind : Kind) (n : Nat)
  | give (kind : Kind) (p n : Nat)

def request : Request → Use → Option Use
  | .get kind n, u =>
      (kind.get u.heap n).map fun got =>
        match got with
        | (h, none) => ⟨h, u.out⟩
        | (h, some p) => ⟨h, (kind, p, n) :: u.out⟩
  | .give kind p n, u => (kind.give u.heap p n).map fun given => ⟨given.1, u.out.erase (kind, p, n)⟩

/-- Sizes that can be rounded, and blocks that are in use. -/
def Legitimate (u : Use) : Request → Prop
  | .get _ n => 0 < n ∧ n ≤ 0xFFFFFFF8
  | .give kind p n => (kind, p, n) ∈ u.out

def region : Kind × Nat × Nat → Nat × Nat
  | (.heap, p, n) => (p, roundmb n)
  | (.stack, p, n) => (p + 4 - roundmb n, roundmb n)

def Apart (c d : Nat × Nat) : Prop := Disjoint (Set.Ico c.1 (c.1 + c.2)) (Set.Ico d.1 (d.1 + d.2))

/-- The free list of a heap whose other parts are in use. -/
structure Partition (lo hi : Nat) (u : Use) (free : List (Nat × Nat)) : Prop where
  list : FreeList u.heap hi free
  aligned : Aligned free
  length : u.heap.memlist.length = total free
  memheap : u.heap.memheap = lo
  maxaddr : u.heap.maxaddr = hi
  sized : ∀ x ∈ u.out, 0 < x.2.2 ∧ x.2.2 ≤ 0xFFFFFFF8 ∧ 8 ∣ (region x).1 ∧ (x.1 = .stack → roundmb x.2.2 ≤ x.2.1 + 4)
  apart : (u.out.map region).Pairwise Apart
  used : Disjoint (covered (u.out.map region)) (covered free)
  all : covered free ∪ covered (u.out.map region) = Set.Ico lo hi

variable {lo hi n p : Nat} {u u' : Use} {free : List (Nat × Nat)} {kind : Kind}

theorem Apart.flip {c d : Nat × Nat} (apart : Apart c d) : Apart d c := Disjoint.symm apart

theorem subset_covered {c : Nat × Nat} {l : List (Nat × Nat)} (member : c ∈ l) : Set.Ico c.1 (c.1 + c.2) ⊆ covered l :=
  fun _ inside => ⟨c, member, inside⟩

theorem Partition.word (parts : Partition lo hi u free) : u.heap.memlist.length < WORD := by
  have room := parts.list.total_le
  have top := parts.list.whole.top
  rw [parts.length]
  omega

theorem Partition.took {h : Heap} {a : Nat} {free' : List (Nat × Nat)} (parts : Partition lo hi u free)
    (took : Took u.heap h hi a (roundmb n) free free') (place : region (kind, p, n) = (a, roundmb n)) (nonzero : 0 < n)
    (small : n ≤ 0xFFFFFFF8) (base : kind = .stack → roundmb n ≤ p + 4) :
    Partition lo hi ⟨h, (kind, p, n) :: u.out⟩ free' := by
  have inside : Set.Ico a (a + roundmb n) ⊆ covered free := by
    rintro x member
    obtain ⟨c, own, start, fin⟩ := took.inside
    have := member.1
    have := member.2
    exact ⟨c, own, by omega, by omega⟩
  have aligned := took.aligned parts.aligned
  constructor
  · exact took.list
  · exact aligned.2
  · have taken := took.total
    rw [took.length, parts.length, sub32_le (by omega) (by rw [← parts.length]; exact parts.word)]
    omega
  · exact took.memheap.trans parts.memheap
  · exact took.maxaddr.trans parts.maxaddr
  · refine List.forall_mem_cons.mpr ⟨⟨nonzero, small, ?_, base⟩, parts.sized⟩
    rw [place]
    exact aligned.1
  · rw [List.map_cons, List.pairwise_cons, place]
    refine ⟨fun d member => ?_, parts.apart⟩
    exact (parts.used.mono (subset_covered member) inside).symm
  · rw [List.map_cons, covered_cons, place, took.bytes, Set.disjoint_union_left]
    exact ⟨Set.disjoint_sdiff_right, parts.used.mono_right Set.sdiff_subset⟩
  · rw [List.map_cons, covered_cons, place, took.bytes, ← parts.all, ← Set.union_assoc, Set.sdiff_union_of_subset inside]

theorem Partition.get (parts : Partition lo hi u free) (kind : Kind) (nonzero : 0 < n) (small : n ≤ 0xFFFFFFF8) :
    (∀ c ∈ free, c.2 < roundmb n) ∧ kind.get u.heap n = some (u.heap, none) ∨
      ∃ h p free', kind.get u.heap n = some (h, some p) ∧ Partition lo hi ⟨h, (kind, p, n) :: u.out⟩ free' := by
  have spec := roundmb_spec small
  cases kind with
  | heap =>
      rcases memget_took parts.list (Nat.ne_of_gt nonzero) small with none | ⟨a, h, free', got, took⟩
      · exact .inl none
      · exact .inr ⟨h, a, free', got, parts.took took rfl nonzero small nofun⟩
  | stack =>
      rcases stkget_took parts.list (Nat.ne_of_gt nonzero) small with none | ⟨a, h, free', got, took⟩
      · exact .inl none
      · obtain ⟨q, unit⟩ := roundmb_dvd n
        have back : a + roundmb n - 4 + 4 = a + roundmb n := by omega
        refine .inr ⟨h, _, free', got, parts.took took ?_ nonzero small fun _ => by omega⟩
        show (a + roundmb n - 4 + 4 - roundmb n, roundmb n) = (a, roundmb n)
        rw [back, Nat.add_sub_cancel]

theorem Partition.give (parts : Partition lo hi u free) (member : (kind, p, n) ∈ u.out) :
    ∃ h free', kind.give u.heap p n = some (h, OK) ∧ Partition lo hi ⟨h, u.out.erase (kind, p, n)⟩ free' := by
  obtain ⟨nonzero, small, start, base⟩ := parts.sized _ member
  simp only at nonzero small base
  have spec := roundmb_spec small
  have top := parts.list.whole.top
  have perm : (u.out.map region).Perm (region (kind, p, n) :: (u.out.erase (kind, p, n)).map region) :=
    (List.perm_cons_erase member).map region
  obtain ⟨b, place⟩ : ∃ b, region (kind, p, n) = (b, roundmb n) := by
    cases kind <;> exact ⟨_, rfl⟩
  have aligned : 8 ∣ b := by
    rw [place] at start
    exact start
  rw [place] at perm
  have used := parts.used
  have all := parts.all
  have apart := parts.apart
  rw [covered_perm perm, covered_cons] at used all
  rw [perm.pairwise_iff Apart.flip, List.pairwise_cons] at apart
  have outside := Set.disjoint_union_left.mp used
  -- the block lies in the heap
  have within : lo ≤ b ∧ b + roundmb n ≤ hi := by
    have sub : Set.Ico b (b + roundmb n) ⊆ Set.Ico lo hi := by
      rw [← all]
      exact fun x inside => .inr (.inl inside)
    have first := sub (show b ∈ _ from ⟨Nat.le_refl b, by omega⟩)
    have last := sub (show b + roundmb n - 1 ∈ _ from ⟨by omega, by omega⟩)
    have := first.1
    have := last.2
    omega
  have low := parts.memheap
  have high := parts.maxaddr
  have done : ∃ h free', kind.give u.heap p n = some (h, OK) ∧ Gave u.heap h hi b (roundmb n) free free' := by
    have free {m : Nat} (nonzero : m ≠ 0) (small : m ≤ 0xFFFFFFF8) (same : roundmb m = roundmb n) :
        ∃ h free', u.heap.memfree b m = some (h, OK) ∧ Gave u.heap h hi b (roundmb n) free free' := by
      rw [← same] at outside within ⊢
      rcases memfree_gave parts.list nonzero small (b := b) (by omega) (by omega) within.2 with
        ⟨meets, -⟩ | ⟨-, h, free', freed, gave⟩
      · exact absurd outside.1 meets
      · exact ⟨h, free', freed, gave⟩
    cases kind with
    | heap =>
        obtain rfl : p = b := (Prod.mk.inj place).1
        exact free (Nat.ne_of_gt nonzero) small rfl
    | stack =>
        have start : p + 4 - roundmb n = b := (Prod.mk.inj place).1
        have := base rfl
        have fit : p = b + roundmb n - 4 := by omega
        rw [fit, Kind.give, stkfree_eq small nonzero (by omega)]
        exact free (by omega) spec.2.1 (roundmb_roundmb small)
  obtain ⟨h, free', given, gave⟩ := done
  refine ⟨h, free', given, gave.list, gave.aligned parts.aligned aligned (roundmb_dvd n), ?_, gave.memheap.trans low,
    gave.maxaddr.trans high, fun x later => parts.sized x (List.mem_of_mem_erase later), apart.2, ?_, ?_⟩
  · have room := gave.list.total_le
    rw [gave.total] at room
    rw [gave.length, gave.total, parts.length, add32, Nat.mod_eq_of_lt (by omega)]
  · rw [gave.bytes, Set.disjoint_union_right]
    refine ⟨outside.2, Set.disjoint_left.mpr ?_⟩
    rintro x ⟨c, later, inside⟩ own
    exact Set.disjoint_left.mp (apart.1 c later) own inside
  · rw [gave.bytes, ← all, Set.union_assoc]

theorem Partition.perm {h : Heap} {out out' : List (Kind × Nat × Nat)} (parts : Partition lo hi ⟨h, out⟩ free)
    (perm : out.Perm out') : Partition lo hi ⟨h, out'⟩ free := by
  have regions := perm.map region
  have same := covered_perm regions
  have used := parts.used
  have all := parts.all
  simp only at used all
  rw [same] at used all
  refine ⟨parts.list, parts.aligned, parts.length, parts.memheap, parts.maxaddr, ?_, ?_, used, all⟩
  · intro x member
    exact parts.sized x (perm.mem_iff.mpr member)
  · exact (regions.pairwise_iff Apart.flip).mp parts.apart

theorem Partition.free_unique {h h' : Heap} {out : List (Kind × Nat × Nat)} {free' : List (Nat × Nat)}
    (parts : Partition lo hi ⟨h, out⟩ free) (parts' : Partition lo hi ⟨h', out⟩ free') : free' = free := by
  apply parts'.list.separate.unique parts.list.separate
  have whole := parts.all.trans parts'.all.symm
  have used := parts.used
  have used' := parts'.used
  simp only at whole used used'
  rw [← Set.union_sdiff_cancel_right (s := covered free') (t := covered (out.map region)), ← whole,
    Set.union_sdiff_cancel_right]
  · exact (Set.disjoint_iff.mp used.symm)
  · exact (Set.disjoint_iff.mp used'.symm)

theorem ncard_Ico (a b : Nat) : (Set.Ico a b).ncard = b - a := by
  rw [← Finset.coe_Ico, Set.ncard_coe_finset, Nat.card_Ico]

theorem ncard_covered {l : List (Nat × Nat)} (apart : l.Pairwise Apart) :
    (covered l).Finite ∧ (covered l).ncard = total l := by
  induction l with
  | nil =>
      rw [covered_nil, Set.ncard_empty]
      exact ⟨Set.finite_empty, rfl⟩
  | cons c l ih =>
      obtain ⟨own, rest⟩ := List.pairwise_cons.mp apart
      obtain ⟨finite, card⟩ := ih rest
      have disjoint : Disjoint (Set.Ico c.1 (c.1 + c.2)) (covered l) := by
        refine Set.disjoint_left.mpr ?_
        rintro x inside ⟨d, member, other⟩
        exact Set.disjoint_left.mp (own d member) inside other
      rw [covered_cons, Set.ncard_union_eq disjoint (Set.finite_Ico _ _) finite, card, total_cons, ncard_Ico,
        Nat.add_sub_cancel_left]
      exact ⟨(Set.finite_Ico _ _).union finite, rfl⟩

theorem Partition.total_le (parts : Partition lo hi u free) : total (u.out.map region) ≤ hi - lo := by
  rw [← (ncard_covered parts.apart).2, ← ncard_Ico]
  apply Set.ncard_le_ncard
  · rw [← parts.all]
    exact Set.subset_union_right
  · exact Set.finite_Ico _ _

theorem Partition.step {r : Request} (parts : Partition lo hi u free) (legitimate : Legitimate u r)
    (stepped : request r u = some u') : ∃ free', Partition lo hi u' free' := by
  cases r with
  | get kind n =>
      rw [request] at stepped
      rcases parts.get kind legitimate.1 legitimate.2 with ⟨-, got⟩ | ⟨h, p, free', got, next⟩
      · rw [got] at stepped
        cases stepped
        exact ⟨free, parts⟩
      · rw [got] at stepped
        cases stepped
        exact ⟨free', next⟩
  | give kind p n =>
      obtain ⟨h, free', given, next⟩ := parts.give legitimate
      rw [request, given] at stepped
      cases stepped
      exact ⟨free', next⟩

def Use.start (p : Platform) : Use := ⟨heapInit p, []⟩

theorem start_partition (p : Platform) (below : p.memheap ≤ truncmb p.maxaddr) :
    Partition (roundmb p.memheap) (truncmb p.maxaddr) (Use.start p)
      [(roundmb p.memheap, truncmb p.maxaddr - roundmb p.memheap)] := by
  obtain ⟨list, aligned, length⟩ := heapInit_list p below
  have room := p.room
  refine ⟨list, aligned, length, rfl, rfl, nofun, .nil, ?_, ?_⟩
  · rw [Use.start, List.map_nil, covered_nil]
    exact Set.empty_disjoint _
  · rw [Use.start, List.map_nil, covered_nil, Set.union_empty, covered_cons, covered_nil, Set.union_empty]
    simp only
    rw [Nat.add_sub_cancel' (Nat.le_of_lt room)]

/-- The heap in every run: what the free list is, what it is made of, and what the next calls do. -/
theorem heap_partition (p : Platform) (below : p.memheap ≤ truncmb p.maxaddr)
    (reach : Reach request Legitimate (Use.start p) u) :
    ∃ free, Listed u.heap free ∧ Coalesced free ∧
      (∀ c ∈ free, 8 ∣ c.1 ∧ 8 ∣ c.2 ∧ 0 < c.2 ∧ u.heap.memheap ≤ c.1 ∧ c.1 + c.2 ≤ u.heap.maxaddr) ∧
      u.heap.memlist.length = total free ∧
      (free ++ u.out.map region).Pairwise Apart ∧
      covered (free ++ u.out.map region) = Set.Ico (roundmb p.memheap) (truncmb p.maxaddr) ∧
      (∀ kind p n, (kind, p, n) ∈ u.out → ∃ h, kind.give u.heap p n = some (h, OK)) ∧
      ∀ (kind : Kind) n, 0 < n → n ≤ 0xFFFFFFF8 → ∃ h r, kind.get u.heap n = some (h, r) ∧
        (r = none → ∀ c ∈ free, c.2 < roundmb n) := by
  obtain ⟨free, parts⟩ : ∃ free, Partition (roundmb p.memheap) (truncmb p.maxaddr) u free := by
    refine reach.invariant (P := fun u => ∃ free, Partition (roundmb p.memheap) (truncmb p.maxaddr) u free) ?_ ?_
    · exact ⟨_, start_partition p below⟩
    · rintro u u' r ⟨free, parts⟩ legitimate stepped
      exact parts.step legitimate stepped
  refine ⟨free, parts.list.whole.listed, parts.list.coalesced, fun c member => ?_, parts.length, ?_, ?_, ?_, ?_⟩
  · have aligned := parts.aligned c member
    have bounds := parts.list.whole.ordered.bounds c member
    rw [parts.maxaddr]
    exact ⟨aligned.1, aligned.2, bounds.2.2, bounds.1, bounds.2.1⟩
  · rw [List.pairwise_append]
    refine ⟨parts.list.coalesced.imp fun {c d} before => ?_, parts.apart, fun c member d used => ?_⟩
    · refine Set.disjoint_left.mpr fun x own other => ?_
      have := own.2
      have := other.1
      omega
    · exact (parts.used.mono (subset_covered used) (subset_covered member)).symm
  · rw [covered_append, parts.all]
  · intro kind p n member
    obtain ⟨h, -, given, -⟩ := parts.give member
    exact ⟨h, given⟩
  · intro kind n nonzero small
    rcases parts.get kind nonzero small with ⟨short, got⟩ | ⟨h, p, -, got, -⟩
    · exact ⟨u.heap, none, got, fun _ => short⟩
    · exact ⟨h, some p, got, nofun⟩

instance (u : Use) (r : Request) : Decidable (Legitimate u r) :=
  match r with
  | .get _ _ => inferInstanceAs (Decidable (_ ∧ _))
  | .give .. => inferInstanceAs (Decidable (_ ∈ _))

def takeThree : List Request :=
  [.get .heap 100, .get .stack 64, .get .heap 24, .give .heap 0x100000 100]

theorem heap_partition_rpi : ∃ u, Reach request Legitimate (Use.start rpi) u ∧
    u.out = [(.heap, 0x100068, 24), (.stack, 0xBFFFFF4, 64)] ∧ ∃ free, Listed u.heap free ∧ Coalesced free ∧
      covered (free ++ u.out.map region) = Set.Ico 0x100000 0xBFFFFF8 := by
  have ran : (run request (fun u r => decide (Legitimate u r)) takeThree (Use.start rpi)).map (·.out) =
      some [(.heap, 0x100068, 24), (.stack, 0xBFFFFF4, 64)] := by
    decide +kernel
  obtain ⟨u, action, out⟩ := Option.map_eq_some_iff.mp ran
  have reach : Reach request Legitimate (Use.start rpi) u :=
    Reach.run (fun _ _ => of_decide_eq_true) .init action
  obtain ⟨free, listed, coalesced, -, -, -, all, -⟩ := heap_partition rpi (by decide) reach
  exact ⟨u, reach, out, free, listed, coalesced, all⟩

end Xinu.Heap
