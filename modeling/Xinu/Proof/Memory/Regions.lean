import Xinu.Lib.Intervals
import Xinu.Lib.Runs
import Xinu.Proof.Memory.RegionLinks
import Mathlib.Order.Interval.Set.LinearOrder

namespace Xinu.Regions
open Lib RegionList

variable {base N i k : Nat} {r r' r'' : Regions} {list : RegionList} {l pre post free alloc : List (Nat × Nat)}

/-- A heap of whole pages in one segment of the address space. -/
structure Ground (base N : Nat) : Prop where
  aligned : 4096 ∣ base
  word : base < WORD
  segment : physical base + 4096 * N ≤ 2 ^ 29

abbrev firsts (l : List (Nat × Nat)) : List Nat := l.map Prod.fst

def Placed (base : Nat) (r : Regions) (l : List (Nat × Nat)) : Prop :=
  ∀ c ∈ l, r.start c.1 = base + 4096 * c.1 ∧ r.length c.1 = 4096 * c.2

def Ascending (l : List (Nat × Nat)) : Prop := l.Pairwise fun c d => c.1 + c.2 ≤ d.1

structure Changed (r r' : Regions) (list : RegionList) (l : List Nat) : Prop extends Relinked r r' list l where
  start : r'.start = r.start
  threadId : r'.threadId = r.threadId
  length : ∀ x, x ∉ l → r'.length x = r.length x

theorem Ground.top (ground : Ground base N) : base + 4096 * N ≤ WORD := by
  have word := ground.word
  have segment := ground.segment
  rw [physical] at segment
  rw [WORD] at *
  omega

theorem Ground.adjacent (ground : Ground base N) {j : Nat} (within : i + k ≤ N) (within' : j < N)
    (start : r.start i = base + 4096 * i) (length : r.length i = 4096 * k) (start' : r.start j = base + 4096 * j) :
    r.adjacent i j ↔ i + k = j := by
  have top := ground.top
  have segment := ground.segment
  have word := ground.word
  rw [physical] at segment
  rw [Regions.adjacent, start, length, start', add32]
  rw [WORD] at *
  omega

theorem Relinked.trans {l l' : List Nat} (first : Relinked r r' list l) (second : Relinked r' r'' list l')
    (sub : l' ⊆ l) : Relinked r r'' list l where
  links x outside := by
    have one := first.links x outside
    have two := second.links x fun member => outside (sub member)
    exact ⟨two.1.trans one.1, two.2.trans one.2⟩
  head other apart := (second.head other apart).trans (first.head other apart)

theorem Relinked.mono {l l' : List Nat} (change : Relinked r r' list l) (sub : l ⊆ l') : Relinked r r' list l' where
  links x outside := change.links x fun member => outside (sub member)
  head := change.head

theorem Changed.trans {l l' : List Nat} (first : Changed r r' list l) (second : Changed r' r'' list l')
    (sub : l' ⊆ l) : Changed r r'' list l where
  toRelinked := first.toRelinked.trans second.toRelinked sub
  start := second.start.trans first.start
  threadId := second.threadId.trans first.threadId
  length x outside := (second.length x fun member => outside (sub member)).trans (first.length x outside)

theorem Changed.refl (r : Regions) (list : RegionList) (l : List Nat) : Changed r r list l :=
  ⟨⟨fun _ _ => ⟨rfl, rfl⟩, fun _ _ => rfl⟩, rfl, rfl, fun _ _ => rfl⟩

theorem Kept.changed {l : List Nat} (kept : Kept r r') (change : Relinked r r' list l) : Changed r r' list l :=
  ⟨change, kept.start, kept.threadId, fun x _ => by rw [kept.length]⟩

theorem Placed.frame {l' : List Nat} (placed : Placed base r l) (change : Changed r r' list l')
    (outside : ∀ c ∈ l, c.1 ∉ l') : Placed base r' l := by
  intro c member
  rw [change.start, change.length _ (outside c member)]
  exact placed c member

theorem Placed.kept (placed : Placed base r l) (kept : Kept r r') : Placed base r' l := by
  intro c member
  rw [kept.start, kept.length]
  exact placed c member

theorem ascending_split (sorted : Ascending l) (positive : ∀ c ∈ l, 0 < c.2) (nonempty : 0 < k)
    (apart : Disjoint (Set.Ico i (i + k)) (covered l)) :
    ∃ pre post, l = pre ++ post ∧ (∀ c ∈ pre, c.1 + c.2 ≤ i) ∧ ∀ c ∈ post, i + k ≤ c.1 := by
  induction l with
  | nil => exact ⟨[], [], rfl, nofun, nofun⟩
  | cons c l ih =>
      obtain ⟨before, sorted⟩ := List.pairwise_cons.mp sorted
      rw [covered_cons, Set.disjoint_union_right] at apart
      obtain ⟨own, apart⟩ := apart
      by_cases low : c.1 < i
      · obtain ⟨pre, post, rfl, below, above⟩ := ih sorted (fun d member => positive d (.tail _ member)) apart
        refine ⟨c :: pre, post, rfl, List.forall_mem_cons.mpr ⟨?_, below⟩, above⟩
        by_contra reach
        exact Set.disjoint_left.mp own ⟨Nat.le_refl i, by omega⟩ ⟨Nat.le_of_lt low, by omega⟩
      · have size := positive c (.head _)
        have above : i + k ≤ c.1 := by
          by_contra reach
          exact Set.disjoint_left.mp own (show c.1 ∈ _ from ⟨by omega, by omega⟩) ⟨Nat.le_refl _, by omega⟩
        refine ⟨[], c :: l, rfl, nofun, List.forall_mem_cons.mpr ⟨above, fun d member => ?_⟩⟩
        have := before d member
        omega

theorem insertLoop_eq {fuel : Nat} {previous p : Option Nat} (links : Doubly r.next r.prev p (firsts (pre ++ post)) none)
    (placed : Placed base r (pre ++ post)) (below : ∀ c ∈ pre, c.1 < i) (above : ∀ c ∈ post, i ≤ c.1)
    (enough : pre.length < fuel) :
    r.insertLoop (base + 4096 * i) fuel previous (firsts (pre ++ post)).head? =
      some ((firsts pre).getLast?.or previous, (firsts post).head?) := by
  induction fuel generalizing pre previous p with
  | zero => exact absurd enough (Nat.not_lt_zero _)
  | succ fuel ih =>
      cases pre with
      | nil =>
          cases post with
          | nil => rfl
          | cons c post =>
              have start := (placed c (.head _)).1
              have least := above c (.head _)
              show (if r.start c.1 < base + 4096 * i then _ else _) = _
              rw [if_neg (by omega)]
              rfl
      | cons c pre =>
          have start := (placed c (.head _)).1
          have less := below c (.head _)
          obtain ⟨-, next, rest⟩ := links
          show (if r.start c.1 < base + 4096 * i then r.insertLoop _ fuel (some c.1) (r.next c.1) else _) = _
          rw [Option.or_none] at next
          rw [if_pos (by omega), next]
          have looped := @ih pre (some c.1) _ rest (fun d member => placed d (.tail _ member))
            (fun d member => below d (.tail _ member)) (Nat.lt_of_succ_lt_succ enough)
          refine looped.trans ?_
          show some ((firsts pre).getLast?.or (some c.1), _) = some ((c.1 :: firsts pre).getLast?.or previous, _)
          rw [List.getLast?_cons]
          cases (firsts pre).getLast? <;> rfl

theorem firsts_append (pre post : List (Nat × Nat)) : firsts (pre ++ post) = firsts pre ++ firsts post := List.map_append

theorem firsts_cons (c : Nat × Nat) (l : List (Nat × Nat)) : firsts (c :: l) = c.1 :: firsts l := rfl

structure Inserted (r r' : Regions) (list : RegionList) (c : Nat × Nat) (l pre post : List (Nat × Nat)) : Prop where
  split : l = pre ++ post
  below : ∀ d ∈ pre, d.1 + d.2 ≤ c.1
  above : ∀ d ∈ post, c.1 + c.2 ≤ d.1
  strung : Strung r' list (firsts (pre ++ c :: post))
  change : Relinked r r' list (c.1 :: firsts l)
  kept : Kept r r'

theorem Inserted.fresh {c : Nat × Nat} (inserted : Inserted r r' list c l pre post) : c.1 ∉ firsts l := by
  have nodup := inserted.strung.nodup
  rw [firsts_append, firsts_cons, List.nodup_middle] at nodup
  rw [inserted.split, firsts_append]
  exact (List.nodup_cons.mp nodup).1

theorem Strung.insert {c : Nat × Nat} (s : Strung r list (firsts l)) (placed : Placed base r l) (short : l.length < Heap.walkFuel)
    (sorted : Ascending l) (positive : ∀ d ∈ l, 0 < d.2) (nonempty : 0 < c.2)
    (apart : Disjoint (Set.Ico c.1 (c.1 + c.2)) (covered l)) (start : r.start c.1 = base + 4096 * c.1)
    (next : r.next c.1 = none) (prev : r.prev c.1 = none) :
    ∃ r' pre post, Inserted r r' list c l pre post ∧
      (r.memRegionInsert c.1 list = some r' ∧ l = [] ∨
        r.memRegionInsert c.1 list = some (if r'.head list = r'.head regfreelist then r'.memRegionCoalesce c.1 else r')) := by
  obtain ⟨pre, post, rfl, below, above⟩ := ascending_split sorted positive nonempty apart
  have fresh : c.1 ∉ firsts (pre ++ post) := by
    intro member
    obtain ⟨d, own, eq⟩ := List.mem_map.mp member
    rw [Set.disjoint_left] at apart
    have := positive d own
    exact apart ⟨Nat.le_refl _, by omega⟩ ⟨d, own, by omega, by omega⟩
  have least : ∀ d ∈ pre, d.1 < c.1 := fun d member => by
    have := below d member
    have := positive d (List.mem_append_left _ member)
    omega
  have most : ∀ d ∈ post, c.1 ≤ d.1 := fun d member => by
    have := above d member
    omega
  by_cases empty : pre ++ post = []
  · have none : r.head list = none := by
      rw [s.head, empty]
      rfl
    obtain ⟨rfl, rfl⟩ := List.append_eq_nil_iff.mp empty
    refine ⟨r.setHead list (some c.1), [], [], ⟨rfl, nofun, nofun, ⟨by simp, ⟨prev, next, trivial⟩, by simp⟩, ⟨?_, ?_⟩,
      ⟨rfl, rfl, rfl⟩⟩, .inl ⟨by rw [memRegionInsert, if_pos none], rfl⟩⟩
    · intro x _
      exact ⟨rfl, rfl⟩
    · intro other apart
      simp [apart]
  · have some' : r.head list ≠ none := by
      rw [s.head]
      intro eq
      exact empty (List.map_eq_nil_iff.mp (List.head?_eq_none_iff.mp eq))
    have strung := s
    rw [firsts_append] at strung fresh
    obtain ⟨linked, change, kept⟩ := strung.link fresh fun eq => empty (List.map_eq_nil_iff.mp ((firsts_append _ _).trans eq))
    have looped := @insertLoop_eq _ _ _ _ _ _ none _ s.links placed least most
      (Nat.lt_of_le_of_lt (by rw [List.length_append]; exact Nat.le_add_right _ _) short)
    refine ⟨r.link c.1 list (firsts pre).getLast? (firsts post).head?, pre, post, ⟨rfl, below, above, ?_, ?_, kept⟩, .inr ?_⟩
    · rw [firsts_append]
      exact linked
    · refine change.mono fun x member => ?_
      rw [firsts_append]
      exact List.mem_cons.mpr (by simpa [or_left_comm] using member)
    · rw [memRegionInsert, if_neg some', start, s.head, looped, Option.or_none]

theorem Strung.insert_alloc {c : Nat × Nat} (s : Strung r regalloclist (firsts l)) (placed : Placed base r l)
    (short : l.length < Heap.walkFuel) (sorted : Ascending l) (positive : ∀ d ∈ l, 0 < d.2) (nonempty : 0 < c.2)
    (apart : Disjoint (Set.Ico c.1 (c.1 + c.2)) (covered l)) (start : r.start c.1 = base + 4096 * c.1)
    (next : r.next c.1 = none) (prev : r.prev c.1 = none)
    (other : ∀ x, r.head regfreelist = some x → x ∉ c.1 :: firsts l) :
    ∃ r' pre post, r.memRegionInsert c.1 regalloclist = some r' ∧ Inserted r r' regalloclist c l pre post := by
  obtain ⟨r', pre, post, inserted, given⟩ := s.insert placed short sorted positive nonempty apart start next prev
  refine ⟨r', pre, post, ?_, inserted⟩
  rcases given with ⟨given, -⟩ | given
  · exact given
  · rw [if_neg] at given
    · exact given
    · rw [inserted.change.head regfreelist (by decide), inserted.strung.head]
      intro same
      cases first : (firsts (pre ++ c :: post)).head? with
      | none =>
          rw [List.head?_eq_none_iff, firsts_append, List.append_eq_nil_iff] at first
          exact nomatch first.2
      | some x =>
          rw [first] at same
          refine other x same.symm ?_
          have member := List.mem_of_head? first
          rw [inserted.split]
          simpa [firsts_append, or_left_comm] using member

structure Gap (N : Nat) (c : Nat × Nat) (pre post : List (Nat × Nat)) : Prop where
  front : Separate pre
  back : Separate post
  nonempty : 0 < c.2
  below : ∀ d ∈ pre, d.1 + d.2 ≤ c.1
  above : ∀ d ∈ post, c.1 + c.2 ≤ d.1
  within : ∀ d ∈ pre ++ c :: post, d.1 + d.2 ≤ N

theorem add32_pages {m : Nat} (ground : Ground base N) (small : k + m ≤ N) :
    add32 (4096 * k) (4096 * m) = 4096 * (k + m) := by
  have segment := ground.segment
  rw [add32, WORD]
  omega

theorem coalesceNext_spec {c : Nat × Nat} (ground : Ground base N) (s : Strung r list (firsts (pre ++ c :: post)))
    (placed : Placed base r (pre ++ c :: post)) (gap : Gap N c pre post) :
    ∃ d post', Strung (r.coalesceNext c.1) list (firsts (pre ++ d :: post')) ∧
      Placed base (r.coalesceNext c.1) (pre ++ d :: post') ∧ Gap N d pre post' ∧ d.1 = c.1 ∧
      (∀ e ∈ post', e ∈ post ∧ d.1 + d.2 < e.1) ∧ covered (d :: post') = covered (c :: post) ∧
      Changed r (r.coalesceNext c.1) list (firsts (pre ++ c :: post)) := by
  have next : r.next c.1 = (firsts post).head? := by
    have links := s.links
    rw [firsts_append, firsts_cons] at links
    have eq := links.next_eq
    rwa [Option.or_none] at eq
  have own := placed c (by simp)
  have inside := gap.within c (by simp)
  cases post with
  | nil =>
      have last : r.next c.1 = none := next
      rw [coalesceNext, last]
      exact ⟨c, [], s, placed, gap, rfl, nofun, rfl, Changed.refl _ _ _⟩
  | cons e post =>
      have other : r.next c.1 = some e.1 := next
      have their := placed e (by simp)
      have bound := gap.within e (by simp)
      have size := gap.back.positive e (.head _)
      have meets : r.adjacent c.1 e.1 ↔ c.1 + c.2 = e.1 :=
        ground.adjacent inside (Nat.lt_of_lt_of_le (Nat.lt_add_of_pos_right size) bound) own.1 own.2 their.1
      rw [coalesceNext, other]
      by_cases touch : c.1 + c.2 = e.1
      · simp only [meets.mpr touch, if_true]
        have strung := s
        rw [firsts_append, firsts_cons, firsts_cons] at strung
        obtain ⟨linked, change, start, threadId, length⟩ := strung.absorb
        have nodup := strung.nodup
        obtain ⟨-, right, distinct⟩ := List.nodup_append.mp nodup
        have fresh := (List.nodup_cons.mp right).1
        refine ⟨(c.1, c.2 + e.2), post, ?_, ?_, ⟨gap.front, gap.back.tail, ?_, gap.below, ?_, ?_⟩, rfl, ?_, ?_, ?_⟩
        · rw [firsts_append, firsts_cons]
          exact linked
        · intro d member
          rw [start, length]
          rcases List.mem_append.mp member with before | later
          · have apart : d.1 ≠ c.1 := distinct d.1 (List.mem_map_of_mem before) c.1 (.head _)
            rw [Function.update_of_ne apart]
            exact placed d (List.mem_append_left _ before)
          · rcases List.mem_cons.mp later with rfl | later
            · rw [Function.update_self, own.2, their.2, add32_pages ground (by omega)]
              exact ⟨own.1, rfl⟩
            · have apart : d.1 ≠ c.1 := fun eq => fresh (List.mem_cons_of_mem _ (eq ▸ List.mem_map_of_mem later))
              rw [Function.update_of_ne apart]
              exact placed d (by simp [later])
        · exact Nat.lt_of_lt_of_le size (Nat.le_add_left _ _)
        · intro d member
          have := (List.pairwise_cons.mp gap.back.apart).1 d member
          show c.1 + (c.2 + e.2) ≤ d.1
          omega
        · intro d member
          rcases List.mem_append.mp member with before | later
          · exact gap.within d (List.mem_append_left _ before)
          · rcases List.mem_cons.mp later with rfl | later
            · show c.1 + (c.2 + e.2) ≤ N
              omega
            · exact gap.within d (by simp [later])
        · intro d member
          have := (List.pairwise_cons.mp gap.back.apart).1 d member
          refine ⟨.tail _ member, ?_⟩
          show c.1 + (c.2 + e.2) < d.1
          omega
        · rw [covered_cons, covered_cons, covered_cons, ← Set.union_assoc, ← touch, Set.Ico_union_Ico_eq_Ico (by omega) (by omega)]
          simp only [Nat.add_assoc]
        · rw [firsts_append, firsts_cons, firsts_cons]
          refine ⟨change, start, threadId, fun x outside => ?_⟩
          rw [length, Function.update_of_ne fun eq => outside (by simp [eq])]
      · have apart : ¬ r.adjacent c.1 e.1 := fun eq => touch (meets.mp eq)
        simp only [apart, if_false]
        refine ⟨c, e :: post, s, placed, gap, rfl, fun d member => ⟨member, ?_⟩, rfl, Changed.refl _ _ _⟩
        have least := gap.above e (.head _)
        rcases List.mem_cons.mp member with rfl | later
        · omega
        · have := (List.pairwise_cons.mp gap.back.apart).1 d later
          omega

theorem coalescePrev_spec {c : Nat × Nat} (ground : Ground base N) (s : Strung r list (firsts (pre ++ c :: post)))
    (placed : Placed base r (pre ++ c :: post)) (gap : Gap N c pre post) (behind : ∀ e ∈ post, c.1 + c.2 < e.1) :
    ∃ l', Strung (r.coalescePrev c.1) list (firsts l') ∧ Placed base (r.coalescePrev c.1) l' ∧ Separate l' ∧
      covered l' = covered (pre ++ c :: post) ∧ Changed r (r.coalescePrev c.1) list (firsts (pre ++ c :: post)) := by
  have prev : r.prev c.1 = (firsts pre).getLast? := by
    have links := s.links
    rw [firsts_append, firsts_cons] at links
    have eq := links.prev_eq
    rwa [Option.or_none] at eq
  have own := placed c (by simp)
  have inside := gap.within c (by simp)
  have back : Separate (c :: post) :=
    ⟨List.pairwise_cons.mpr ⟨behind, gap.back.apart⟩, List.forall_mem_cons.mpr ⟨gap.nonempty, gap.back.positive⟩⟩
  rcases List.eq_nil_or_concat pre with rfl | ⟨front, e, rfl⟩
  · have none : r.prev c.1 = none := prev
    rw [coalescePrev, none]
    exact ⟨c :: post, s, placed, back, rfl, Changed.refl _ _ _⟩
  · rw [List.concat_eq_append] at *
    have other : r.prev c.1 = some e.1 := by
      rw [prev, firsts_append]
      exact List.getLast?_concat
    have their := placed e (by simp)
    have size := gap.front.positive e (by simp)
    have least := gap.below e (by simp)
    obtain ⟨frontApart, -, before⟩ := List.pairwise_append.mp gap.front.apart
    have before : ∀ d ∈ front, d.1 + d.2 < e.1 := fun d member => before d member e (by simp)
    have meets : r.adjacent e.1 c.1 ↔ e.1 + e.2 = c.1 :=
      ground.adjacent (by omega) (Nat.lt_of_lt_of_le (Nat.lt_add_of_pos_right gap.nonempty) inside) their.1 their.2 own.1
    rw [coalescePrev, other]
    have positives : ∀ d ∈ front, 0 < d.2 := fun d member => gap.front.positive d (List.mem_append_left _ member)
    by_cases touch : e.1 + e.2 = c.1
    · simp only [meets.mpr touch, if_true]
      have strung := s
      rw [List.append_assoc, List.singleton_append, firsts_append, firsts_cons, firsts_cons] at strung
      obtain ⟨linked, change, start, threadId, length⟩ := strung.absorb
      obtain ⟨-, right, distinct⟩ := List.nodup_append.mp strung.nodup
      have fresh := (List.nodup_cons.mp right).1
      refine ⟨front ++ (e.1, e.2 + c.2) :: post, ?_, ?_, ⟨?_, ?_⟩, ?_, ?_⟩
      · rw [firsts_append, firsts_cons]
        exact linked
      · intro d member
        rw [start, length]
        rcases List.mem_append.mp member with earlier | later
        · have apart : d.1 ≠ e.1 := distinct d.1 (List.mem_map_of_mem earlier) e.1 (.head _)
          rw [Function.update_of_ne apart]
          exact placed d (by simp [earlier])
        · rcases List.mem_cons.mp later with rfl | later
          · rw [Function.update_self, own.2, their.2, add32_pages ground (by omega)]
            exact ⟨their.1, rfl⟩
          · have apart : d.1 ≠ e.1 := fun eq => fresh (List.mem_cons_of_mem _ (eq ▸ List.mem_map_of_mem later))
            rw [Function.update_of_ne apart]
            exact placed d (by simp [later])
      · refine List.pairwise_append.mpr ⟨frontApart, List.pairwise_cons.mpr ⟨fun d member => ?_, gap.back.apart⟩, ?_⟩
        · have := behind d member
          show e.1 + (e.2 + c.2) < d.1
          omega
        · intro d earlier f later
          have := before d earlier
          rcases List.mem_cons.mp later with rfl | later
          · exact this
          · have := behind f later
            omega
      · intro d member
        rcases List.mem_append.mp member with earlier | later
        · exact positives d earlier
        · rcases List.mem_cons.mp later with rfl | later
          · exact Nat.lt_of_lt_of_le size (Nat.le_add_right _ _)
          · exact gap.back.positive d later
      · rw [List.append_assoc, List.singleton_append, covered_append, covered_append, covered_cons, covered_cons, covered_cons,
          ← Set.union_assoc (Set.Ico e.1 _), ← touch, Set.Ico_union_Ico_eq_Ico (by omega) (by omega)]
        simp only [Nat.add_assoc]
      · rw [List.append_assoc, List.singleton_append, firsts_append, firsts_cons, firsts_cons]
        refine ⟨change, start, threadId, fun x outside => ?_⟩
        rw [length, Function.update_of_ne fun eq => outside (by simp [eq])]
    · have apart : ¬ r.adjacent e.1 c.1 := fun eq => touch (meets.mp eq)
      simp only [apart, if_false]
      refine ⟨front ++ [e] ++ c :: post, s, placed, ⟨?_, ?_⟩, rfl, Changed.refl _ _ _⟩
      · refine List.pairwise_append.mpr ⟨gap.front.apart, back.apart, ?_⟩
        intro d earlier f later
        have less : d.1 + d.2 < c.1 := by
          rcases List.mem_append.mp earlier with earlier | last
          · have := before d earlier
            omega
          · rw [List.mem_singleton.mp last]
            omega
        rcases List.mem_cons.mp later with rfl | later
        · exact less
        · have := behind f later
          omega
      · intro d member
        rcases List.mem_append.mp member with earlier | later
        · exact gap.front.positive d earlier
        · exact back.positive d later

theorem Strung.insert_free {c : Nat × Nat} (ground : Ground base N) (s : Strung r regfreelist (firsts l))
    (placed : Placed base r l) (separate : Separate l) (within : ∀ d ∈ l, d.1 + d.2 ≤ N) (nonempty : 0 < c.2)
    (inside : c.1 + c.2 ≤ N) (short : l.length < Heap.walkFuel) (apart : Disjoint (Set.Ico c.1 (c.1 + c.2)) (covered l))
    (start : r.start c.1 = base + 4096 * c.1) (length : r.length c.1 = 4096 * c.2) (next : r.next c.1 = none)
    (prev : r.prev c.1 = none) :
    ∃ r' l', r.memRegionInsert c.1 regfreelist = some r' ∧ Strung r' regfreelist (firsts l') ∧ Placed base r' l' ∧
      Separate l' ∧ covered l' = Set.Ico c.1 (c.1 + c.2) ∪ covered l ∧ Changed r r' regfreelist (c.1 :: firsts l) := by
  have sorted : Ascending l := separate.apart.imp fun {d e} less => Nat.le_of_lt less
  obtain ⟨r', pre, post, inserted, given⟩ := s.insert placed short sorted separate.positive nonempty apart start next prev
  have strung := inserted.strung
  have change := inserted.kept.changed inserted.change
  obtain rfl := inserted.split
  have placed' : Placed base r' (pre ++ c :: post) := by
    refine Placed.kept (fun d member => ?_) inserted.kept
    rcases List.mem_append.mp member with before | later
    · exact placed d (List.mem_append_left _ before)
    · rcases List.mem_cons.mp later with rfl | later
      · exact ⟨start, length⟩
      · exact placed d (List.mem_append_right _ later)
  have swap : covered (pre ++ c :: post) = Set.Ico c.1 (c.1 + c.2) ∪ covered (pre ++ post) := by
    rw [covered_append, covered_append, covered_cons, Set.union_left_comm]
  rcases given with ⟨given, empty⟩ | given
  · obtain ⟨rfl, rfl⟩ := List.append_eq_nil_iff.mp empty
    refine ⟨r', [c], given, strung, placed', ⟨List.pairwise_singleton _ _, ?_⟩, swap, change⟩
    intro d member
    rw [List.mem_singleton.mp member]
    exact nonempty
  · obtain ⟨front, back, -⟩ := List.pairwise_append.mp separate.apart
    have gap : Gap N c pre post := by
      refine ⟨⟨front, ?_⟩, ⟨back, ?_⟩, nonempty, inserted.below, inserted.above, ?_⟩
      · exact fun d member => separate.positive d (List.mem_append_left _ member)
      · exact fun d member => separate.positive d (List.mem_append_right _ member)
      · intro d member
        rcases List.mem_append.mp member with before | later
        · exact within d (List.mem_append_left _ before)
        · rcases List.mem_cons.mp later with rfl | later
          · exact inside
          · exact within d (List.mem_append_right _ later)
    obtain ⟨d, post', strung', placed'', gap', same, behind, cover, change'⟩ := coalesceNext_spec ground strung placed' gap
    obtain ⟨l', strung'', placed''', separate', cover', change''⟩ := coalescePrev_spec ground strung' placed'' gap' fun e member => (behind e member).2
    have sub : firsts (pre ++ c :: post) ⊆ c.1 :: firsts (pre ++ post) := by
      intro x member
      simpa [firsts_append, or_left_comm] using member
    have sub' : firsts (pre ++ d :: post') ⊆ firsts (pre ++ c :: post) := by
      intro x member
      rw [firsts_append, firsts_cons] at member ⊢
      rcases List.mem_append.mp member with before | later
      · exact List.mem_append_left _ before
      · rcases List.mem_cons.mp later with rfl | later
        · rw [same]
          simp
        · obtain ⟨e, own, rfl⟩ := List.mem_map.mp later
          exact List.mem_append_right _ (List.mem_cons_of_mem _ (List.mem_map_of_mem (behind e own).1))
    rw [same] at strung'' placed''' change''
    refine ⟨_, l', by rw [given, if_pos rfl]; rfl, strung'', placed''', separate', ?_, ?_⟩
    · rw [cover', covered_append, cover, ← swap, covered_append]
    · exact (change.trans change' sub).trans change'' fun x member => sub (sub' member)

/-- The lists of the allocator, whose regions are the `N` pages from `base` on. -/
structure Paged (base N : Nat) (r : Regions) (free alloc : List (Nat × Nat)) : Prop where
  freeList : Strung r regfreelist (firsts free)
  allocList : Strung r regalloclist (firsts alloc)
  placed : Placed base r (free ++ alloc)
  separate : Separate free
  sorted : Ascending alloc
  positive : ∀ c ∈ alloc, 0 < c.2
  apart : Disjoint (covered free) (covered alloc)
  all : covered free ∪ covered alloc = Set.Ico 0 N
  first : r.start 0 = base

theorem Paged.within (parts : Paged base N r free alloc) : ∀ c ∈ free ++ alloc, 0 < c.2 ∧ c.1 + c.2 ≤ N := by
  intro c member
  have size : 0 < c.2 := by
    rcases List.mem_append.mp member with own | own
    · exact parts.separate.positive c own
    · exact parts.positive c own
  have last : c.1 + c.2 - 1 ∈ covered free ∪ covered alloc := by
    rw [← covered_append]
    exact ⟨c, member, by omega, by omega⟩
  rw [parts.all] at last
  have := last.2
  omega

theorem Paged.distinct (parts : Paged base N r free alloc) {c d : Nat × Nat} (member : c ∈ free) (member' : d ∈ alloc) :
    c.1 ≠ d.1 := by
  intro eq
  have := parts.separate.positive c member
  have := parts.positive d member'
  exact Set.disjoint_left.mp parts.apart ⟨c, member, Nat.le_refl _, by omega⟩ ⟨d, member', by omega, by omega⟩

theorem length_le_of_within {l : List (Nat × Nat)} (sorted : Ascending l) (within : ∀ c ∈ l, i ≤ c.1 ∧ 0 < c.2 ∧ c.1 + c.2 ≤ N)
    (range : i ≤ N) : i + l.length ≤ N := by
  induction l generalizing i with
  | nil => exact range
  | cons c l ih =>
      obtain ⟨before, sorted⟩ := List.pairwise_cons.mp sorted
      have own := within c (.head _)
      have later := @ih (c.1 + c.2) sorted (fun d member => ⟨before d member, (within d (.tail _ member)).2⟩) own.2.2
      rw [List.length_cons]
      omega

theorem Paged.short (ground : Ground base N) (parts : Paged base N r free alloc) :
    free.length < Heap.walkFuel ∧ alloc.length < Heap.walkFuel := by
  have segment := ground.segment
  have sorted : Ascending free := parts.separate.apart.imp fun {c d} less => Nat.le_of_lt less
  have one := length_le_of_within sorted (fun c member =>
    ⟨Nat.zero_le _, parts.within c (List.mem_append_left _ member)⟩) (Nat.zero_le N)
  have two := length_le_of_within parts.sorted (fun c member =>
    ⟨Nat.zero_le _, parts.within c (List.mem_append_right _ member)⟩) (Nat.zero_le N)
  rw [Heap.walkFuel, WORD]
  omega

theorem findLoop_eq {fuel : Nat} {p : Option Nat} (links : Doubly r.next r.prev p (firsts (pre ++ post)) none)
    (placed : Placed base r (pre ++ post)) (small : ∀ c ∈ pre, c.2 ≤ k) (large : ∀ c, post.head? = some c → k < c.2)
    (enough : pre.length < fuel) :
    r.findLoop (4096 * k) fuel (firsts (pre ++ post)).head? = some (firsts post).head? := by
  induction fuel generalizing pre p with
  | zero => exact absurd enough (Nat.not_lt_zero _)
  | succ fuel ih =>
      cases pre with
      | nil =>
          cases post with
          | nil => rfl
          | cons c post =>
              have length := (placed c (.head _)).2
              have more := large c rfl
              show (if r.length c.1 > 4096 * k then _ else _) = _
              rw [if_pos (by omega)]
              rfl
      | cons c pre =>
          have length := (placed c (.head _)).2
          have less := small c (.head _)
          obtain ⟨-, next, rest⟩ := links
          show (if r.length c.1 > 4096 * k then _ else r.findLoop (4096 * k) fuel (r.next c.1)) = _
          rw [Option.or_none] at next
          rw [if_neg (by omega), next]
          exact @ih pre _ rest (fun d member => placed d (.tail _ member)) (fun d member => small d (.tail _ member))
            (Nat.lt_of_succ_lt_succ enough)

theorem first_larger (k : Nat) (l : List (Nat × Nat)) :
    ∃ pre post, l = pre ++ post ∧ (∀ c ∈ pre, c.2 ≤ k) ∧ ∀ c, post.head? = some c → k < c.2 := by
  induction l with
  | nil => exact ⟨[], [], rfl, nofun, nofun⟩
  | cons c l ih =>
      by_cases large : k < c.2
      · exact ⟨[], c :: l, rfl, nofun, fun d eq => Option.some.inj eq ▸ large⟩
      · obtain ⟨pre, post, rfl, small, more⟩ := ih
        exact ⟨c :: pre, post, rfl, List.forall_mem_cons.mpr ⟨Nat.le_of_not_lt large, small⟩, more⟩

structure Split (base : Nat) (r r' : Regions) (i k m : Nat) : Prop where
  links : ∀ x, x ≠ i + k → r'.next x = r.next x ∧ r'.prev x = r.prev x ∧ r'.start x = r.start x ∧ r'.threadId x = r.threadId x
  head : r'.head = r.head
  length : ∀ x, x ≠ i → x ≠ i + k → r'.length x = r.length x
  kept : r'.length i = 4096 * k
  next : r'.next (i + k) = none
  prev : r'.prev (i + k) = none
  start : r'.start (i + k) = base + 4096 * (i + k)
  rest : r'.length (i + k) = 4096 * (m - k)

theorem split_spec {m : Nat} (ground : Ground base N) (first : r.start 0 = base) (start : r.start i = base + 4096 * i)
    (length : r.length i = 4096 * m) (nonzero : 0 < k) (more : k < m) (within : i + m ≤ N) :
    ∃ r', r.memRegionSplit i (4096 * k) = (r', some (some (i + k))) ∧ Split base r r' i k m := by
  have top := ground.top
  have word := ground.word
  have segment := ground.segment
  obtain ⟨q, multiple⟩ := ground.aligned
  rw [physical] at segment
  have round : roundpage (4096 * k) = 4096 * k := by
    rw [roundpage, PAGE_SIZE, WORD]
    omega
  have remStart : add32 (base + 4096 * i) (4096 * k) = base + 4096 * (i + k) := by
    rw [add32, WORD] at *
    omega
  have discovered : r.memRegionDiscover (base + 4096 * (i + k)) = i + k := by
    rw [memRegionDiscover, first, truncpage, physical, physical, sub32, PAGE_SIZE]
    rw [WORD] at *
    omega
  have rest : sub32 (4096 * m) (4096 * k) = 4096 * (m - k) := by
    rw [sub32, WORD] at *
    omega
  have other : i ≠ i + k := by omega
  let remainder : Memregion := ⟨none, none, base + 4096 * (i + k), 4096 * (m - k), 0⟩
  refine ⟨(⟨Function.update r.regtab (i + k) remainder, r.head⟩ : Regions).setLength i (4096 * k), ?_, ?_⟩
  · rw [memRegionSplit, round, length, if_neg (by omega), if_neg (by omega), start, remStart]
    simp only [discovered, rest]
    rfl
  refine ⟨?_, rfl, ?_, ?_, ?_, ?_, ?_, ?_⟩
  · intro x apart
    simp only [setLength_next, setLength_prev, setLength_start, setLength_threadId]
    simp only [Regions.next, Regions.prev, Regions.start, Regions.threadId, Function.update_of_ne apart, and_self]
  · intro x apart apart'
    rw [setLength_length, Function.update_of_ne apart]
    simp only [Regions.length, Function.update_of_ne apart']
  · rw [setLength_length, Function.update_self]
  · rw [setLength_next]
    simp only [Regions.next, Function.update_self]
    rfl
  · rw [setLength_prev]
    simp only [Regions.prev, Function.update_self]
    rfl
  · rw [setLength_start]
    simp only [Regions.start, Function.update_self]
    rfl
  · rw [setLength_length, Function.update_of_ne other.symm]
    simp only [Regions.length, Function.update_self]
    rfl

theorem Split.strung {m : Nat} {l : List Nat} (split : Split base r r' i k m) (s : Strung r list l) (outside : i + k ∉ l) :
    Strung r' list l where
  head := by rw [split.head, s.head]
  links := s.links.congr fun x member => by
    obtain ⟨next, prev, -⟩ := split.links x fun eq => outside (eq ▸ member)
    exact ⟨next, prev⟩
  nodup := s.nodup

theorem Inserted.ascending {c : Nat × Nat} (inserted : Inserted r r' list c l pre post) (sorted : Ascending l) :
    Ascending (pre ++ c :: post) := by
  rw [inserted.split] at sorted
  obtain ⟨front, back, across⟩ := List.pairwise_append.mp sorted
  refine List.pairwise_append.mpr ⟨front, List.pairwise_cons.mpr ⟨inserted.above, back⟩, fun d before e later => ?_⟩
  rcases List.mem_cons.mp later with rfl | later
  · exact inserted.below d before
  · exact across d before e later

theorem Inserted.perm {c : Nat × Nat} (inserted : Inserted r r' list c l pre post) : (pre ++ c :: post).Perm (c :: l) := by
  rw [inserted.split]
  exact List.perm_middle

/-- The lists of the allocator without some regions, which have been taken out of them. -/
structure Loose (base N : Nat) (r : Regions) (free alloc out : List (Nat × Nat)) : Prop where
  freeList : Strung r regfreelist (firsts free)
  allocList : Strung r regalloclist (firsts alloc)
  unlinked : ∀ c ∈ out, r.next c.1 = none ∧ r.prev c.1 = none
  placed : Placed base r (out ++ (free ++ alloc))
  separate : Separate free
  sorted : Ascending alloc
  positive : ∀ c ∈ out ++ alloc, 0 < c.2
  apart : Disjoint (covered free) (covered alloc)
  clear : Disjoint (covered out) (covered free ∪ covered alloc)
  between : out.Pairwise fun c d => Disjoint (Set.Ico c.1 (c.1 + c.2)) (Set.Ico d.1 (d.1 + d.2))
  all : covered out ∪ (covered free ∪ covered alloc) = Set.Ico 0 N
  first : r.start 0 = base

theorem Paged.loose (parts : Paged base N r free alloc) : Loose base N r free alloc [] :=
  { parts with
    unlinked := nofun
    clear := by rw [covered_nil]; exact Set.empty_disjoint _
    between := .nil
    all := by rw [covered_nil, Set.empty_union]; exact parts.all }

theorem Loose.paged (loose : Loose base N r free alloc []) : Paged base N r free alloc :=
  { loose with
    all := by
      have all := loose.all
      rw [covered_nil, Set.empty_union] at all
      exact all }

theorem firsts_apart {l l' : List (Nat × Nat)} (positive : ∀ c ∈ l, 0 < c.2) (positive' : ∀ c ∈ l', 0 < c.2)
    (apart : Disjoint (covered l) (covered l')) : ∀ x ∈ firsts l, x ∉ firsts l' := by
  intro x member member'
  obtain ⟨c, own, rfl⟩ := List.mem_map.mp member
  obtain ⟨d, their, eq⟩ := List.mem_map.mp member'
  have := positive c own
  have := positive' d their
  exact Set.disjoint_left.mp apart ⟨c, own, Nat.le_refl _, by omega⟩ ⟨d, their, by omega, by omega⟩

theorem covered_between {c : Nat × Nat} {out : List (Nat × Nat)} :
    Disjoint (Set.Ico c.1 (c.1 + c.2)) (covered out) ↔
      ∀ d ∈ out, Disjoint (Set.Ico c.1 (c.1 + c.2)) (Set.Ico d.1 (d.1 + d.2)) := by
  induction out with
  | nil => simp
  | cons d out ih => rw [covered_cons, Set.disjoint_union_right, ih, List.forall_mem_cons]

theorem Ascending.clear {c : Nat × Nat} (sorted : Ascending (pre ++ c :: post)) :
    Disjoint (Set.Ico c.1 (c.1 + c.2)) (covered (pre ++ post)) := by
  obtain ⟨-, back, across⟩ := List.pairwise_append.mp sorted
  obtain ⟨behind, -⟩ := List.pairwise_cons.mp back
  refine Set.disjoint_left.mpr ?_
  rintro x inside ⟨d, member, start, fin⟩
  have := inside.1
  have := inside.2
  rcases List.mem_append.mp member with before | later
  · have := across d before c (.head _)
    omega
  · have := behind d later
    omega

theorem sublist_middle (pre post : List (Nat × Nat)) (c : Nat × Nat) : (pre ++ post).Sublist (pre ++ c :: post) :=
  List.Sublist.append_left (List.sublist_cons_self c post) pre

section
variable {out : List (Nat × Nat)} {c : Nat × Nat}

theorem Loose.within (loose : Loose base N r free alloc out) : ∀ c ∈ out ++ (free ++ alloc), 0 < c.2 ∧ c.1 + c.2 ≤ N := by
  intro c member
  have size : 0 < c.2 := by
    rcases List.mem_append.mp member with own | own
    · exact loose.positive c (List.mem_append_left _ own)
    · rcases List.mem_append.mp own with own | own
      · exact loose.separate.positive c own
      · exact loose.positive c (List.mem_append_right _ own)
  have last : c.1 + c.2 - 1 ∈ covered out ∪ (covered free ∪ covered alloc) := by
    rw [← covered_append, ← covered_append]
    exact ⟨c, member, by omega, by omega⟩
  rw [loose.all] at last
  have := last.2
  omega

theorem Loose.short (ground : Ground base N) (loose : Loose base N r free alloc out) :
    free.length < Heap.walkFuel ∧ alloc.length < Heap.walkFuel := by
  have segment := ground.segment
  have sorted : Ascending free := loose.separate.apart.imp fun {c d} less => Nat.le_of_lt less
  have one := length_le_of_within sorted (fun c member =>
    ⟨Nat.zero_le _, loose.within c (List.mem_append_right _ (List.mem_append_left _ member))⟩) (Nat.zero_le N)
  have two := length_le_of_within loose.sorted (fun c member =>
    ⟨Nat.zero_le _, loose.within c (List.mem_append_right _ (List.mem_append_right _ member))⟩) (Nat.zero_le N)
  rw [Heap.walkFuel, WORD]
  omega

theorem Loose.distinct (loose : Loose base N r free alloc out) :
    (∀ x ∈ firsts out, x ∉ firsts free ∧ x ∉ firsts alloc) ∧ ∀ x ∈ firsts free, x ∉ firsts alloc := by
  obtain ⟨clearFree, clearAlloc⟩ := Set.disjoint_union_right.mp loose.clear
  have positive : ∀ c ∈ out, 0 < c.2 := fun c member => loose.positive c (List.mem_append_left _ member)
  have positive' : ∀ c ∈ alloc, 0 < c.2 := fun c member => loose.positive c (List.mem_append_right _ member)
  exact ⟨fun x member => ⟨firsts_apart positive loose.separate.positive clearFree x member,
    firsts_apart positive positive' clearAlloc x member⟩, firsts_apart loose.separate.positive positive' loose.apart⟩

theorem Loose.head_clear (loose : Loose base N r free alloc (c :: out)) :
    c.1 ∉ firsts out ∧ Disjoint (Set.Ico c.1 (c.1 + c.2)) (covered out) := by
  have apart := covered_between.mpr (List.pairwise_cons.mp loose.between).1
  refine ⟨fun member => ?_, apart⟩
  have alone : Disjoint (covered [c]) (covered out) := by
    rw [covered_cons, covered_nil, Set.union_empty]
    exact apart
  refine firsts_apart (fun d member => ?_) (fun d member => ?_) alone c.1 (List.mem_singleton_self _) member
  · rw [List.mem_singleton.mp member]
    exact loose.positive c (.head _)
  · exact loose.positive d (List.mem_append_left _ (.tail _ member))

theorem Loose.removeFree (loose : Loose base N r (pre ++ c :: post) alloc out) :
    Loose base N (r.memRegionRemove c.1 regfreelist) (pre ++ post) alloc (c :: out) ∧
      (r.memRegionRemove c.1 regfreelist).threadId = r.threadId := by
  have strung := loose.freeList
  obtain ⟨outside, others⟩ := loose.distinct
  rw [firsts_append, firsts_cons] at strung outside others
  obtain ⟨s, change, kept, next, prev⟩ := strung.remove
  rw [← firsts_append] at s
  have sub := (sublist_middle pre post c).subset
  have sorted : Ascending (pre ++ c :: post) := loose.separate.apart.imp fun {c d} less => Nat.le_of_lt less
  have clear := sorted.clear
  have apart := loose.apart
  have clearOut := loose.clear
  have all := loose.all
  rw [covered_perm List.perm_middle, covered_cons] at apart clearOut all
  rw [Set.disjoint_union_left] at apart
  rw [Set.disjoint_union_right, Set.disjoint_union_right] at clearOut
  refine ⟨⟨s, loose.allocList.frame change nofun fun x member inside => others x inside member, ?_, ?_, ?_, loose.sorted, ?_,
    apart.2, ?_, ?_, ?_, ?_⟩, kept.threadId⟩
  · refine List.forall_mem_cons.mpr ⟨⟨next, prev⟩, fun d member => ?_⟩
    obtain ⟨nextSame, prevSame⟩ := change.links d.1 (outside d.1 (List.mem_map_of_mem member)).1
    rw [nextSame, prevSame]
    exact loose.unlinked d member
  · refine Placed.kept (fun d member => loose.placed d ?_) kept
    rcases List.mem_append.mp member with own | own
    · rcases List.mem_cons.mp own with rfl | own
      · simp
      · exact List.mem_append_left _ own
    · rcases List.mem_append.mp own with own | own
      · exact List.mem_append_right _ (List.mem_append_left _ (sub own))
      · exact List.mem_append_right _ (List.mem_append_right _ own)
  · exact ⟨loose.separate.apart.sublist (sublist_middle pre post c), fun d member => loose.separate.positive d (sub member)⟩
  · exact List.forall_mem_cons.mpr ⟨loose.separate.positive c (by simp), loose.positive⟩
  · rw [covered_cons, Set.disjoint_union_left, Set.disjoint_union_right, Set.disjoint_union_right]
    exact ⟨⟨clear, apart.1⟩, clearOut.1.2, clearOut.2⟩
  · exact List.pairwise_cons.mpr ⟨covered_between.mp clearOut.1.1.symm, loose.between⟩
  · rw [covered_cons, ← all]
    ac_rfl
  · rw [kept.start]
    exact loose.first

theorem Loose.removeAlloc (loose : Loose base N r free (pre ++ c :: post) out) :
    Loose base N (r.memRegionRemove c.1 regalloclist) free (pre ++ post) (c :: out) ∧
      (r.memRegionRemove c.1 regalloclist).threadId = r.threadId := by
  have strung := loose.allocList
  obtain ⟨outside, others⟩ := loose.distinct
  rw [firsts_append, firsts_cons] at strung outside others
  obtain ⟨s, change, kept, next, prev⟩ := strung.remove
  rw [← firsts_append] at s
  have sub := (sublist_middle pre post c).subset
  have clear := loose.sorted.clear
  have apart := loose.apart
  have clearOut := loose.clear
  have all := loose.all
  rw [covered_perm List.perm_middle, covered_cons] at apart clearOut all
  rw [Set.disjoint_union_right] at apart
  rw [Set.disjoint_union_right, Set.disjoint_union_right] at clearOut
  refine ⟨⟨loose.freeList.frame change nofun others, s, ?_, ?_, loose.separate, loose.sorted.sublist (sublist_middle pre post c), ?_,
    apart.2, ?_, ?_, ?_, ?_⟩, kept.threadId⟩
  · refine List.forall_mem_cons.mpr ⟨⟨next, prev⟩, fun d member => ?_⟩
    obtain ⟨nextSame, prevSame⟩ := change.links d.1 (outside d.1 (List.mem_map_of_mem member)).2
    rw [nextSame, prevSame]
    exact loose.unlinked d member
  · refine Placed.kept (fun d member => loose.placed d ?_) kept
    rcases List.mem_append.mp member with own | own
    · rcases List.mem_cons.mp own with rfl | own
      · simp
      · exact List.mem_append_left _ own
    · rcases List.mem_append.mp own with own | own
      · exact List.mem_append_right _ (List.mem_append_left _ own)
      · exact List.mem_append_right _ (List.mem_append_right _ (sub own))
  · intro d member
    rcases List.mem_append.mp member with own | own
    · rcases List.mem_cons.mp own with rfl | own
      · exact loose.positive d (by simp)
      · exact loose.positive d (List.mem_append_left _ own)
    · exact loose.positive d (List.mem_append_right _ (sub own))
  · rw [covered_cons, Set.disjoint_union_left, Set.disjoint_union_right, Set.disjoint_union_right]
    exact ⟨⟨apart.1.symm, clear⟩, clearOut.1, clearOut.2.2⟩
  · exact List.pairwise_cons.mpr ⟨covered_between.mp clearOut.2.1.symm, loose.between⟩
  · rw [covered_cons, ← all]
    ac_rfl
  · rw [kept.start]
    exact loose.first

theorem Loose.insertFree (ground : Ground base N) (loose : Loose base N r free alloc (c :: out)) :
    ∃ r' free', r.memRegionInsert c.1 regfreelist = some r' ∧ Loose base N r' free' alloc out ∧ r'.threadId = r.threadId := by
  have own := loose.placed c (.head _)
  have bound := loose.within c (.head _)
  obtain ⟨next, prev⟩ := loose.unlinked c (.head _)
  obtain ⟨fresh, alone⟩ := loose.head_clear
  obtain ⟨outside, others⟩ := loose.distinct
  have clear := loose.clear
  have all := loose.all
  rw [covered_cons] at all
  rw [covered_cons, Set.disjoint_union_left, Set.disjoint_union_right, Set.disjoint_union_right] at clear
  obtain ⟨r', free', given, s, placed, separate, cover, change⟩ :=
    loose.freeList.insert_free ground (fun d member => loose.placed d (by simp [member])) loose.separate
      (fun d member => (loose.within d (by simp [member])).2) bound.1 bound.2 (loose.short ground).1 clear.1.1 own.1 own.2
      next prev
  -- the links of the others stay
  have still : ∀ d ∈ out ++ alloc, d.1 ∉ c.1 :: firsts free := by
    intro d member inside
    rcases List.mem_append.mp member with own | own
    · rcases List.mem_cons.mp inside with eq | inside
      · exact fresh (eq ▸ List.mem_map_of_mem own)
      · exact (outside d.1 (List.mem_map_of_mem (.tail _ own))).1 inside
    · rcases List.mem_cons.mp inside with eq | inside
      · exact (outside c.1 (.head _)).2 (eq ▸ List.mem_map_of_mem own)
      · exact others d.1 inside (List.mem_map_of_mem own)
  refine ⟨r', free', given, ⟨s, loose.allocList.frame change.toRelinked nofun fun x member => ?_, fun d member => ?_, ?_, separate,
    loose.sorted, fun d member => loose.positive d (.tail _ member), ?_, ?_, (List.pairwise_cons.mp loose.between).2, ?_, ?_⟩,
    change.threadId⟩
  · obtain ⟨d, own, rfl⟩ := List.mem_map.mp member
    exact still d (List.mem_append_right _ own)
  · obtain ⟨nextSame, prevSame⟩ := change.links d.1 (still d (List.mem_append_left _ member))
    rw [nextSame, prevSame]
    exact loose.unlinked d (.tail _ member)
  · intro d member
    by_cases own : d ∈ free'
    · exact placed d own
    · have other : d ∈ out ++ alloc := by simpa [own] using member
      rw [change.start, change.length d.1 (still d other)]
      apply loose.placed
      rcases List.mem_append.mp other with own | own
      · simp [own]
      · simp [own]
  · rw [cover, Set.disjoint_union_left]
    exact ⟨clear.1.2, loose.apart⟩
  · rw [cover, Set.disjoint_union_right, Set.disjoint_union_right]
    exact ⟨⟨alone.symm, clear.2.1⟩, clear.2.2⟩
  · rw [cover, ← all]
    ac_rfl
  · rw [change.start]
    exact loose.first

theorem Loose.insertAlloc (ground : Ground base N) (loose : Loose base N r free alloc (c :: out)) :
    ∃ r' alloc', r.memRegionInsert c.1 regalloclist = some r' ∧ Loose base N r' free alloc' out ∧ alloc'.Perm (c :: alloc) ∧
      r'.threadId = r.threadId := by
  have own := loose.placed c (.head _)
  obtain ⟨next, prev⟩ := loose.unlinked c (.head _)
  obtain ⟨fresh, alone⟩ := loose.head_clear
  obtain ⟨outside, others⟩ := loose.distinct
  have clear := loose.clear
  have all := loose.all
  rw [covered_cons] at all
  rw [covered_cons, Set.disjoint_union_left, Set.disjoint_union_right, Set.disjoint_union_right] at clear
  have noshare : ∀ x ∈ firsts free, x ∉ c.1 :: firsts alloc := by
    intro x member inside
    rcases List.mem_cons.mp inside with eq | inside
    · exact (outside c.1 (.head _)).1 (eq ▸ member)
    · exact others x member inside
  obtain ⟨r', pre, post, given, inserted⟩ :=
    loose.allocList.insert_alloc (fun d member => loose.placed d (by simp [member])) (loose.short ground).2 loose.sorted
      (fun d member => loose.positive d (by simp [member])) (loose.positive c (.head _)) clear.1.2 own.1 next prev
      fun x first => noshare x (List.mem_of_head? (loose.freeList.head ▸ first))
  have change := inserted.change
  have cover : covered (pre ++ c :: post) = Set.Ico c.1 (c.1 + c.2) ∪ covered alloc := by
    rw [covered_perm inserted.perm, covered_cons]
  refine ⟨r', pre ++ c :: post, given, ⟨loose.freeList.frame change nofun noshare, inserted.strung, fun d member => ?_, ?_,
    loose.separate, inserted.ascending loose.sorted, fun d member => ?_, ?_, ?_, (List.pairwise_cons.mp loose.between).2, ?_, ?_⟩,
    inserted.perm, inserted.kept.threadId⟩
  · have apart : d.1 ∉ c.1 :: firsts alloc := by
      intro inside
      rcases List.mem_cons.mp inside with eq | inside
      · exact fresh (eq ▸ List.mem_map_of_mem member)
      · exact (outside d.1 (List.mem_map_of_mem (.tail _ member))).2 inside
    obtain ⟨nextSame, prevSame⟩ := change.links d.1 apart
    rw [nextSame, prevSame]
    exact loose.unlinked d (.tail _ member)
  · refine Placed.kept (fun d member => loose.placed d ?_) inserted.kept
    have := @List.Perm.mem_iff _ d _ _ inserted.perm
    simp only [List.mem_append, List.mem_cons] at member this ⊢
    grind
  · apply loose.positive
    have := @List.Perm.mem_iff _ d _ _ inserted.perm
    simp only [List.mem_append, List.mem_cons] at member this ⊢
    grind
  · rw [cover, Set.disjoint_union_right]
    exact ⟨clear.1.1.symm, loose.apart⟩
  · rw [cover, Set.disjoint_union_right, Set.disjoint_union_right]
    exact ⟨clear.2.1, alone.symm, clear.2.2⟩
  · rw [cover, ← all]
    ac_rfl
  · rw [inserted.kept.start]
    exact loose.first

theorem Loose.split (ground : Ground base N) {m : Nat} (loose : Loose base N r free alloc [(i, m)]) (nonzero : 0 < k)
    (more : k < m) :
    ∃ r', r.memRegionSplit i (4096 * k) = (r', some (some (i + k))) ∧
      Loose base N r' free alloc [(i + k, m - k), (i, k)] := by
  have own := loose.placed (i, m) (.head _)
  have bound := loose.within (i, m) (.head _)
  obtain ⟨next, prev⟩ := loose.unlinked (i, m) (.head _)
  obtain ⟨outside, -⟩ := loose.distinct
  obtain ⟨r', splits, split⟩ := split_spec ground loose.first own.1 own.2 nonzero more bound.2
  have other : i ≠ i + k := by omega
  have whole : covered [(i + k, m - k), (i, k)] = covered [(i, m)] := by
    ext x
    simp only [covered_cons, covered_nil, Set.union_empty, Set.mem_union, Set.mem_Ico]
    omega
  have inner : i + k ∈ covered [(i, m)] := ⟨(i, m), .head _, Nat.le_add_right _ _, Nat.add_lt_add_left more i⟩
  have away {l : List (Nat × Nat)} (positive : ∀ d ∈ l, 0 < d.2) (apart : Disjoint (covered [(i, m)]) (covered l)) :
      i + k ∉ firsts l := by
    intro member
    obtain ⟨d, member, eq⟩ := List.mem_map.mp member
    have := positive d member
    exact Set.disjoint_left.mp apart inner ⟨d, member, by omega, by omega⟩
  obtain ⟨clearFree, clearAlloc⟩ := Set.disjoint_union_right.mp loose.clear
  have outFree := away loose.separate.positive clearFree
  have outAlloc := away (fun d member => loose.positive d (List.mem_append_right _ member)) clearAlloc
  obtain ⟨nextSame, prevSame, startSame, -⟩ := split.links i other
  refine ⟨r', splits, ⟨split.strung loose.freeList outFree, split.strung loose.allocList outAlloc, ?_, ?_, loose.separate,
    loose.sorted, ?_, loose.apart, whole ▸ loose.clear, ?_, whole ▸ loose.all, ?_⟩⟩
  · refine List.forall_mem_cons.mpr ⟨⟨split.next, split.prev⟩, List.forall_mem_cons.mpr ⟨?_, nofun⟩⟩
    rw [nextSame, prevSame]
    exact ⟨next, prev⟩
  · refine List.forall_mem_cons.mpr ⟨⟨split.start, split.rest⟩, List.forall_mem_cons.mpr ⟨?_, fun d member => ?_⟩⟩
    · rw [startSame]
      exact ⟨own.1, split.kept⟩
    · have first : d.1 ∈ firsts free ∨ d.1 ∈ firsts alloc :=
        (List.mem_append.mp (show d ∈ free ++ alloc from member)).imp List.mem_map_of_mem List.mem_map_of_mem
      have apart : d.1 ≠ i + k := fun eq => first.elim (eq ▸ outFree) (eq ▸ outAlloc)
      have apart' : d.1 ≠ i := by
        obtain ⟨noFree, noAlloc⟩ := outside i (.head _)
        exact fun eq => first.elim (eq ▸ noFree) (eq ▸ noAlloc)
      rw [(split.links d.1 apart).2.2.1, split.length d.1 apart' apart]
      exact loose.placed d (List.mem_append_right _ member)
  · refine List.forall_mem_cons.mpr ⟨Nat.sub_pos_of_lt more, List.forall_mem_cons.mpr ⟨nonzero, fun d member => ?_⟩⟩
    exact loose.positive d (List.mem_append_right _ member)
  · refine List.pairwise_pair.mpr (Set.disjoint_left.mpr fun x inside inside' => ?_)
    have := inside.1
    have := inside'.2
    omega
  · rw [(split.links 0 (by omega)).2.2.1]
    exact loose.first

end

theorem Paged.take (ground : Ground base N) {m : Nat} (parts : Paged base N r (pre ++ (i, m) :: post) alloc)
    (nonzero : 0 < k) (more : k < m) :
    ∃ r' free' alloc', (((r.memRegionRemove i regfreelist).giveBack i (4096 * k)).bind fun r =>
        r.memRegionInsert i regalloclist) = some r' ∧ Paged base N r' free' alloc' ∧ alloc'.Perm ((i, k) :: alloc) := by
  obtain ⟨removed, -⟩ := parts.loose.removeFree
  obtain ⟨r₂, splits, both⟩ := removed.split ground nonzero more
  obtain ⟨r₃, free', given, rest, -⟩ := both.insertFree ground
  obtain ⟨r₄, alloc', given', none, perm, -⟩ := rest.insertAlloc ground
  refine ⟨r₄, free', alloc', ?_, none.paged, perm⟩
  have long : (r.memRegionRemove i regfreelist).length i > 4096 * k := by
    rw [(removed.placed (i, m) (.head _)).2]
    show 4096 * m > 4096 * k
    omega
  rw [giveBack, if_pos long, splits]
  show (r₂.memRegionInsert (i + k) regfreelist).bind _ = _
  rw [given, Option.bind_some, given']

end Xinu.Regions
