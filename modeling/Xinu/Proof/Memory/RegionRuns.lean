import Xinu.Proof.Memory.Requests
import Xinu.Proof.Memory.Regions

namespace Xinu.Regions
open Lib RegionList

variable {base N i k n tid : Nat} {r r' : Regions} {list : RegionList} {l done todo free alloc : List (Nat × Nat)}

theorem Paged.setThreadId (parts : Paged base N r free alloc) (i tid : Nat) : Paged base N (r.setThreadId i tid) free alloc where
  freeList := ⟨parts.freeList.head, by simpa using parts.freeList.links, parts.freeList.nodup⟩
  allocList := ⟨parts.allocList.head, by simpa using parts.allocList.links, parts.allocList.nodup⟩
  placed := by
    intro c member
    rw [setThreadId_start, setThreadId_length]
    exact parts.placed c member
  separate := parts.separate
  sorted := parts.sorted
  positive := parts.positive
  apart := parts.apart
  all := parts.all
  first := by
    rw [setThreadId_start]
    exact parts.first

theorem Paged.alloc_cases (ground : Ground base N) (parts : Paged base N r free alloc) (tid : Nat)
    (pages : roundpage n = 4096 * k) (nonzero : 0 < k) :
    (∀ c ∈ free, c.2 ≤ k) ∧ r.memRegionAlloc tid n = some (r, none) ∨
      ∃ c ∈ free, k < c.2 ∧ ∃ r' free' alloc', r.memRegionAlloc tid n = some (r', some c.1) ∧
        Paged base N r' free' alloc' ∧ alloc'.Perm ((c.1, k) :: alloc) := by
  obtain ⟨pre, post, rfl, small, large⟩ := first_larger k free
  have few := (parts.short ground).1
  have found := findLoop_eq parts.freeList.links (fun c member => parts.placed c (List.mem_append_left _ member)) small large
    (Nat.lt_of_le_of_lt (by rw [List.length_append]; exact Nat.le_add_right _ _) few)
  rw [← parts.freeList.head] at found
  cases post with
  | nil =>
      refine .inl ⟨fun c member => small c (by simpa using member), ?_⟩
      rw [memRegionAlloc, pages, found]
      rfl
  | cons c post =>
      obtain ⟨r', free', alloc', taken, parts', perm⟩ := Paged.take ground parts nonzero (large c rfl)
      refine .inr ⟨c, by simp, large c rfl, r'.setThreadId c.1 tid, free', alloc', ?_, parts'.setThreadId _ _, perm⟩
      rw [memRegionAlloc, pages, found]
      show (((r.memRegionRemove c.1 regfreelist).giveBack c.1 (4096 * k)).bind fun r =>
        (r.memRegionInsert c.1 regalloclist).map fun r => (r.setThreadId c.1 tid, some c.1)) = _
      cases given : (r.memRegionRemove c.1 regfreelist).giveBack c.1 (4096 * k) with
      | none =>
          rw [given] at taken
          exact nomatch taken
      | some r₁ =>
          rw [given, Option.bind_some] at taken
          rw [Option.bind_some, taken, Option.map_some]

theorem Paged.release (ground : Ground base N) {c : Nat × Nat} (parts : Paged base N r free (done ++ c :: todo)) :
    ∃ r' free', (r.memRegionRemove c.1 regalloclist).memRegionInsert c.1 regfreelist = some r' ∧
      Paged base N r' free' (done ++ todo) ∧ r'.threadId = r.threadId := by
  obtain ⟨removed, thread⟩ := parts.loose.removeAlloc
  obtain ⟨r', free', given, none, thread'⟩ := removed.insertFree ground
  exact ⟨r', free', given, none.paged, thread'.trans thread⟩

def others (r : Regions) (tid : Nat) (l : List (Nat × Nat)) : List (Nat × Nat) := l.filter fun c => r.threadId c.1 ≠ tid

theorem reclaimLoop_spec {fuel : Nat} (ground : Ground base N) (parts : Paged base N r free (done ++ todo))
    (enough : todo.length < fuel) :
    ∃ r' free', reclaimLoop tid fuel (firsts todo).head? r = some r' ∧
      Paged base N r' free' (done ++ others r tid todo) ∧ r'.threadId = r.threadId := by
  induction fuel generalizing r free done todo with
  | zero => exact absurd enough (Nat.not_lt_zero _)
  | succ fuel ih =>
      cases todo with
      | nil => exact ⟨r, free, rfl, parts, rfl⟩
      | cons c todo =>
          have next : r.next c.1 = (firsts todo).head? := by
            have links := parts.allocList.links
            rw [firsts_append, firsts_cons] at links
            have eq := links.next_eq
            rwa [Option.or_none] at eq
          have fewer : todo.length < fuel := Nat.lt_of_succ_lt_succ enough
          rw [firsts_cons, List.head?_cons, reclaimLoop, next, others, List.filter_cons]
          by_cases own : r.threadId c.1 = tid
          · obtain ⟨r₁, free₁, given, parts₁, same⟩ := parts.release ground
            obtain ⟨r', free', looped, parts', same'⟩ := ih parts₁ fewer
            simp only [own, given, if_true, Option.bind_some, decide_not, decide_true, Bool.not_true, Bool.false_eq_true, if_false]
            refine ⟨r', free', looped, ?_, same'.trans same⟩
            rw [others, same] at parts'
            simpa using parts'
          · have split : done ++ c :: todo = (done ++ [c]) ++ todo := by rw [List.append_assoc, List.singleton_append]
            rw [split] at parts
            obtain ⟨r', free', looped, parts', same'⟩ := ih parts fewer
            simp only [own, if_false, decide_not, decide_false, Bool.not_false, if_true]
            refine ⟨r', free', looped, ?_, same'⟩
            rw [List.append_assoc, List.singleton_append] at parts'
            simpa [others] using parts'

theorem Paged.reclaim (ground : Ground base N) (parts : Paged base N r free alloc) (tid : Nat) :
    ∃ r' free', r.memRegionReclaim tid = some r' ∧ Paged base N r' free' (others r tid alloc) ∧
      r'.threadId = r.threadId := by
  rw [memRegionReclaim, parts.allocList.head]
  exact @reclaimLoop_spec base N tid r [] alloc free Heap.walkFuel ground parts (parts.short ground).2

theorem validLoop_spec {fuel : Nat} {l : List Nat} {p : Option Nat} (start : Nat) (links : Doubly r.next r.prev p l none)
    (enough : l.length < fuel) : ∃ found, r.validLoop start fuel l.head? = some found := by
  induction fuel generalizing l p with
  | zero => exact absurd enough (Nat.not_lt_zero _)
  | succ fuel ih =>
      cases l with
      | nil => exact ⟨none, rfl⟩
      | cons x l =>
          obtain ⟨-, next, rest⟩ := links
          rw [Option.or_none] at next
          rw [List.head?_cons, validLoop, next]
          split
          · exact ⟨_, rfl⟩
          · exact ih rest (Nat.lt_of_succ_lt_succ enough)

theorem Paged.transfer (ground : Ground base N) (parts : Paged base N r free alloc) (start tid : Nat) :
    ∃ r', r.memRegionTransfer start tid = some r' ∧ Paged base N r' free alloc := by
  have few := (parts.short ground).2
  obtain ⟨found, valid⟩ := validLoop_spec (truncpage start) parts.allocList.links (by rw [List.length_map]; exact few)
  rw [memRegionTransfer, memRegionValid, parts.allocList.head, valid]
  cases found with
  | none => exact ⟨r, rfl, parts⟩
  | some region => exact ⟨_, rfl, parts.setThreadId region tid⟩

inductive Request
  | alloc (tid n : Nat)
  | reclaim (tid : Nat)
  | transfer (start tid : Nat)

def request : Request → Regions → Option Regions
  | .alloc tid n, r => (r.memRegionAlloc tid n).map Prod.fst
  | .reclaim tid, r => r.memRegionReclaim tid
  | .transfer start tid, r => r.memRegionTransfer start tid

def Asks (_ : Regions) : Request → Prop
  | .alloc _ n => roundpage n ≠ 0
  | _ => True

theorem pages_of (nonzero : roundpage n ≠ 0) : ∃ k, roundpage n = 4096 * k ∧ 0 < k := by
  refine ⟨(4095 + n) % WORD / 4096, Nat.mul_comm _ _, ?_⟩
  by_contra zero
  rw [roundpage, PAGE_SIZE] at nonzero
  omega

theorem Paged.request (ground : Ground base N) (parts : Paged base N r free alloc) {q : Request} (asks : Asks r q) :
    ∃ r' free' alloc', request q r = some r' ∧ Paged base N r' free' alloc' := by
  cases q with
  | alloc tid n =>
      obtain ⟨k, pages, nonzero⟩ := pages_of asks
      rcases parts.alloc_cases ground tid pages nonzero with ⟨-, failed⟩ | ⟨c, -, -, r', free', alloc', given, parts', -⟩
      · exact ⟨r, free, alloc, by rw [Regions.request, failed]; rfl, parts⟩
      · exact ⟨r', free', alloc', by rw [Regions.request, given]; rfl, parts'⟩
  | reclaim tid =>
      obtain ⟨r', free', reclaimed, parts', -⟩ := parts.reclaim ground tid
      exact ⟨r', free', _, reclaimed, parts'⟩
  | transfer start tid =>
      obtain ⟨r', transferred, parts'⟩ := parts.transfer ground start tid
      exact ⟨r', free, alloc, transferred, parts'⟩

theorem sub32_pages (ground : Ground base N) : sub32 (truncpage (base + 4096 * N)) base = 4096 * N := by
  have top := ground.top
  have word := ground.word
  have segment := ground.segment
  obtain ⟨q, multiple⟩ := ground.aligned
  rw [sub32, truncpage, PAGE_SIZE]
  rw [WORD] at *
  omega

theorem roundpage_aligned (aligned : 4096 ∣ base) (word : base < WORD) : roundpage base = base := by
  obtain ⟨q, multiple⟩ := aligned
  rw [roundpage, PAGE_SIZE]
  rw [WORD] at *
  omega

theorem init_regions (ground : Ground base N) {heap : Heap} {memory : Nat → Memregion} {i : RegionInit}
    (init : memRegionInit heap memory base (4096 * N) = some i) :
    i.regions = regionsInit memory base (4096 * N) N := by
  rw [memRegionInit, sub32_pages ground, roundpage_aligned ground.aligned ground.word,
    Nat.mul_div_cancel_left N (by decide : 0 < PAGE_SIZE)] at init
  split at init
  · exact nomatch init
  · cases init
    rfl

theorem init_paged (size : 0 < N) (memory : Nat → Memregion) :
    Paged base N (regionsInit memory base (4096 * N) N) [(0, N)] [] where
  freeList := ⟨rfl, ⟨rfl, rfl, trivial⟩, List.nodup_singleton _⟩
  allocList := ⟨rfl, trivial, List.nodup_nil⟩
  placed := by
    intro c member
    rw [List.append_nil] at member
    rw [List.mem_singleton.mp member]
    exact ⟨rfl, rfl⟩
  separate := ⟨List.pairwise_singleton _ _, fun c member => by rw [List.mem_singleton.mp member]; exact size⟩
  sorted := .nil
  positive := nofun
  apart := by
    rw [covered_nil]
    exact Set.disjoint_empty _
  all := by simp
  first := rfl

theorem reach_paged (ground : Ground base N) (size : 0 < N) {memory : Nat → Memregion}
    (reach : Reach request Asks (regionsInit memory base (4096 * N) N) r) : ∃ free alloc, Paged base N r free alloc := by
  refine reach.invariant (P := fun r => ∃ free alloc, Paged base N r free alloc) ⟨_, _, init_paged size memory⟩ ?_
  rintro r r' q ⟨free, alloc, parts⟩ asks stepped
  obtain ⟨r'', free', alloc', given, parts'⟩ := parts.request ground asks
  cases given.symm.trans stepped
  exact ⟨free', alloc', parts'⟩

def reclaimAll : List Nat → Regions → Option Regions
  | [], r => some r
  | tid :: tids, r => (r.memRegionReclaim tid).bind (reclaimAll tids)

theorem Paged.reclaimAll (ground : Ground base N) (size : 0 < N) (parts : Paged base N r free alloc) {tids : List Nat}
    (owned : ∀ c ∈ alloc, r.threadId c.1 ∈ tids) :
    ∃ r', Regions.reclaimAll tids r = some r' ∧ Paged base N r' [(0, N)] [] := by
  induction tids generalizing r free alloc with
  | nil =>
      obtain rfl : alloc = [] := List.eq_nil_iff_forall_not_mem.mpr fun c member => nomatch owned c member
      have whole := parts.all
      rw [covered_nil, Set.union_empty] at whole
      have start := @init_paged base N size fun _ => memRegionClear
      obtain rfl : free = [(0, N)] := parts.separate.unique start.separate (by rw [whole]; simp)
      exact ⟨r, rfl, parts⟩
  | cons tid tids ih =>
      obtain ⟨r₁, free₁, reclaimed, parts₁, same⟩ := parts.reclaim ground tid
      obtain ⟨r', all, parts'⟩ := ih parts₁ fun c member => by
        obtain ⟨own, other⟩ := List.mem_filter.mp member
        rw [same]
        rcases List.mem_cons.mp (owned c own) with eq | later
        · simp [eq] at other
        · exact later
      exact ⟨r', by rw [Regions.reclaimAll, reclaimed]; exact all, parts'⟩

/-- The lists in every run without a request for no pages. -/
theorem region_lists (ground : Ground base N) (size : 0 < N) {heap : Heap} {memory : Nat → Memregion} {i : RegionInit}
    (init : memRegionInit heap memory base (4096 * N) = some i) (reach : Reach request Asks i.regions r) :
    (∀ q, Asks r q → ∃ r', request q r = some r') ∧
      ∃ free alloc, Paged base N r free alloc ∧
        ∀ tids, (∀ c ∈ alloc, r.threadId c.1 ∈ tids) → ∃ r', reclaimAll tids r = some r' ∧ Paged base N r' [(0, N)] [] := by
  rw [init_regions ground init] at reach
  obtain ⟨free, alloc, parts⟩ := reach_paged ground size reach
  refine ⟨fun q asks => ?_, free, alloc, parts, fun tids owned => parts.reclaimAll ground size owned⟩
  obtain ⟨r', -, -, given, -⟩ := parts.request ground asks
  exact ⟨r', given⟩

theorem whole_pages {start size : Nat} (aligned : 4096 ∣ start) : ((start + size) / 4096 * 4096 - start) / 4096 = size / 4096 := by
  obtain ⟨q, rfl⟩ := aligned
  omega

theorem init_table {heap : Heap} {hi : Nat} {unused : List (Nat × Nat)} (list : Heap.FreeList heap hi unused)
    (memory : Nat → Memregion) {start size : Nat} (word : start < WORD) (word' : size < WORD) (range : start + size ≤ WORD)
    (page : ∃ p, start ≤ 4096 * p ∧ 4096 * (p + 1) ≤ start + size) :
    ∃ i, memRegionInit heap memory start size = some i ∧ i.maxRegions = ((start + size) / 4096 * 4096 - start) / 4096 ∧
      i.regions = regionsInit memory (roundpage start) ((start + size) / 4096 * 4096 - start) i.maxRegions ∧
      (i.table ≠ none ↔ ∃ c ∈ unused, roundmb (20 * i.maxRegions) ≤ c.2) := by
  obtain ⟨p, low, high⟩ := page
  have bytes : sub32 (truncpage (start + size)) start = (start + size) / 4096 * 4096 - start := by
    have low : start % WORD = start := Nat.mod_eq_of_lt word
    rw [sub32, truncpage, PAGE_SIZE, low]
    rcases Nat.lt_or_eq_of_le range with less | whole
    · rw [Nat.mod_eq_of_lt less]
      rw [WORD] at *
      omega
    · rw [whole, Nat.mod_self]
      rw [WORD] at *
      omega
  have count : ((start + size) / 4096 * 4096 - start) / 4096 * MEMREGION_SIZE =
      20 * (((start + size) / 4096 * 4096 - start) / 4096) := Nat.mul_comm _ _
  rw [memRegionInit, bytes]
  simp only [PAGE_SIZE, count]
  have nonzero : 20 * (((start + size) / 4096 * 4096 - start) / 4096) ≠ 0 := by omega
  have small : 20 * (((start + size) / 4096 * 4096 - start) / 4096) ≤ 0xFFFFFFF8 := by
    rw [WORD] at *
    omega
  rcases Heap.memget_took list nonzero small with ⟨short, got⟩ | ⟨a, h, free', got, took⟩
  · rw [got]
    refine ⟨_, rfl, rfl, rfl, ⟨fun given => absurd rfl given, ?_⟩⟩
    rintro ⟨c, member, enough⟩
    have := short c member
    exact absurd enough (Nat.not_le.mpr this)
  · rw [got]
    refine ⟨_, rfl, rfl, rfl, ⟨fun _ => ?_, fun _ => Option.some_ne_none _⟩⟩
    obtain ⟨c, member, start, fin⟩ := took.inside
    exact ⟨c, member, by simp only; omega⟩

theorem ground_rpi : Ground 0x100000 2 := ⟨by decide, by decide, by decide⟩

theorem init_rpi : ∃ i, memRegionInit (heapInit rpi) (fun _ => memRegionClear) 0x100000 (4096 * 2) = some i := by
  obtain ⟨i, init, -⟩ := @init_table (heapInit rpi) _ _ Heap.rpi_list (fun _ => memRegionClear) 0x100000 (4096 * 2)
    (by decide) (by decide) (by decide) ⟨256, by decide, by decide⟩
  exact ⟨i, init⟩

theorem ground_six : Ground 0x100000 6 := ⟨by decide, by decide, by decide⟩

theorem init_six : ∃ i, memRegionInit (heapInit rpi) (fun _ => memRegionClear) 0x100000 (4096 * 6) = some i := by
  obtain ⟨i, init, -⟩ := @init_table (heapInit rpi) _ _ Heap.rpi_list (fun _ => memRegionClear) 0x100000 (4096 * 6)
    (by decide) (by decide) (by decide) ⟨256, by decide, by decide⟩
  exact ⟨i, init⟩

instance (r : Regions) (q : Request) : Decidable (Asks r q) :=
  match q with
  | .alloc _ _ => inferInstanceAs (Decidable (_ ≠ _))
  | .reclaim _ => inferInstanceAs (Decidable True)
  | .transfer _ _ => inferInstanceAs (Decidable True)

def splitAndJoin : List Request := [.alloc 1 4096, .alloc 2 8192, .alloc 3 4000, .reclaim 1, .reclaim 2]

theorem region_lists_rpi : ∃ i r, memRegionInit (heapInit rpi) (fun _ => memRegionClear) 0x100000 (4096 * 6) = some i ∧
    Reach request Asks i.regions r ∧ r.length 0 = 3 * 4096 ∧ r.head regalloclist = some 3 ∧
      (∀ q, Asks r q → ∃ r', request q r = some r') ∧
      ∃ free alloc, Paged 0x100000 6 r free alloc ∧ ∀ tids, (∀ c ∈ alloc, r.threadId c.1 ∈ tids) →
        ∃ r', reclaimAll tids r = some r' ∧ Paged 0x100000 6 r' [(0, 6)] [] := by
  obtain ⟨i, init⟩ := init_six
  have ran : (run request (fun r q => decide (Asks r q)) splitAndJoin i.regions).map (fun r => (r.length 0, r.head regalloclist)) =
      some (3 * 4096, some 3) := by
    rw [init_regions ground_six init]
    decide +kernel
  obtain ⟨r, action, observed⟩ := Option.map_eq_some_iff.mp ran
  rw [Prod.mk.injEq] at observed
  have reach : Reach request Asks i.regions r := Reach.run (fun _ _ => of_decide_eq_true) .init action
  exact ⟨i, r, init, reach, observed.1, observed.2, region_lists ground_six (by decide) init reach⟩

theorem region_lists_zero : ∃ i r, memRegionInit (heapInit rpi) (fun _ => memRegionClear) 0x100000 (4096 * 2) = some i ∧
    i.regions.memRegionAlloc 1 0 = some (r, some 0) ∧ ¬ ∃ free alloc, Paged 0x100000 2 r free alloc := by
  obtain ⟨i, init⟩ := init_rpi
  have heads : (i.regions.memRegionAlloc 1 0).map (fun taken => (taken.1.head regfreelist, taken.1.head regalloclist, taken.2)) =
      some (some 0, some 0, some 0) := by
    rw [init_regions ground_rpi init]
    decide +kernel
  cases taken : i.regions.memRegionAlloc 1 0 with
  | none =>
      rw [taken] at heads
      exact nomatch heads
  | some got =>
      obtain ⟨r, region⟩ := got
      rw [taken] at heads
      obtain ⟨first, last, rfl⟩ : r.head regfreelist = some 0 ∧ r.head regalloclist = some 0 ∧ region = some 0 := by
        simpa using heads
      refine ⟨i, r, init, taken, ?_⟩
      rintro ⟨free, alloc, parts⟩
      rw [parts.freeList.head] at first
      rw [parts.allocList.head] at last
      obtain ⟨c, member, eq⟩ := List.mem_map.mp (List.mem_of_head? first)
      obtain ⟨d, member', eq'⟩ := List.mem_map.mp (List.mem_of_head? last)
      exact parts.distinct member member' (eq.trans eq'.symm)

/-- What `memRegionInit` should set up. -/
structure Initial (start size : Nat) (i : RegionInit) : Prop where
  aligned : 4096 ∣ i.regions.start 0 ∧ 4096 ∣ i.regions.start 0 + i.regions.length 0
  within : start ≤ i.regions.start 0 ∧ i.regions.start 0 + i.regions.length 0 ≤ start + size
  only : Strung i.regions regfreelist [0] ∧ i.regions.head regalloclist = none
  table : i.table ≠ none
  entries : i.regions.length 0 ≤ 4096 * i.maxRegions

theorem initial_iff {heap : Heap} {hi : Nat} {unused : List (Nat × Nat)} (list : Heap.FreeList heap hi unused)
    (memory : Nat → Memregion) {start size : Nat} (word : start < WORD) (word' : size < WORD) (range : start + size ≤ WORD)
    (page : ∃ p, start ≤ 4096 * p ∧ 4096 * (p + 1) ≤ start + size) :
    (∃ i, memRegionInit heap memory start size = some i ∧ Initial start size i) ↔
      4096 ∣ start ∧ ∃ c ∈ unused, roundmb (20 * (size / 4096)) ≤ c.2 := by
  obtain ⟨i, init, count, regions, table⟩ := init_table list memory word word' range page
  obtain ⟨p, low, high⟩ := page
  have start0 : i.regions.start 0 = roundpage start := by rw [regions]; rfl
  have length0 : i.regions.length 0 = (start + size) / 4096 * 4096 - start := by rw [regions]; rfl
  constructor
  · rintro ⟨i', same, initial⟩
    cases init.symm.trans same
    obtain ⟨a, b⟩ := initial.aligned
    rw [start0] at a
    rw [start0, length0] at b
    have aligned : 4096 ∣ start := by omega
    refine ⟨aligned, ?_⟩
    have pages : i.maxRegions = size / 4096 := count.trans (whole_pages aligned)
    rw [← pages]
    exact table.mp initial.table
  · rintro ⟨aligned, room⟩
    have pages : i.maxRegions = size / 4096 := count.trans (whole_pages aligned)
    have round : roundpage start = start := roundpage_aligned aligned word
    refine ⟨i, init, ⟨?_, ?_⟩, ⟨?_, ?_⟩, ⟨?_, ?_⟩, ?_, ?_⟩
    · rw [start0, round]
      exact aligned
    · rw [start0, round, length0]
      omega
    · rw [start0, round]
    · rw [start0, round, length0]
      omega
    · rw [regions]
      exact ⟨rfl, ⟨rfl, rfl, trivial⟩, List.nodup_singleton _⟩
    · rw [regions]
      rfl
    · rw [table, pages]
      exact room
    · rw [length0, count]
      omega

def FreeRegion (r : Regions) (x : Nat) : Prop := ∃ free, Strung r regfreelist free ∧ x ∈ free

/-- `memRegionAlloc` fails only if no free region is long enough, and what it returns has the length asked for. -/
def Serves (r : Regions) (tid n : Nat) : Prop :=
  ∃ r' got, r.memRegionAlloc tid n = some (r', got) ∧ (got = none → ∀ x, FreeRegion r x → r.length x < roundpage n) ∧
    ∀ x, got = some x → r'.length x = roundpage n

/-- If a free region has exactly the length asked for, there is a longer one. -/
def Longer (r : Regions) (n : Nat) : Prop :=
  (∃ x, FreeRegion r x ∧ r.length x = roundpage n) → ∃ x, FreeRegion r x ∧ roundpage n < r.length x

theorem Strung.unique {l l' : List Nat} (s : Strung r list l) (s' : Strung r list l') : l = l' := by
  have same := s.head.symm.trans s'.head
  exact s.links.unique s'.links same

theorem Paged.freeRegion (parts : Paged base N r free alloc) {x : Nat} : FreeRegion r x ↔ x ∈ firsts free := by
  constructor
  · rintro ⟨l, strung, member⟩
    rwa [← parts.freeList.unique strung] at member
  · intro member
    exact ⟨_, parts.freeList, member⟩

theorem Paged.serves_iff (ground : Ground base N) (parts : Paged base N r free alloc) (tid : Nat) (nonzero : roundpage n ≠ 0) :
    Serves r tid n ↔ Longer r n := by
  obtain ⟨k, pages, positive⟩ := pages_of nonzero
  have length : ∀ c ∈ free, r.length c.1 = 4096 * c.2 := fun c member => (parts.placed c (List.mem_append_left _ member)).2
  rcases parts.alloc_cases ground tid pages positive with ⟨short, failed⟩ | ⟨c, member, more, r', free', alloc', given, parts', perm⟩
  · constructor
    · rintro ⟨r', got, same, fails, -⟩ ⟨x, isFree, exactly⟩
      cases failed.symm.trans same
      have less := fails rfl x isFree
      omega
    · intro longer
      refine ⟨r, none, failed, fun _ x isFree => ?_, nofun⟩
      obtain ⟨c, member, rfl⟩ := List.mem_map.mp (parts.freeRegion.mp isFree)
      have own := length c member
      have := short c member
      by_contra reach
      obtain ⟨y, isFree', more⟩ := longer ⟨c.1, isFree, by omega⟩
      obtain ⟨d, member', rfl⟩ := List.mem_map.mp (parts.freeRegion.mp isFree')
      have their := length d member'
      have := short d member'
      omega
  · constructor
    · rintro - -
      have own := length c member
      exact ⟨c.1, parts.freeRegion.mpr (List.mem_map_of_mem member), by omega⟩
    · intro _
      refine ⟨r', some c.1, given, nofun, ?_⟩
      rintro x ⟨⟩
      rw [pages]
      exact (parts'.placed (c.1, k) (List.mem_append_right _ (perm.mem_iff.mpr (.head _)))).2

/-- When regions are set up and allocated as they should be. -/
theorem region_allocation (heap : Heap) (memory : Nat → Memregion) :
    (∀ (hi : Nat) (unused : List (Nat × Nat)) (start size : Nat),
      Heap.FreeList heap hi unused → start < WORD → size < WORD → start + size ≤ WORD →
      (∃ p, start ≤ 4096 * p ∧ 4096 * (p + 1) ≤ start + size) →
      ((∃ i, memRegionInit heap memory start size = some i ∧ Initial start size i) ↔
        4096 ∣ start ∧ ∃ c ∈ unused, roundmb (20 * (size / 4096)) ≤ c.2)) ∧
      ∀ (base N : Nat) (i : RegionInit) (r : Regions), Ground base N → 0 < N →
        memRegionInit heap memory base (4096 * N) = some i → Reach request Asks i.regions r →
        ∀ tid n, roundpage n ≠ 0 → (Serves r tid n ↔ Longer r n) := by
  refine ⟨fun hi unused start size list word word' range page => initial_iff list memory word word' range page, ?_⟩
  intro base N i r ground size init reach tid n nonzero
  rw [init_regions ground init] at reach
  obtain ⟨free, alloc, parts⟩ := reach_paged ground size reach
  exact parts.serves_iff ground tid nonzero

theorem region_allocation_rpi :
    ((∃ i, memRegionInit (heapInit rpi) (fun _ => memRegionClear) 0x100000 (4096 * 6) = some i ∧ Initial 0x100000 (4096 * 6) i) ↔
        4096 ∣ 0x100000 ∧ ∃ c ∈ [(0x100000, 0xBEFFFF8)], roundmb (20 * (4096 * 6 / 4096)) ≤ c.2) ∧
      ∃ i r, memRegionInit (heapInit rpi) (fun _ => memRegionClear) 0x100000 (4096 * 6) = some i ∧
        Reach request Asks i.regions r ∧ r.length 0 = 3 * 4096 ∧ (Serves r 1 8192 ↔ Longer r 8192) := by
  obtain ⟨i, init⟩ := init_six
  have ran : (run request (fun r q => decide (Asks r q)) splitAndJoin i.regions).map (·.length 0) = some (3 * 4096) := by
    rw [init_regions ground_six init]
    decide +kernel
  obtain ⟨r, action, length⟩ := Option.map_eq_some_iff.mp ran
  have reach : Reach request Asks i.regions r := Reach.run (fun _ _ => of_decide_eq_true) .init action
  constructor
  · exact (region_allocation (heapInit rpi) fun _ => memRegionClear).1 _ _ 0x100000 (4096 * 6) Heap.rpi_list (by decide)
      (by decide) (by decide) ⟨256, by decide, by decide⟩
  · exact ⟨i, r, init, reach, length, (region_allocation (heapInit rpi) fun _ => memRegionClear).2 0x100000 6 i r ground_six
      (by decide) init reach 1 8192 (by decide)⟩

theorem region_allocation_exact :
    (¬ ∃ i, memRegionInit (heapInit rpi) (fun _ => memRegionClear) 0x100008 (4096 * 2) = some i ∧ Initial 0x100008 (4096 * 2) i) ∧
      ∃ i, memRegionInit (heapInit rpi) (fun _ => memRegionClear) 0x100000 (4096 * 2) = some i ∧
        FreeRegion i.regions 0 ∧ i.regions.length 0 = 8192 ∧ ¬ Serves i.regions 1 8192 := by
  constructor
  · intro initial
    have aligned := (initial_iff Heap.rpi_list (fun _ => memRegionClear) (by decide) (by decide) (by decide)
      ⟨257, by decide, by decide⟩).mp initial
    exact absurd aligned.1 (by decide)
  · obtain ⟨i, init⟩ := init_rpi
    have parts : Paged 0x100000 2 i.regions [(0, 2)] [] := by
      rw [init_regions ground_rpi init]
      exact init_paged (by decide) _
    have free : FreeRegion i.regions 0 := parts.freeRegion.mpr (by decide)
    have length : i.regions.length 0 = 8192 := (parts.placed (0, 2) (by simp)).2
    refine ⟨i, init, free, length, fun serves => ?_⟩
    obtain ⟨x, member, more⟩ := (parts.serves_iff ground_rpi 1 (by decide)).mp serves ⟨0, free, length⟩
    have zero : x = 0 := by simpa using parts.freeRegion.mp member
    rw [zero, length] at more
    exact absurd more (by decide)

end Xinu.Regions
