import Xinu.System.Flash
import Mathlib.Algebra.Order.BigOperators.Group.List

namespace Xinu.Flash

/-- A region table whose erase blocks hold whole logical blocks, in an address space of 32 bits. -/
structure Table (flash : Flash) : Prop where
  positive : 0 < flash.log_size
  whole : ∀ r ∈ flash.regions, flash.log_size ∣ r.block_size
  filled : ∀ r ∈ flash.regions, r.region_size = r.nblocks * r.block_size
  addresses : (flash.regions.map Region.region_size).sum < 2 ^ 32

section
variable {L b b' bs n pos e : Nat} {regions : List Region} {r : Region}

theorem passed (positive : 0 < L) (whole : L ∣ pos) : b < pos / L ↔ b * L < pos := by
  obtain ⟨k, rfl⟩ := whole
  rw [Nat.mul_div_cancel_left k positive, Nat.mul_comm L k]
  exact (Nat.mul_lt_mul_right positive).symm

theorem findBlock_after (found : findBlock L b bs n pos = some e) : pos + bs ≤ e := by
  induction n generalizing pos with
  | zero => exact nomatch found
  | succ n ih =>
      rw [findBlock] at found
      split at found
      · cases Option.some.inj found
        exact Nat.le_refl _
      · exact Nat.le_trans (Nat.le_add_right _ _) (ih found)

theorem findBlock_spec (positive : 0 < L) (whole : L ∣ bs) (start : L ∣ pos) (before : pos ≤ b * L)
    (found : findBlock L b bs n pos = some e) : L ∣ e ∧ e - bs ≤ b * L ∧ b * L < e ∧ e ≤ pos + n * bs := by
  induction n generalizing pos with
  | zero => exact nomatch found
  | succ n ih =>
      have next : L ∣ pos + bs := Nat.dvd_add start whole
      rw [findBlock] at found
      by_cases here : b < (pos + bs) / L
      · rw [if_pos here] at found
        cases Option.some.inj found
        refine ⟨next, ?_, (passed positive next).mp here, ?_⟩
        · rw [Nat.add_sub_cancel]
          exact before
        · rw [Nat.succ_mul, Nat.add_comm (n * bs) bs, ← Nat.add_assoc]
          exact Nat.le_add_right _ _
      · rw [if_neg here] at found
        have later : pos + bs ≤ b * L := Nat.le_of_not_lt fun less => here ((passed positive next).mpr less)
        obtain ⟨multiple, low, high, bound⟩ := ih next later found
        refine ⟨multiple, low, high, Nat.le_trans bound ?_⟩
        rw [Nat.succ_mul]
        omega

theorem findBlock_same (positive : 0 < L) (whole : L ∣ bs) (start : L ∣ pos) (found : findBlock L b bs n pos = some e)
    (low : e - bs ≤ b' * L) (high : b' * L < e) : findBlock L b' bs n pos = some e := by
  induction n generalizing pos with
  | zero => exact nomatch found
  | succ n ih =>
      have next : L ∣ pos + bs := Nat.dvd_add start whole
      rw [findBlock] at found ⊢
      by_cases here : b < (pos + bs) / L
      · rw [if_pos here] at found
        cases Option.some.inj found
        exact if_pos ((passed positive next).mpr high)
      · rw [if_neg here] at found
        have after := findBlock_after found
        have skip : ¬ b' < (pos + bs) / L := by
          rw [passed positive next]
          omega
        rw [if_neg skip]
        exact ih next found

theorem findRegion_after (found : findRegion L b regions pos = some (r, e)) : r ∈ regions ∧ pos + r.region_size ≤ e := by
  induction regions generalizing pos with
  | nil => exact nomatch found
  | cons head regions ih =>
      rw [findRegion] at found
      split at found
      · cases Option.some.inj found
        exact ⟨List.mem_cons_self, Nat.le_refl _⟩
      · obtain ⟨member, after⟩ := ih found
        exact ⟨List.mem_cons_of_mem _ member, Nat.le_trans (by omega) after⟩

theorem findRegion_spec (positive : 0 < L) (whole : ∀ r ∈ regions, L ∣ r.region_size) (start : L ∣ pos) (before : pos ≤ b * L)
    (found : findRegion L b regions pos = some (r, e)) :
    L ∣ e ∧ e - r.region_size ≤ b * L ∧ b * L < e ∧ e ≤ pos + (regions.map Region.region_size).sum := by
  induction regions generalizing pos with
  | nil => exact nomatch found
  | cons head regions ih =>
      have next : L ∣ pos + head.region_size := Nat.dvd_add start (whole head List.mem_cons_self)
      rw [findRegion] at found
      rw [List.map_cons, List.sum_cons]
      by_cases here : b < (pos + head.region_size) / L
      · rw [if_pos here] at found
        cases Option.some.inj found
        refine ⟨next, ?_, (passed positive next).mp here, by omega⟩
        rw [Nat.add_sub_cancel]
        exact before
      · rw [if_neg here] at found
        have later : pos + head.region_size ≤ b * L :=
          Nat.le_of_not_lt fun less => here ((passed positive next).mpr less)
        obtain ⟨multiple, low, high, bound⟩ := ih (fun r member => whole r (List.mem_cons_of_mem _ member)) next later found
        exact ⟨multiple, low, high, by omega⟩

theorem findRegion_same (positive : 0 < L) (whole : ∀ r ∈ regions, L ∣ r.region_size) (start : L ∣ pos)
    (found : findRegion L b regions pos = some (r, e)) (low : e - r.region_size ≤ b' * L) (high : b' * L < e) :
    findRegion L b' regions pos = some (r, e) := by
  induction regions generalizing pos with
  | nil => exact nomatch found
  | cons head regions ih =>
      have next : L ∣ pos + head.region_size := Nat.dvd_add start (whole head List.mem_cons_self)
      rw [findRegion] at found ⊢
      by_cases here : b < (pos + head.region_size) / L
      · rw [if_pos here] at found
        cases Option.some.inj found
        exact if_pos ((passed positive next).mpr high)
      · rw [if_neg here] at found
        have after := (findRegion_after found).2
        have skip : ¬ b' < (pos + head.region_size) / L := by
          rw [passed positive next]
          omega
        rw [if_neg skip]
        exact ih (fun r member => whole r (List.mem_cons_of_mem _ member)) next found

theorem findBlock_total (positive : 0 < L) (whole : L ∣ bs) (start : L ∣ pos) (inside : b * L < pos + n * bs)
    (before : pos ≤ b * L) : ∃ j, j < n ∧ findBlock L b bs n pos = some (pos + j * bs + bs) := by
  induction n generalizing pos with
  | zero => omega
  | succ n ih =>
      have next : L ∣ pos + bs := Nat.dvd_add start whole
      rw [findBlock]
      by_cases here : b < (pos + bs) / L
      · exact ⟨0, Nat.succ_pos n, by rw [if_pos here, Nat.zero_mul, Nat.add_zero]⟩
      · rw [if_neg here]
        have later : pos + bs ≤ b * L := Nat.le_of_not_lt fun less => here ((passed positive next).mpr less)
        rw [Nat.succ_mul] at inside
        obtain ⟨j, bound, found⟩ := ih next (by omega) later
        refine ⟨j + 1, Nat.succ_lt_succ bound, found.trans ?_⟩
        rw [Nat.succ_mul, Nat.add_comm (j * bs) bs, ← Nat.add_assoc]

def placed : List Region → Nat → List (Nat × Region)
  | [], _ => []
  | r :: regions, position => (position, r) :: placed regions (position + r.region_size)

theorem findRegion_total (positive : 0 < L) (whole : ∀ r ∈ regions, L ∣ r.region_size) (start : L ∣ pos)
    (inside : b * L < pos + (regions.map Region.region_size).sum) (before : pos ≤ b * L) :
    ∃ first r, (first, r) ∈ placed regions pos ∧ first ≤ b * L ∧ b * L < first + r.region_size ∧
      findRegion L b regions pos = some (r, first + r.region_size) := by
  induction regions generalizing pos with
  | nil =>
      rw [List.map_nil, List.sum_nil] at inside
      omega
  | cons head regions ih =>
      have next : L ∣ pos + head.region_size := Nat.dvd_add start (whole head List.mem_cons_self)
      rw [findRegion]
      by_cases here : b < (pos + head.region_size) / L
      · exact ⟨pos, head, List.mem_cons_self, before, (passed positive next).mp here, if_pos here⟩
      · have later : pos + head.region_size ≤ b * L :=
          Nat.le_of_not_lt fun less => here ((passed positive next).mpr less)
        rw [List.map_cons, List.sum_cons, ← Nat.add_assoc] at inside
        obtain ⟨first, r, member, low, high, found⟩ :=
          ih (fun r member => whole r (List.mem_cons_of_mem _ member)) next inside later
        exact ⟨first, r, List.mem_cons_of_mem _ member, low, high, (if_neg here).trans found⟩

theorem findRegion_beyond (positive : 0 < L) (whole : ∀ r ∈ regions, L ∣ r.region_size) (start : L ∣ pos)
    (beyond : pos + (regions.map Region.region_size).sum ≤ b * L) : findRegion L b regions pos = none := by
  cases found : findRegion L b regions pos with
  | none => rfl
  | some x =>
      obtain ⟨r, e⟩ := x
      obtain ⟨-, -, high, bound⟩ := findRegion_spec positive whole start (by omega) found
      omega

end

section
variable {flash : Flash} {b b' : Nat}

structure Maps (flash : Flash) (b : Nat) (erase : Block) : Prop where
  map : logicalMap flash b = erase
  free : erase.state = .free
  unread : erase.buffer = none
  first : flash.log_size ∣ erase.start_pos
  whole : flash.log_size ∣ erase.size
  low : erase.start_pos ≤ b * flash.log_size
  high : b * flash.log_size < erase.start_pos + erase.size
  addresses : erase.start_pos + erase.size < 2 ^ 32

theorem Table.regions_whole (table : Table flash) : ∀ r ∈ flash.regions, flash.log_size ∣ r.region_size := by
  intro r member
  rw [table.filled r member]
  exact Nat.dvd_mul_left_of_dvd (table.whole r member) r.nblocks

theorem logicalMap_found (flash : Flash) (b : Nat) :
    logicalMap flash b = bad_block ∨ ∃ r e e', findRegion flash.log_size b flash.regions 0 = some (r, e) ∧
      findBlock flash.log_size b r.block_size r.nblocks (e - r.region_size) = some e' ∧
      logicalMap flash b = ⟨e' - r.block_size, r.block_size, .free, none⟩ := by
  unfold logicalMap
  cases region : findRegion flash.log_size b flash.regions 0 with
  | none => exact .inl rfl
  | some found =>
      obtain ⟨r, e⟩ := found
      cases block : findBlock flash.log_size b r.block_size r.nblocks (e - r.region_size) with
      | none => exact .inl (by simp only [block])
      | some e' => exact .inr ⟨r, e, e', rfl, block, by simp only [block]⟩

theorem found_spec (table : Table flash) {r : Region} {e e' : Nat}
    (region : findRegion flash.log_size b flash.regions 0 = some (r, e))
    (block : findBlock flash.log_size b r.block_size r.nblocks (e - r.region_size) = some e') :
    flash.log_size ∣ r.block_size ∧ flash.log_size ∣ e - r.region_size ∧ flash.log_size ∣ e' ∧ r.block_size ≤ e' ∧
      e - r.region_size ≤ e' - r.block_size ∧ e' - r.block_size ≤ b * flash.log_size ∧ b * flash.log_size < e' ∧ e' ≤ e ∧
      e < 2 ^ 32 := by
  obtain ⟨multiple, low, high, bound⟩ := findRegion_spec table.positive table.regions_whole (Nat.dvd_zero _) (Nat.zero_le _) region
  obtain ⟨member, after⟩ := findRegion_after region
  have start : flash.log_size ∣ e - r.region_size := Nat.dvd_sub multiple (table.regions_whole r member)
  have whole := table.whole r member
  obtain ⟨multiple', low', high', bound'⟩ := findBlock_spec table.positive whole start low block
  have after' := findBlock_after block
  have addresses := table.addresses
  rw [← table.filled r member] at bound'
  exact ⟨whole, start, multiple', by omega, by omega, low', high', by omega, by omega⟩

theorem logicalMap_maps (table : Table flash) (mapped : (logicalMap flash b).state ≠ .dirty) :
    Maps flash b (logicalMap flash b) := by
  rcases logicalMap_found flash b with bad | ⟨r, e, e', region, block, eq⟩
  · rw [bad] at mapped
    exact absurd rfl mapped
  · obtain ⟨whole, -, multiple, fits, -, low, high, inside, addresses⟩ := found_spec table region block
    have ends : e' - r.block_size + r.block_size = e' := Nat.sub_add_cancel fits
    rw [eq]
    refine ⟨eq, rfl, rfl, Nat.dvd_sub multiple whole, whole, low, ?_, ?_⟩
    · rw [ends]
      exact high
    · rw [ends]
      omega

theorem Maps.same {erase : Block} (table : Table flash) (maps : Maps flash b erase)
    (low : erase.start_pos ≤ b' * flash.log_size) (high : b' * flash.log_size < erase.start_pos + erase.size) :
    logicalMap flash b' = erase := by
  rcases logicalMap_found flash b with bad | ⟨r, e, e', region, block, eq⟩
  · have free := maps.free
    rw [← maps.map, bad] at free
    exact nomatch free
  · obtain ⟨whole, start, -, fits, before, -, -, inside, -⟩ := found_spec table region block
    have eq' := maps.map.symm.trans eq
    rw [eq'] at low high
    simp only at low high
    have region' := findRegion_same table.positive table.regions_whole (Nat.dvd_zero _) region (Nat.le_trans before low) (by omega)
    have block' := findBlock_same table.positive whole start block low (by omega)
    unfold logicalMap
    rw [region']
    simp only [block']
    exact eq'.symm

theorem Maps.inside {erase : Block} (maps : Maps flash b erase) :
    b * flash.log_size + flash.log_size ≤ erase.start_pos + erase.size := by
  obtain ⟨k, ends⟩ := Nat.dvd_add maps.first maps.whole
  have high := maps.high
  rw [ends, Nat.mul_comm] at high ⊢
  have : b < k := Nat.lt_of_mul_lt_mul_left high
  calc flash.log_size * b + flash.log_size = flash.log_size * (b + 1) := (Nat.mul_succ _ _).symm
    _ ≤ flash.log_size * k := Nat.mul_le_mul_left _ this

def IsEraseBlock (flash : Flash) (start_pos size : Nat) : Prop :=
  ∃ first r j, (first, r) ∈ placed flash.regions 0 ∧ j < r.nblocks ∧ start_pos = first + j * r.block_size ∧ size = r.block_size

theorem logicalMap_total (table : Table flash)
    (inside : b * flash.log_size < (flash.regions.map Region.region_size).sum) :
    IsEraseBlock flash (logicalMap flash b).start_pos (logicalMap flash b).size ∧
      Maps flash b (logicalMap flash b) := by
  obtain ⟨first, r, member, low, high, region⟩ := findRegion_total table.positive table.regions_whole
    (Nat.dvd_zero _) (by rwa [Nat.zero_add]) (Nat.zero_le _)
  have listed := (findRegion_after region).1
  have begins : flash.log_size ∣ first := by
    obtain ⟨multiple, -⟩ := findRegion_spec table.positive table.regions_whole (Nat.dvd_zero _) (Nat.zero_le _) region
    have := Nat.dvd_sub multiple (table.regions_whole r listed)
    rwa [Nat.add_sub_cancel] at this
  rw [table.filled r listed] at high
  obtain ⟨j, bound, block⟩ := findBlock_total table.positive (table.whole r listed) begins high low
  have eq : logicalMap flash b = ⟨first + j * r.block_size, r.block_size, .free, none⟩ := by
    unfold logicalMap
    rw [region]
    simp only [Nat.add_sub_cancel, block]
  refine ⟨⟨first, r, j, member, bound, ?_, ?_⟩, logicalMap_maps table ?_⟩
  · rw [eq]
  · rw [eq]
  · rw [eq]
    exact nofun

theorem logicalMap_beyond (table : Table flash)
    (beyond : (flash.regions.map Region.region_size).sum ≤ b * flash.log_size) : logicalMap flash b = bad_block := by
  have none := findRegion_beyond table.positive table.regions_whole (Nat.dvd_zero _) (by rwa [Nat.zero_add])
  unfold logicalMap
  rw [none]

/-- Where a logical block is, if it is on the device at all, and what else is there. -/
theorem logicalMap_blocks (table : Table flash) (b : Nat) :
    (logicalMap flash b = bad_block ↔ (flash.regions.map Region.region_size).sum ≤ b * flash.log_size) ∧
      (logicalMap flash b ≠ bad_block →
        IsEraseBlock flash (logicalMap flash b).start_pos (logicalMap flash b).size ∧
        (logicalMap flash b).start_pos ≤ b * flash.log_size ∧
        (b + 1) * flash.log_size ≤ (logicalMap flash b).start_pos + (logicalMap flash b).size ∧
        ∀ b', (logicalMap flash b).start_pos ≤ b' * flash.log_size →
          b' * flash.log_size < (logicalMap flash b).start_pos + (logicalMap flash b).size →
          (logicalMap flash b').start_pos = (logicalMap flash b).start_pos) := by
  by_cases inside : b * flash.log_size < (flash.regions.map Region.region_size).sum
  · obtain ⟨block, maps⟩ := logicalMap_total table inside
    refine ⟨⟨fun bad => ?_, fun beyond => absurd inside (Nat.not_lt.mpr beyond)⟩,
      fun _ => ⟨block, maps.low, ?_, fun b' low high => ?_⟩⟩
    · have free := maps.free
      rw [bad] at free
      exact nomatch free
    · rw [Nat.succ_mul]
      exact maps.inside
    · rw [maps.same table low high]
  · have beyond := Nat.le_of_not_lt inside
    have bad := logicalMap_beyond table beyond
    exact ⟨⟨fun _ => beyond, fun _ => bad⟩, fun other => absurd bad other⟩

def twoRegions : Flash where
  regions := [⟨3, 1024, 3072⟩, ⟨2, 512, 1024⟩]
  log_size := 512
  erase_blocks := fun _ => ⟨0, 0, .free, none⟩
  curr_block := 0
  memory := fun _ => 0
  buffers := fun _ _ => 0
  allocated := 0

theorem logicalMap_blocks_seventh : logicalMap twoRegions 6 ≠ bad_block ∧
    (7 * 512 : Nat) ≤ (logicalMap twoRegions 6).start_pos + (logicalMap twoRegions 6).size := by
  have table : Table twoRegions := ⟨by decide, by decide, by decide, by decide⟩
  have inside : logicalMap twoRegions 6 ≠ bad_block := by decide
  exact ⟨inside, ((logicalMap_blocks table 6).2 inside).2.2.1⟩

end

end Xinu.Flash
