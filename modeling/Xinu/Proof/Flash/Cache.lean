import Xinu.Lib.Runs
import Xinu.Proof.Flash.Map

namespace Xinu.Flash
open Lib

def byteOf (blocks : Nat → List Byte) (a : Nat) : Byte := (blocks (a / FLASH_BLK_SIZE)).getD (a % FLASH_BLK_SIZE) 0

def Live (flash : Flash) (p : Nat) : Prop := p < MAX_LIVE_BLOCKS ∧ (flash.erase_blocks p).state ≠ .free

def Block.Covers (erase : Block) (a : Nat) : Prop := erase.start_pos ≤ a ∧ a < erase.start_pos + erase.size

def Block.place (erase : Block) : Block := { erase with state := .free, buffer := none }

structure Coherent (flash : Flash) (blocks : Nat → List Byte) : Prop where
  table : Table flash
  log : flash.log_size = FLASH_BLK_SIZE
  lengths : ∀ b, (blocks b).length = FLASH_BLK_SIZE
  curr : flash.curr_block = flash.allocated % MAX_LIVE_BLOCKS
  live : ∀ p < MAX_LIVE_BLOCKS, (flash.erase_blocks p).state ≠ .free ↔ p < flash.allocated
  mapped : ∀ p, Live flash p → ∃ b, Maps flash b (flash.erase_blocks p).place
  apart : ∀ p q, Live flash p → Live flash q → (flash.erase_blocks p).start_pos = (flash.erase_blocks q).start_pos → p = q
  buffers : ∀ p, Live flash p → ∃ id < flash.allocated, (flash.erase_blocks p).buffer = some id ∧
    ∀ i < (flash.erase_blocks p).size, flash.buffers id i = byteOf blocks ((flash.erase_blocks p).start_pos + i)
  own : ∀ p q, Live flash p → Live flash q → (flash.erase_blocks p).buffer = (flash.erase_blocks q).buffer → p = q
  memory : ∀ a, (∀ p, Live flash p → (flash.erase_blocks p).state = .dirty → ¬ (flash.erase_blocks p).Covers a) →
    flash.memory a = byteOf blocks a

section
variable {flash flash' : Flash} {blocks : Nat → List Byte} {b b' p : Nat} {erase erase' : Block}

theorem logicalMap_congr (regions : flash'.regions = flash.regions) (log : flash'.log_size = flash.log_size) (b : Nat) :
    logicalMap flash' b = logicalMap flash b := by
  unfold logicalMap
  rw [regions, log]

theorem Maps.congr (regions : flash'.regions = flash.regions) (log : flash'.log_size = flash.log_size)
    (maps : Maps flash b erase) : Maps flash' b erase where
  map := (logicalMap_congr regions log b).trans maps.map
  free := maps.free
  unread := maps.unread
  first := log ▸ maps.first
  whole := log ▸ maps.whole
  low := log ▸ maps.low
  high := log ▸ maps.high
  addresses := maps.addresses

theorem Table.congr (regions : flash'.regions = flash.regions) (log : flash'.log_size = flash.log_size)
    (table : Table flash) : Table flash' where
  positive := log ▸ table.positive
  whole := by rw [regions, log]; exact table.whole
  filled := regions ▸ table.filled
  addresses := regions ▸ table.addresses

theorem Maps.unique (table : Table flash) (maps : Maps flash b erase) (maps' : Maps flash b' erase') {a : Nat}
    (covers : erase.Covers a) (covers' : erase'.Covers a) : erase = erase' := by
  have aligned : ∀ {start : Nat}, flash.log_size ∣ start → start ≤ a → start ≤ a / flash.log_size * flash.log_size := by
    rintro start ⟨k, rfl⟩ le
    rw [Nat.mul_comm] at le ⊢
    exact Nat.mul_le_mul_right _ ((Nat.le_div_iff_mul_le table.positive).mpr le)
  have below := Nat.div_mul_le_self a flash.log_size
  have same := maps.same table (aligned maps.first covers.1) (Nat.lt_of_le_of_lt below covers.2)
  have same' := maps'.same table (aligned maps'.first covers'.1) (Nat.lt_of_le_of_lt below covers'.2)
  exact same.symm.trans same'

theorem Maps.covers (maps : Maps flash b erase) : erase.Covers (b * flash.log_size) := ⟨maps.low, maps.high⟩

theorem Coherent.disjoint (coherent : Coherent flash blocks) {p q a : Nat} (live : Live flash p) (live' : Live flash q)
    (covers : (flash.erase_blocks p).Covers a) (covers' : (flash.erase_blocks q).Covers a) : p = q := by
  obtain ⟨b, maps⟩ := coherent.mapped p live
  obtain ⟨b', maps'⟩ := coherent.mapped q live'
  have same := maps.unique coherent.table maps' covers covers'
  have start : (flash.erase_blocks p).place.start_pos = (flash.erase_blocks q).place.start_pos := by rw [same]
  exact coherent.apart p q live live' start

structure Keeps (flash flash' : Flash) : Prop where
  regions : flash'.regions = flash.regions
  log : flash'.log_size = flash.log_size
  curr : flash'.curr_block = flash.curr_block
  allocated : flash'.allocated = flash.allocated
  start : ∀ p, (flash'.erase_blocks p).start_pos = (flash.erase_blocks p).start_pos
  live : ∀ p, (flash'.erase_blocks p).state ≠ .free ↔ (flash.erase_blocks p).state ≠ .free

theorem Keeps.refl (flash : Flash) : Keeps flash flash := ⟨rfl, rfl, rfl, rfl, fun _ => rfl, fun _ => Iff.rfl⟩

def mark (flash : Flash) (p : Nat) (state : State) (memory : Nat → Byte) : Flash :=
  { flash with
    memory := memory, erase_blocks := Function.update flash.erase_blocks p { flash.erase_blocks p with state := state } }

theorem mark_slot (flash : Flash) (p : Nat) (state : State) (memory : Nat → Byte) (q : Nat) :
    (mark flash p state memory).erase_blocks q =
      { flash.erase_blocks q with state := if q = p then state else (flash.erase_blocks q).state } := by
  by_cases same : q = p
  · simp only [mark, same, Function.update_self, if_true]
  · simp only [mark, Function.update_of_ne same, same, if_false]

theorem mark_keeps (flash : Flash) (p : Nat) {state : State} (memory : Nat → Byte) (live : Live flash p)
    (used : state ≠ .free) : Keeps flash (mark flash p state memory) where
  regions := rfl
  log := rfl
  curr := rfl
  allocated := rfl
  start := fun q => by rw [mark_slot]
  live := by
    intro q
    rw [mark_slot]
    by_cases same : q = p
    · simp only [same, if_true]
      exact iff_of_true used live.2
    · simp only [same, if_false]

theorem Coherent.mark (coherent : Coherent flash blocks) (live : Live flash p) {state : State} (used : state ≠ .free)
    {memory : Nat → Byte}
    (agree : ∀ a, (state = .dirty → ¬ (flash.erase_blocks p).Covers a) →
      (∀ q, q ≠ p → Live flash q → (flash.erase_blocks q).state = .dirty → ¬ (flash.erase_blocks q).Covers a) →
      memory a = byteOf blocks a) : Coherent (mark flash p state memory) blocks := by
  have keeps := mark_keeps flash p memory live used
  have slot := mark_slot flash p state memory
  have buffers : (Flash.mark flash p state memory).buffers = flash.buffers := rfl
  have memory_eq : (Flash.mark flash p state memory).memory = memory := rfl
  generalize Flash.mark flash p state memory = flash' at *
  have lives : ∀ {q}, Live flash' q → Live flash q := fun alive => ⟨alive.1, (keeps.live _).mp alive.2⟩
  constructor
  · exact coherent.table.congr keeps.regions keeps.log
  · exact keeps.log.trans coherent.log
  · exact coherent.lengths
  · rw [keeps.curr, keeps.allocated, coherent.curr]
  · intro q bound
    rw [keeps.live, keeps.allocated, coherent.live q bound]
  · intro q alive
    obtain ⟨b, maps⟩ := coherent.mapped q (lives alive)
    have place : (flash'.erase_blocks q).place = (flash.erase_blocks q).place := by
      rw [slot]
      rfl
    exact ⟨b, place ▸ maps.congr keeps.regions keeps.log⟩
  · intro q q' alive alive' same
    rw [keeps.start, keeps.start] at same
    exact coherent.apart q q' (lives alive) (lives alive') same
  · intro q alive
    rw [slot, keeps.allocated, buffers]
    exact coherent.buffers q (lives alive)
  · intro q q' alive alive' same
    rw [slot, slot] at same
    exact coherent.own q q' (lives alive) (lives alive') same
  · intro a uncovered
    rw [memory_eq]
    refine agree a (fun dirty covers => ?_) fun q other alive dirty covers => ?_
    · refine uncovered p ⟨live.1, (keeps.live p).mpr live.2⟩ ?_ ?_
      · rw [slot, if_pos rfl]
        exact dirty
      · rw [slot]
        exact covers
    · refine uncovered q ⟨alive.1, (keeps.live q).mpr alive.2⟩ ?_ ?_
      · rw [slot, if_neg other]
        exact dirty
      · rw [slot]
        exact covers

theorem physicalWrite_clean (clean : (flash.erase_blocks p).state ≠ .dirty) : physicalWrite p flash = flash := by
  simp only [physicalWrite]
  split
  · rfl
  · rename_i live
    split
    · rfl
    · split
      · rfl
      · rename_i unclean
        cases state : (flash.erase_blocks p).state with
        | free => exact absurd state live
        | clean => exact absurd state unclean
        | dirty => exact absurd state clean

theorem physicalWrite_dirty (dirty : (flash.erase_blocks p).state = .dirty)
    (outside : (CFE_MAX_BLOCK + 1) * FLASH_BLK_SIZE - 1 < (flash.erase_blocks p).start_pos) :
    physicalWrite p flash = mark flash p .clean fun a : Nat =>
      if (flash.erase_blocks p).start_pos ≤ a ∧ a < (flash.erase_blocks p).start_pos + (flash.erase_blocks p).size then
        flash.buffers ((flash.erase_blocks p).buffer.getD 0) (a - (flash.erase_blocks p).start_pos)
      else flash.memory a := by
  have live : (flash.erase_blocks p).state ≠ .free := by rw [dirty]; nofun
  have unclean : (flash.erase_blocks p).state ≠ .clean := by rw [dirty]; nofun
  simp only [physicalWrite]
  rw [if_neg live, if_neg (not_not.mpr outside), if_neg unclean]
  rfl

theorem Coherent.curr_lt (coherent : Coherent flash blocks) : flash.curr_block < MAX_LIVE_BLOCKS := by
  rw [coherent.curr]
  exact Nat.mod_lt _ (by decide)

theorem evict_spec (coherent : Coherent flash blocks)
    (safe : (flash.erase_blocks flash.curr_block).state = .dirty →
      (CFE_MAX_BLOCK + 1) * FLASH_BLK_SIZE - 1 < (flash.erase_blocks flash.curr_block).start_pos) :
    Coherent (physicalWrite flash.curr_block flash) blocks ∧ Keeps flash (physicalWrite flash.curr_block flash) ∧
      ((physicalWrite flash.curr_block flash).erase_blocks flash.curr_block).state ≠ .dirty := by
  by_cases dirty : (flash.erase_blocks flash.curr_block).state = .dirty
  · have live : Live flash flash.curr_block := ⟨coherent.curr_lt, by rw [dirty]; nofun⟩
    rw [physicalWrite_dirty dirty (safe dirty)]
    have used : State.clean ≠ .free := by decide
    refine ⟨coherent.mark live used fun a _ others => ?_, mark_keeps flash _ _ live used, ?_⟩
    · by_cases inside : (flash.erase_blocks flash.curr_block).Covers a
      · obtain ⟨id, -, buffer, bytes⟩ := coherent.buffers _ live
        have bound : a - (flash.erase_blocks flash.curr_block).start_pos < (flash.erase_blocks flash.curr_block).size := by
          have ⟨low, high⟩ := inside
          omega
        refine (if_pos inside).trans ?_
        rw [buffer, Option.getD_some, bytes _ bound, Nat.add_sub_cancel' inside.1]
      · refine (if_neg inside).trans (coherent.memory a fun q alive dirty' covers => ?_)
        by_cases here : q = flash.curr_block
        · exact inside (here ▸ covers)
        · exact others q here alive dirty' covers
    · rw [mark_slot, if_pos rfl]
      exact nofun
  · rw [physicalWrite_clean dirty]
    exact ⟨coherent, .refl flash, dirty⟩

theorem Maps.place (maps : Maps flash b erase) : erase.place = erase := by
  obtain ⟨start, size, state, buffer⟩ := erase
  rw [Block.place, ← maps.free, ← maps.unread]

def Block.loaded (erase : Block) (state : State) (buffer : Nat) : Block :=
  { erase with state := if state = .free then .clean else state, buffer := some buffer }

theorem loaded_live (erase : Block) (state : State) (buffer : Nat) : (erase.loaded state buffer).state ≠ .free := by
  cases state <;> exact nofun

theorem load_spec (coherent : Coherent flash blocks) (maps : Maps flash b erase) (state : State)
    (clean : (flash.erase_blocks flash.curr_block).state ≠ .dirty)
    (absent : ∀ p, Live flash p → (flash.erase_blocks p).start_pos ≠ erase.start_pos) :
    Coherent (physicalRead { erase with state := state } flash).2 blocks := by
  generalize eq : (physicalRead { erase with state := state } flash).2 = flash'
  have regions : flash'.regions = flash.regions := by rw [← eq]; rfl
  have log : flash'.log_size = flash.log_size := by rw [← eq]; rfl
  have allocated : flash'.allocated = flash.allocated + 1 := by rw [← eq]; rfl
  have curr : flash'.curr_block = (flash.curr_block + 1) % MAX_LIVE_BLOCKS := by rw [← eq]; rfl
  have memory : flash'.memory = flash.memory := by rw [← eq]; rfl
  have new : flash'.erase_blocks flash.curr_block = erase.loaded state flash.allocated := by
    rw [← eq]
    exact Function.update_self _ _ _
  have old : ∀ {p}, p ≠ flash.curr_block → flash'.erase_blocks p = flash.erase_blocks p := by
    intro p other
    rw [← eq]
    exact Function.update_of_ne other _ _
  have newBuffer : ∀ i, flash'.buffers flash.allocated i = flash.memory (erase.start_pos + i) := by
    intro i
    rw [← eq]
    show Function.update flash.buffers flash.allocated _ flash.allocated i = _
    rw [Function.update_self]
  have oldBuffer : ∀ {id}, id < flash.allocated → flash'.buffers id = flash.buffers id := by
    intro id before
    rw [← eq]
    exact Function.update_of_ne (Nat.ne_of_lt before) _ _
  have lives : ∀ {p}, p ≠ flash.curr_block → Live flash' p → Live flash p := fun other alive => ⟨alive.1, old other ▸ alive.2⟩
  have bound := coherent.curr
  constructor
  · exact coherent.table.congr regions log
  · exact log.trans coherent.log
  · exact coherent.lengths
  · rw [curr, allocated, bound, MAX_LIVE_BLOCKS]
    omega
  · intro p small
    by_cases here : p = flash.curr_block
    · rw [here, new, allocated]
      have := Nat.mod_le flash.allocated MAX_LIVE_BLOCKS
      exact iff_of_true (loaded_live _ _ _) (by omega)
    · rw [old here, allocated, coherent.live p small]
      simp only [MAX_LIVE_BLOCKS] at small bound
      omega
  · intro p alive
    by_cases here : p = flash.curr_block
    · refine ⟨b, ?_⟩
      have place : (erase.loaded state flash.allocated).place = erase := maps.place
      rw [here, new, place]
      exact maps.congr regions log
    · obtain ⟨b', maps'⟩ := coherent.mapped p (lives here alive)
      exact ⟨b', old here ▸ maps'.congr regions log⟩
  · intro p q alive alive' same
    by_cases here : p = flash.curr_block
    · by_cases here' : q = flash.curr_block
      · rw [here, here']
      · rw [here, new, old here'] at same
        exact absurd same.symm (absent q (lives here' alive'))
    · by_cases here' : q = flash.curr_block
      · rw [here', new, old here] at same
        exact absurd same (absent p (lives here alive))
      · rw [old here, old here'] at same
        exact coherent.apart p q (lives here alive) (lives here' alive') same
  · intro p alive
    by_cases here : p = flash.curr_block
    · refine ⟨flash.allocated, by omega, by rw [here, new]; rfl, fun i small => ?_⟩
      rw [here, new] at small ⊢
      rw [newBuffer]
      -- what is read is not older than a dirty copy
      apply coherent.memory
      intro q alive' _ covers
      obtain ⟨b', maps'⟩ := coherent.mapped q alive'
      have same : (flash.erase_blocks q).place = erase := by
        refine maps'.unique coherent.table maps covers (a := erase.start_pos + i) ⟨Nat.le_add_right _ _, ?_⟩
        exact Nat.add_lt_add_left small _
      have start : (flash.erase_blocks q).place.start_pos = erase.start_pos := by rw [same]
      exact absent q alive' start
    · obtain ⟨id, before, buffer, bytes⟩ := coherent.buffers p (lives here alive)
      refine ⟨id, by omega, ?_⟩
      rw [old here, oldBuffer before]
      exact ⟨buffer, bytes⟩
  · intro p q alive alive' same
    by_cases here : p = flash.curr_block
    · by_cases here' : q = flash.curr_block
      · rw [here, here']
      · obtain ⟨id, before, buffer, -⟩ := coherent.buffers q (lives here' alive')
        rw [here, new, old here', buffer] at same
        exact absurd (Option.some.inj same) (Nat.ne_of_gt before)
    · by_cases here' : q = flash.curr_block
      · obtain ⟨id, before, buffer, -⟩ := coherent.buffers p (lives here alive)
        rw [here', new, old here, buffer] at same
        exact absurd (Option.some.inj same) (Nat.ne_of_lt before)
      · rw [old here, old here'] at same
        exact coherent.own p q (lives here alive) (lives here' alive') same
  · intro a uncovered
    rw [memory]
    apply coherent.memory
    intro p alive dirty
    have here : p ≠ flash.curr_block := by
      rintro rfl
      exact clean dirty
    have same := old here
    exact same ▸ uncovered p ⟨alive.1, same ▸ alive.2⟩ (same ▸ dirty)

theorem search_some {start pos : Nat} (found : search flash start = some pos) :
    Live flash pos ∧ (flash.erase_blocks pos).start_pos = start := by
  have holds := List.find?_some (p := fun pos : Nat =>
    decide ((flash.erase_blocks pos).start_pos = start ∧ (flash.erase_blocks pos).state ≠ .free)) found
  replace holds := of_decide_eq_true holds
  obtain ⟨n, -, rfl⟩ := List.mem_map.mp (List.mem_of_find?_eq_some found)
  exact ⟨⟨Nat.mod_lt _ (by decide), holds.2⟩, holds.1⟩

theorem search_none (bound : flash.curr_block < MAX_LIVE_BLOCKS) {start : Nat} (missing : search flash start = none)
    (live : Live flash p) : (flash.erase_blocks p).start_pos ≠ start := by
  intro same
  have all := List.find?_eq_none.mp missing
  -- the round that looks at slot `p`
  have round : p ∈ (List.range MAX_LIVE_BLOCKS).map fun n : Nat => (flash.curr_block + n) % MAX_LIVE_BLOCKS := by
    have small := live.1
    refine List.mem_map.mpr ⟨(p + MAX_LIVE_BLOCKS - flash.curr_block) % MAX_LIVE_BLOCKS, ?_, ?_⟩
    · exact List.mem_range.mpr (Nat.mod_lt _ (by decide))
    · simp only [MAX_LIVE_BLOCKS] at small bound ⊢
      omega
  exact all p round (decide_eq_true ⟨same, live.2⟩)

theorem Maps.found (coherent : Coherent flash blocks) (maps : Maps flash b erase) (live : Live flash p)
    (start : (flash.erase_blocks p).start_pos = erase.start_pos) : (flash.erase_blocks p).place = erase := by
  obtain ⟨b', maps'⟩ := coherent.mapped p live
  have size : 0 < erase.size := by
    have low := maps.low
    have high := maps.high
    omega
  have size' : 0 < (flash.erase_blocks p).place.size := by
    have low := maps'.low
    have high := maps'.high
    omega
  refine maps'.unique coherent.table maps (a := erase.start_pos) ⟨Nat.le_of_eq start, ?_⟩ ⟨Nat.le_refl _, ?_⟩
  · show erase.start_pos < (flash.erase_blocks p).start_pos + (flash.erase_blocks p).place.size
    omega
  · omega

theorem offset_spec (maps : Maps flash b erase) :
    erase.start_pos + flash.offset b erase = b * flash.log_size ∧ flash.offset b erase + flash.log_size ≤ erase.size := by
  have low := maps.low
  have high := maps.high
  have inside := maps.inside
  have addresses := maps.addresses
  have small : b * flash.log_size % 2 ^ 32 = b * flash.log_size := Nat.mod_eq_of_lt (by omega)
  unfold offset
  rw [small]
  omega

theorem byteOf_block (b i : Nat) (small : i < FLASH_BLK_SIZE) : byteOf blocks (b * FLASH_BLK_SIZE + i) = (blocks b).getD i 0 := by
  have block : (b * FLASH_BLK_SIZE + i) / FLASH_BLK_SIZE = b := by
    simp only [FLASH_BLK_SIZE] at small ⊢
    omega
  have index : (b * FLASH_BLK_SIZE + i) % FLASH_BLK_SIZE = i := by
    simp only [FLASH_BLK_SIZE] at small ⊢
    omega
  rw [byteOf, block, index]

theorem read_live (coherent : Coherent flash blocks) (maps : Maps flash b erase) (live : Live flash p)
    (place : (flash.erase_blocks p).place = erase) :
    ((List.range flash.log_size).map fun i : Nat =>
      flash.buffers ((flash.erase_blocks p).buffer.getD 0) (flash.offset b (flash.erase_blocks p) + i)) = blocks b := by
  obtain ⟨id, -, buffer, bytes⟩ := coherent.buffers p live
  obtain ⟨start, inside⟩ := offset_spec maps
  rw [← place] at start inside
  have log := coherent.log
  have length := coherent.lengths b
  apply List.ext_getElem
  · rw [List.length_map, List.length_range, log, length]
  · intro i bound bound'
    rw [List.getElem_map, List.getElem_range, buffer, Option.getD_some]
    have small : i < FLASH_BLK_SIZE := length ▸ bound'
    have within : flash.offset b (flash.erase_blocks p) + i < (flash.erase_blocks p).size := by
      have : flash.offset b (flash.erase_blocks p) + flash.log_size ≤ (flash.erase_blocks p).size := inside
      omega
    have position : (flash.erase_blocks p).start_pos + flash.offset b (flash.erase_blocks p) = b * FLASH_BLK_SIZE :=
      log ▸ start
    rw [bytes _ within, ← Nat.add_assoc, position, byteOf_block b i small, List.getD_eq_getElem _ _ bound']

theorem byteOf_other {data : List Byte} {a : Nat} (other : a / FLASH_BLK_SIZE ≠ b) :
    byteOf (Function.update blocks b data) a = byteOf blocks a := by
  rw [byteOf, Function.update_of_ne other, byteOf]

theorem Maps.holds (maps : Maps flash b erase) (log : flash.log_size = FLASH_BLK_SIZE) {a : Nat}
    (block : a / FLASH_BLK_SIZE = b) : erase.Covers a := by
  have low := maps.low
  have inside := maps.inside
  have below := Nat.div_mul_le_self a FLASH_BLK_SIZE
  have above := Nat.lt_div_mul_add (a := a) (b := FLASH_BLK_SIZE) (by decide)
  rw [block] at below above
  rw [log] at low inside
  exact ⟨by omega, by omega⟩

theorem write_live (coherent : Coherent flash blocks) (maps : Maps flash b erase) (live : Live flash p)
    (place : (flash.erase_blocks p).place = erase) (dirty : (flash.erase_blocks p).state = .dirty) {data : List Byte}
    (length : data.length = FLASH_BLK_SIZE) :
    let buffer := (flash.erase_blocks p).buffer.getD 0
    let start := flash.offset b (flash.erase_blocks p)
    Coherent { flash with
      buffers := Function.update flash.buffers buffer fun i : Nat =>
        if start ≤ i ∧ i < start + flash.log_size then data.getD (i - start) 0 else flash.buffers buffer i }
      (Function.update blocks b data) := by
  intro buffer start
  obtain ⟨id, before, buffer_eq, bytes⟩ := coherent.buffers p live
  obtain ⟨position, inside⟩ := offset_spec maps
  have log := coherent.log
  have covers : ∀ {a}, a / FLASH_BLK_SIZE = b → (flash.erase_blocks p).Covers a := by
    intro a block
    have := maps.holds log block
    rwa [← place] at this
  rw [← place, log] at position inside
  have number : buffer = id := by
    show (flash.erase_blocks p).buffer.getD 0 = id
    rw [buffer_eq, Option.getD_some]
  refine ⟨?_, log, fun b' => ?_, coherent.curr, coherent.live, fun q alive => ?_, coherent.apart,
    fun q alive => ?_, coherent.own, fun a uncovered => ?_⟩
  · apply coherent.table.congr <;> rfl
  · by_cases same : b' = b
    · rw [same, Function.update_self, length]
    · rw [Function.update_of_ne same, coherent.lengths]
  · obtain ⟨b', maps'⟩ := coherent.mapped q alive
    refine ⟨b', ?_⟩
    apply maps'.congr <;> rfl
  · by_cases same : q = p
    · subst same
      refine ⟨id, before, buffer_eq, fun i small => ?_⟩
      simp only [number, Function.update_self, log]
      by_cases within : start ≤ i ∧ i < start + FLASH_BLK_SIZE
      · have there : (flash.erase_blocks q).start_pos + i = b * FLASH_BLK_SIZE + (i - start) := by
          have : (flash.erase_blocks q).start_pos + start = b * FLASH_BLK_SIZE := position
          omega
        rw [if_pos within, there, byteOf_block b _ (by omega), Function.update_self]
      · have other : ((flash.erase_blocks q).start_pos + i) / FLASH_BLK_SIZE ≠ b := by
          intro block
          have : (flash.erase_blocks q).start_pos + start = b * FLASH_BLK_SIZE := position
          have below := Nat.div_mul_le_self ((flash.erase_blocks q).start_pos + i) FLASH_BLK_SIZE
          have above := Nat.lt_div_mul_add (a := (flash.erase_blocks q).start_pos + i) (b := FLASH_BLK_SIZE) (by decide)
          rw [block] at below above
          omega
        rw [if_neg within, byteOf_other other]
        exact bytes i small
    · obtain ⟨id', before', buffer_eq', bytes'⟩ := coherent.buffers q alive
      have different : id' ≠ buffer := by
        rw [number]
        rintro rfl
        exact same (coherent.own q p alive live (buffer_eq'.trans buffer_eq.symm))
      refine ⟨id', before', buffer_eq', fun i small => ?_⟩
      simp only [Function.update_of_ne different]
      have other : ((flash.erase_blocks q).start_pos + i) / FLASH_BLK_SIZE ≠ b := fun block =>
        same (coherent.disjoint alive live ⟨Nat.le_add_right _ _, Nat.add_lt_add_left small _⟩ (covers block))
      rw [byteOf_other other]
      exact bytes' i small
  · have other : a / FLASH_BLK_SIZE ≠ b := fun block => uncovered p live dirty (covers block)
    rw [byteOf_other other]
    exact coherent.memory a uncovered

def Misses (flash : Flash) (block : Nat) : Prop := search flash (logicalMap flash (shifted block)).start_pos = none

instance : Decidable (Misses flash b) := inferInstanceAs (Decidable (_ = _))

/-- Bringing the erase block of `block` into memory loses no data. -/
def Safe (flash : Flash) (block : Nat) : Prop :=
  Misses flash block → (flash.erase_blocks flash.curr_block).state = .dirty →
    (CFE_MAX_BLOCK + 1) * FLASH_BLK_SIZE - 1 < (flash.erase_blocks flash.curr_block).start_pos

instance : Decidable (Safe flash b) :=
  inferInstanceAs (Decidable (Misses flash b → (flash.erase_blocks flash.curr_block).state = .dirty → _ < _))

def Mapped (flash : Flash) (block : Nat) : Prop := (logicalMap flash (shifted block)).state ≠ .dirty

instance : Decidable (Mapped flash b) := inferInstanceAs (Decidable (_ ≠ _))

theorem Keeps.misses (keeps : Keeps flash flash') (missing : ∀ p, Live flash p → (flash.erase_blocks p).start_pos ≠ b) :
    ∀ p, Live flash' p → (flash'.erase_blocks p).start_pos ≠ b := by
  intro p live
  rw [keeps.start]
  exact missing p ⟨live.1, (keeps.live p).mp live.2⟩

theorem fetch_spec (coherent : Coherent flash blocks) {block : Nat} (mapped : Mapped flash block) (misses : Misses flash block)
    (safe : Safe flash block) (state : State) :
    let erase := logicalMap flash (shifted block)
    let fetched := physicalRead { erase with state := state } (physicalWrite flash.curr_block flash)
    Coherent fetched.2 blocks ∧ fetched.2.regions = flash.regions ∧ fetched.2.log_size = flash.log_size ∧
      fetched.2.allocated = flash.allocated + 1 ∧ Live fetched.2 flash.curr_block ∧
      fetched.2.erase_blocks flash.curr_block = fetched.1 ∧ fetched.1.place = erase ∧
      (state = .dirty → fetched.1.state = .dirty) ∧ fetched.1.state ≠ .free := by
  intro erase fetched
  have maps : Maps flash (shifted block) erase := logicalMap_maps coherent.table mapped
  have missing := fun p => search_none (p := p) coherent.curr_lt misses
  obtain ⟨coherent', keeps, clean⟩ := evict_spec coherent (safe misses)
  have maps' := maps.congr keeps.regions keeps.log
  have loaded := load_spec coherent' maps' state (by rw [keeps.curr]; exact clean) (keeps.misses missing)
  have slot : fetched.2.erase_blocks flash.curr_block = fetched.1 := by
    rw [← keeps.curr]
    exact Function.update_self _ _ _
  have used : fetched.1.state ≠ .free := loaded_live erase state (physicalWrite flash.curr_block flash).allocated
  refine ⟨loaded, keeps.regions, keeps.log, ?_, ⟨coherent.curr_lt, slot ▸ used⟩, slot, maps.place, ?_, used⟩
  · show (physicalWrite flash.curr_block flash).allocated + 1 = _
    rw [keeps.allocated]
  · rintro rfl
    rfl

theorem logicalRead_spec (coherent : Coherent flash blocks) {block : Nat} (mapped : Mapped flash block)
    (safe : Safe flash block) :
    (logicalRead block flash).1 = some (blocks (shifted block)) ∧ Coherent (logicalRead block flash).2 blocks ∧
      (logicalRead block flash).2.regions = flash.regions ∧
      (logicalRead block flash).2.allocated = flash.allocated + if Misses flash block then 1 else 0 := by
  have maps := logicalMap_maps coherent.table mapped
  cases searched : search flash (logicalMap flash (shifted block)).start_pos with
  | some pos =>
      obtain ⟨live, start⟩ := search_some searched
      have eq : logicalRead block flash = (some ((List.range flash.log_size).map fun i : Nat =>
          flash.buffers ((flash.erase_blocks pos).buffer.getD 0)
            (flash.offset (shifted block) (flash.erase_blocks pos) + i)), flash) := by
        unfold logicalRead
        simp only [searched]
        rw [if_neg mapped, if_neg live.2]
      have hits : ¬ Misses flash block := fun misses => nomatch searched.symm.trans misses
      rw [eq, if_neg hits, read_live coherent maps live (maps.found coherent live start)]
      exact ⟨rfl, coherent, rfl, rfl⟩
  | none =>
      have misses : Misses flash block := searched
      obtain ⟨coherent', regions, log, allocated, live, slot, place, -, used⟩ := fetch_spec coherent mapped misses safe .free
      have data := read_live coherent' (maps.congr regions log) live (by rw [slot]; exact place)
      rw [slot] at data
      rw [if_pos misses]
      unfold logicalRead
      simp only [searched, if_true]
      rw [if_neg mapped]
      exact ⟨congrArg some data, coherent', regions, allocated⟩

theorem logicalWrite_spec (coherent : Coherent flash blocks) {block : Nat} (mapped : Mapped flash block)
    (safe : Safe flash block) (accepted : ¬ Reserved (shifted block)) {data : List Byte}
    (length : data.length = FLASH_BLK_SIZE) :
    (logicalWrite block data flash).1 = true ∧
      Coherent (logicalWrite block data flash).2 (Function.update blocks (shifted block) data) ∧
      (logicalWrite block data flash).2.regions = flash.regions ∧
      (logicalWrite block data flash).2.allocated = flash.allocated + if Misses flash block then 1 else 0 := by
  have maps := logicalMap_maps coherent.table mapped
  cases searched : search flash (logicalMap flash (shifted block)).start_pos with
  | some pos =>
      obtain ⟨live, start⟩ := search_some searched
      have place := maps.found coherent live start
      have used : State.dirty ≠ .free := by decide
      have hits : ¬ Misses flash block := fun misses => nomatch searched.symm.trans misses
      have keeps := mark_keeps flash pos flash.memory live used
      have marked := @Coherent.mark _ _ _ coherent live _ used flash.memory fun a uncovered others =>
        coherent.memory a fun q alive dirty => by
          by_cases here : q = pos
          · exact here ▸ uncovered rfl
          · exact others q here alive dirty
      have slot : (mark flash pos .dirty flash.memory).erase_blocks pos = { flash.erase_blocks pos with state := .dirty } := by
        rw [mark_slot, if_pos rfl]
      have live' : Live (mark flash pos .dirty flash.memory) pos := ⟨live.1, (keeps.live pos).mpr live.2⟩
      have written := write_live marked (maps.congr keeps.regions keeps.log) live' (by rw [slot]; exact place)
        (by rw [slot]) length
      rw [slot] at written
      rw [if_neg hits]
      unfold logicalWrite
      simp only [searched]
      rw [if_neg accepted, if_neg mapped]
      exact ⟨rfl, written, rfl, rfl⟩
  | none =>
      have misses : Misses flash block := searched
      obtain ⟨coherent', regions, log, allocated, live, slot, place, dirty, used⟩ :=
        fetch_spec coherent mapped misses safe .dirty
      have written := write_live coherent' (maps.congr regions log) live (by rw [slot]; exact place)
        (by rw [slot]; exact dirty rfl) length
      rw [slot] at written
      rw [if_pos misses]
      unfold logicalWrite
      simp only [searched]
      rw [if_neg accepted, if_neg mapped]
      exact ⟨rfl, written, regions, allocated⟩

end

end Xinu.Flash
