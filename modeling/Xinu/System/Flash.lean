import Xinu.Lib.Bytes
import Mathlib.Algebra.GroupWithZero.Nat
import Mathlib.Logic.Function.Basic

/-!
# Logical blocks of a flash device

`logicalMap`, `logicalRead` and `logicalWrite`, on a device with the Intel command set that does what it is asked.
Positions count from the base of the device, and `memget` gives a new buffer.
-/

namespace Xinu
open Lib (Byte)

abbrev MAX_LIVE_BLOCKS : Nat := 8
abbrev FLASH_BLK_SIZE : Nat := 512

abbrev CFE_MIN_BLOCK : Nat := 0
abbrev CFE_MAX_BLOCK : Nat := 0x1FF
abbrev KERNEL_MIN_BLOCK : Nat := 0x200
abbrev KERNEL_MAX_BLOCK : Nat := 0x3FF
abbrev NVRAM_MIN_BLOCK : Nat := 0x1FC0
abbrev NVRAM_MAX_BLOCK : Nat := 0x1FFF

namespace Flash

structure Region where
  nblocks : Nat
  block_size : Nat
  region_size : Nat
  deriving DecidableEq, Repr

inductive State
  | free | clean | dirty
  deriving DecidableEq, Repr

/-- `struct flash_block`. Buffers have numbers. -/
structure Block where
  start_pos : Nat
  size : Nat
  state : State
  buffer : Option Nat
  deriving DecidableEq, Repr

def bad_block : Block := ⟨0, 0, .dirty, none⟩

end Flash

open Flash (Region Block)

structure Flash where
  regions : List Region
  log_size : Nat
  erase_blocks : Nat → Block
  curr_block : Nat
  -- the contents of the device and of the buffers that have been allocated, none of which is ever freed
  memory : Nat → Byte
  buffers : Nat → Nat → Byte
  allocated : Nat

namespace Flash

def findRegion (log_size block : Nat) : List Region → Nat → Option (Region × Nat)
  | [], _ => none
  | r :: regions, position =>
      let position := position + r.region_size
      if block < position / log_size then some (r, position) else findRegion log_size block regions position

def findBlock (log_size block block_size : Nat) : Nat → Nat → Option Nat
  | 0, _ => none
  | nblocks + 1, position =>
      let position := position + block_size
      if block < position / log_size then some position else findBlock log_size block block_size nblocks position

def logicalMap (flash : Flash) (block : Nat) : Block :=
  match findRegion flash.log_size block flash.regions 0 with
  | none => bad_block
  | some (r, position) =>
      match findBlock flash.log_size block r.block_size r.nblocks (position - r.region_size) with
      | none => bad_block
      | some position => ⟨position - r.block_size, r.block_size, .free, none⟩

/-- `physicalRead`: the block as it is afterwards, and the device. -/
def physicalRead (block : Block) (flash : Flash) : Block × Flash :=
  let block :=
    { block with state := if block.state = .free then .clean else block.state, buffer := some flash.allocated }
  (block,
    { flash with
      buffers := Function.update flash.buffers flash.allocated fun i : Nat => flash.memory (block.start_pos + i)
      allocated := flash.allocated + 1
      erase_blocks := Function.update flash.erase_blocks flash.curr_block block
      curr_block := (flash.curr_block + 1) % MAX_LIVE_BLOCKS })

def physicalWrite (pos : Nat) (flash : Flash) : Flash :=
  let block := flash.erase_blocks pos
  -- only a dirty block is written, and none in CFE-land
  if block.state = .free then flash
  else if ¬ (CFE_MAX_BLOCK + 1) * FLASH_BLK_SIZE - 1 < block.start_pos then flash
  else if block.state = .clean then flash
  else
    { flash with
      memory := fun a : Nat =>
        if block.start_pos ≤ a ∧ a < block.start_pos + block.size then
          flash.buffers (block.buffer.getD 0) (a - block.start_pos)
        else flash.memory a
      erase_blocks := Function.update flash.erase_blocks pos { block with state := .clean } }

def search (flash : Flash) (start_pos : Nat) : Option Nat :=
  ((List.range MAX_LIVE_BLOCKS).map fun n : Nat => (flash.curr_block + n) % MAX_LIVE_BLOCKS).find? fun pos =>
    decide ((flash.erase_blocks pos).start_pos = start_pos ∧ (flash.erase_blocks pos).state ≠ .free)

def shifted (block : Nat) : Nat := (block + KERNEL_MAX_BLOCK + 1) % 2 ^ 32

def offset (flash : Flash) (block : Nat) (erase : Block) : Nat := (block * flash.log_size) % 2 ^ 32 - erase.start_pos

def logicalRead (block : Nat) (flash : Flash) : Option (List Byte) × Flash :=
  let block := shifted block
  let new_block := logicalMap flash block
  if new_block.state = .dirty then (none, flash)
  else
    let (new_block, flash) : Block × Flash :=
      match search flash new_block.start_pos with
      | some pos => (flash.erase_blocks pos, flash)
      | none => ({ new_block with state := .free }, physicalWrite flash.curr_block flash)
    let (new_block, flash) := if new_block.state = .free then physicalRead new_block flash else (new_block, flash)
    (some ((List.range flash.log_size).map fun i : Nat =>
      flash.buffers (new_block.buffer.getD 0) (flash.offset block new_block + i)), flash)

def Reserved (block : Nat) : Prop :=
  (CFE_MIN_BLOCK ≤ block ∧ block ≤ CFE_MAX_BLOCK) ∨ (NVRAM_MIN_BLOCK ≤ block ∧ block ≤ NVRAM_MAX_BLOCK) ∨
    (KERNEL_MIN_BLOCK ≤ block ∧ block ≤ KERNEL_MAX_BLOCK)

instance : DecidablePred Reserved := fun _ => inferInstanceAs (Decidable (_ ∨ _ ∨ _))

/-- `logicalWrite`, which tells whether it has written. -/
def logicalWrite (block : Nat) (data : List Byte) (flash : Flash) : Bool × Flash :=
  let block := shifted block
  if Reserved block then (false, flash)
  else
    let new_block := logicalMap flash block
    if new_block.state = .dirty then (false, flash)
    else
      let (new_block, flash) : Block × Flash :=
        match search flash new_block.start_pos with
        | some pos =>
            let new_block := { flash.erase_blocks pos with state := .dirty }
            (new_block, { flash with erase_blocks := Function.update flash.erase_blocks pos new_block })
        | none => physicalRead { new_block with state := .dirty } (physicalWrite flash.curr_block flash)
      let buffer := new_block.buffer.getD 0
      let start := flash.offset block new_block
      (true,
        { flash with
          buffers := Function.update flash.buffers buffer fun i : Nat =>
            if start ≤ i ∧ i < start + flash.log_size then data.getD (i - start) 0 else flash.buffers buffer i })

def opened (regions : List Region) (memory : Nat → Byte) : Flash where
  regions := regions
  log_size := FLASH_BLK_SIZE
  erase_blocks := fun _ => ⟨0, 0, .free, none⟩
  curr_block := 0
  memory := memory
  buffers := fun _ _ => 0
  allocated := 0

end Flash

end Xinu
