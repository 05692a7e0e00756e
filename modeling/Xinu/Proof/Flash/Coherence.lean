import Xinu.Proof.Flash.Cache

namespace Xinu.Flash
open Lib

structure Disk where
  flash : Flash
  written : Nat → Option (List Byte)
  replaced : Nat

inductive Call
  | read (block : Nat)
  | write (block : Nat) (data : List Byte)

def Call.block : Call → Nat
  | .read block => block
  | .write block _ => block

def Replaces (flash : Flash) (block : Nat) : Prop :=
  Misses flash block ∧ (flash.erase_blocks flash.curr_block).state ≠ .free

instance (flash : Flash) (block : Nat) : Decidable (Replaces flash block) := inferInstanceAs (Decidable (_ ∧ _))

def call : Call → Disk → Option Disk
  | .read block, d =>
      some { d with
        flash := (logicalRead block d.flash).2
        replaced := d.replaced + if Replaces d.flash block then 1 else 0 }
  | .write block data, d =>
      some {
        flash := (logicalWrite block data d.flash).2
        written := Function.update d.written block (some data)
        replaced := d.replaced + if Replaces d.flash block then 1 else 0 }

def Accepted (flash : Flash) (block : Nat) : Prop := block < 2 ^ 32 ∧ Mapped flash block ∧ ¬ Reserved (shifted block)

instance (flash : Flash) (block : Nat) : Decidable (Accepted flash block) := inferInstanceAs (Decidable (_ ∧ _ ∧ _))

def Call.Whole : Call → Prop
  | .read _ => True
  | .write _ data => data.length = FLASH_BLK_SIZE

instance : DecidablePred Call.Whole := fun
  | .read _ => inferInstanceAs (Decidable True)
  | .write _ _ => inferInstanceAs (Decidable (_ = _))

def Proper (d : Disk) (c : Call) : Prop := Accepted d.flash c.block ∧ c.Whole

instance (d : Disk) (c : Call) : Decidable (Proper d c) := inferInstanceAs (Decidable (_ ∧ _))

def start (regions : List Region) (memory : Nat → Byte) : Disk := ⟨opened regions memory, fun _ => none, 0⟩

def stored (memory : Nat → Byte) (b : Nat) : List Byte :=
  (List.range FLASH_BLK_SIZE).map fun i : Nat => memory (b * FLASH_BLK_SIZE + i)

def Disk.data (memory : Nat → Byte) (d : Disk) (block : Nat) : List Byte :=
  (d.written block).getD (stored memory (shifted block))

section
variable {regions : List Region} {memory : Nat → Byte} {d d' : Disk}

theorem shifted_injective {b b' : Nat} (small : b < 2 ^ 32) (small' : b' < 2 ^ 32) (same : shifted b = shifted b') :
    b = b' := by
  simp only [shifted, KERNEL_MAX_BLOCK] at same
  omega

theorem opened_coherent (table : Table (opened regions memory)) : Coherent (opened regions memory) (stored memory) := by
  have free : ∀ p, ¬ Live (opened regions memory) p := fun p live => live.2 rfl
  constructor
  · exact table
  · rfl
  · intro b
    rw [stored, List.length_map, List.length_range]
  · rfl
  · exact fun p _ => iff_of_false (fun used => used rfl) (Nat.not_lt_zero p)
  · exact fun p live => absurd live (free p)
  · exact fun p _ live => absurd live (free p)
  · exact fun p live => absurd live (free p)
  · exact fun p _ live => absurd live (free p)
  · intro a _
    have bound : a % FLASH_BLK_SIZE < FLASH_BLK_SIZE := Nat.mod_lt a (by decide)
    rw [byteOf, stored, List.getD_eq_getElem _ _ (by rwa [List.length_map, List.length_range]), List.getElem_map,
      List.getElem_range, Nat.div_add_mod']
    rfl

structure Holds (memory : Nat → Byte) (d : Disk) (blocks : Nat → List Byte) : Prop where
  coherent : Coherent d.flash blocks
  data : ∀ block < 2 ^ 32, blocks (shifted block) = d.data memory block
  replaced : d.replaced = d.flash.allocated - MAX_LIVE_BLOCKS

theorem start_holds (table : Table (opened regions memory)) : Holds memory (start regions memory) (stored memory) where
  coherent := opened_coherent table
  data := fun block _ => by simp only [Disk.data, start, Option.getD_none]
  replaced := rfl

theorem replaced_next {flash flash' : Flash} {blocks : Nat → List Byte} {block replaced : Nat}
    (coherent : Coherent flash blocks)
    (before : replaced = flash.allocated - MAX_LIVE_BLOCKS)
    (allocated : flash'.allocated = flash.allocated + if Misses flash block then 1 else 0) :
    replaced + (if Replaces flash block then 1 else 0) = flash'.allocated - MAX_LIVE_BLOCKS := by
  by_cases misses : Misses flash block
  · -- the oldest slot is in use when all are
    have used := coherent.live flash.curr_block coherent.curr_lt
    have full : (flash.erase_blocks flash.curr_block).state ≠ .free ↔ MAX_LIVE_BLOCKS ≤ flash.allocated := by
      rw [used, coherent.curr, MAX_LIVE_BLOCKS]
      omega
    rw [if_pos misses] at allocated
    by_cases room : MAX_LIVE_BLOCKS ≤ flash.allocated
    · rw [if_pos ⟨misses, full.mpr room⟩]
      omega
    · rw [if_neg fun replaces => room (full.mp replaces.2)]
      omega
  · rw [if_neg misses] at allocated
    rw [if_neg fun replaces => misses replaces.1]
    omega

theorem call_holds {blocks : Nat → List Byte} {c : Call} (holds : Holds memory d blocks) (proper : Proper d c)
    (safe : Safe d.flash c.block) (called : call c d = some d') : ∃ blocks', Holds memory d' blocks' := by
  obtain ⟨⟨small, mapped, accepted⟩, whole⟩ := proper
  cases c with
  | read block =>
      cases Option.some.inj called
      obtain ⟨-, coherent, -, allocated⟩ := logicalRead_spec holds.coherent mapped safe
      exact ⟨blocks, coherent, holds.data, replaced_next holds.coherent holds.replaced allocated⟩
  | write block data =>
      simp only [Call.block] at small mapped accepted safe
      obtain ⟨-, coherent, -, allocated⟩ := logicalWrite_spec holds.coherent mapped safe accepted whole
      rw [call] at called
      generalize (logicalWrite block data d.flash).2 = flash' at *
      cases Option.some.inj called
      refine ⟨_, coherent, fun block' small' => ?_, replaced_next holds.coherent holds.replaced allocated⟩
      simp only [Disk.data]
      by_cases same : block' = block
      · rw [same, Function.update_self, Function.update_self, Option.getD_some]
      · rw [Function.update_of_ne same, Function.update_of_ne fun eq => same (shifted_injective small' small eq),
          holds.data block' small', Disk.data]

theorem reach_holds (table : Table (opened regions memory))
    (reach : Reach call (fun d c => Proper d c ∧ Safe d.flash c.block) (start regions memory) d) :
    ∃ blocks, Holds memory d blocks := by
  refine reach.invariant (P := fun d => ∃ blocks, Holds memory d blocks) ⟨_, start_holds table⟩ ?_
  rintro d d' c ⟨blocks, holds⟩ ⟨proper, safe⟩ called
  exact call_holds holds proper safe called

/-- The erase block of `block`, new or in memory, has room for the logical block at its offset. -/
def Inside (flash : Flash) (block : Nat) : Prop :=
  let erase := logicalMap flash (shifted block)
  flash.offset (shifted block) erase + flash.log_size ≤ erase.size ∧
    ∀ p, Live flash p → (flash.erase_blocks p).start_pos = erase.start_pos →
      (flash.erase_blocks p).size = erase.size ∧ (flash.erase_blocks p).buffer ≠ none

theorem Coherent.inside {flash : Flash} {blocks : Nat → List Byte} {block : Nat} (coherent : Coherent flash blocks)
    (mapped : Mapped flash block) : Inside flash block := by
  have maps := logicalMap_maps coherent.table mapped
  refine ⟨(offset_spec maps).2, fun p live same => ⟨?_, ?_⟩⟩
  · have place := maps.found coherent live same
    have size : (flash.erase_blocks p).place.size = (logicalMap flash (shifted block)).size := by rw [place]
    exact size
  · obtain ⟨id, -, buffer, -⟩ := coherent.buffers p live
    rw [buffer]
    exact nofun

theorem flash_coherent (table : Table (opened regions memory))
    (reach : Reach call (fun d c => Proper d c ∧ Safe d.flash c.block) (start regions memory) d) :
    (∀ block, Accepted d.flash block → Safe d.flash block →
        (logicalRead block d.flash).1 = some (d.data memory block)) ∧
      (∀ p q, Live d.flash p → Live d.flash q →
        (d.flash.erase_blocks p).start_pos = (d.flash.erase_blocks q).start_pos → p = q) ∧
      (∀ block, Accepted d.flash block → Inside d.flash block) ∧
      (d.flash.allocated ≤ MAX_LIVE_BLOCKS ↔ d.replaced = 0) := by
  obtain ⟨blocks, holds⟩ := reach_holds table reach
  refine ⟨fun block accepted safe => ?_, holds.coherent.apart, fun block accepted => holds.coherent.inside accepted.2.1, ?_⟩
  · rw [← holds.data block accepted.1]
    exact (logicalRead_spec holds.coherent accepted.2.1 safe).1
  · rw [holds.replaced]
    omega

end

def small : List Region := [⟨1, 0x80000, 0x80000⟩, ⟨9, 512, 9 * 512⟩]

def large : List Region := [⟨1, 0x80200, 0x80200⟩, ⟨8, 512, 8 * 512⟩]

def blank : Nat → Byte := fun _ => 0

def nineReads : List Call := (List.range 9).map .read

def writeThenReads : List Call := .write 0 (List.replicate FLASH_BLK_SIZE 1) :: ((List.range 8).map fun n : Nat => .read (n + 1))

theorem small_table : Table (opened small blank) := ⟨by decide, by decide, by decide, by decide⟩

theorem reach_calls {ok : Disk → Call → Prop} [∀ d c, Decidable (ok d c)] {regions : List Region} {memory : Nat → Byte}
    {calls : List Call} {f : Disk → α} {x : α}
    (runs : (Lib.run call (fun d c => decide (ok d c)) calls (start regions memory)).map f = some x) :
    ∃ d, Reach call ok (start regions memory) d ∧ f d = x := by
  rw [Option.map_eq_some_iff] at runs
  obtain ⟨d, run, value⟩ := runs
  exact ⟨d, Reach.run (fun _ _ allowed => of_decide_eq_true allowed) .init run, value⟩

def twelve : List Region := [⟨1, 0x80000, 0x80000⟩, ⟨12, 512, 12 * 512⟩]

theorem twelve_table : Table (opened twelve blank) := ⟨by decide, by decide, by decide, by decide⟩

def writeThenMore : List Call :=
  .write 1 (List.replicate FLASH_BLK_SIZE 1) :: ((List.range 8).map fun n : Nat => .read (n + 2)) ++ [.read 0]

theorem flash_coherent_small :
    (∃ d : Disk, d.flash.allocated ≤ MAX_LIVE_BLOCKS ∧ (logicalRead 0 d.flash).1 = some (d.data blank 0)) ∧
      ∃ d : Disk, ¬ d.flash.allocated ≤ MAX_LIVE_BLOCKS ∧
        (logicalRead 1 d.flash).1 = some (List.replicate FLASH_BLK_SIZE 1) := by
  constructor
  · have runs : (Lib.run call (fun (d : Disk) c => decide (Proper d c ∧ Safe d.flash c.block)) [.read 0]
        (start small blank)).map (fun d : Disk => (decide (Accepted d.flash 0), decide (Safe d.flash 0), d.replaced)) =
          some (true, true, 0) := by decide +kernel
    obtain ⟨d, reach, facts⟩ := reach_calls runs
    simp only [Prod.mk.injEq, decide_eq_true_eq] at facts
    have coherent := flash_coherent small_table reach
    exact ⟨d, coherent.2.2.2.mpr facts.2.2, coherent.1 0 facts.1 facts.2.1⟩
  · have runs : (Lib.run call (fun (d : Disk) c => decide (Proper d c ∧ Safe d.flash c.block)) writeThenMore
        (start twelve blank)).map (fun d : Disk =>
          (decide (Accepted d.flash 1), decide (Safe d.flash 1), d.replaced, d.written 1)) =
            some (true, true, 2, some (List.replicate FLASH_BLK_SIZE 1)) := by decide +kernel
    obtain ⟨d, reach, facts⟩ := reach_calls runs
    simp only [Prod.mk.injEq, decide_eq_true_eq] at facts
    obtain ⟨accepted, safe, replaced, written⟩ := facts
    have coherent := flash_coherent twelve_table reach
    refine ⟨d, ?_, ?_⟩
    · rw [coherent.2.2.2, replaced]
      decide
    · rw [coherent.1 1 accepted safe, Disk.data, written]
      rfl

theorem flash_incoherent :
    (∃ d : Disk, Reach call Proper (start small blank) d ∧ MAX_LIVE_BLOCKS < d.flash.allocated) ∧
      ∃ d : Disk, Reach call Proper (start large blank) d ∧ Accepted d.flash 0 ∧
        (logicalRead 0 d.flash).1 ≠ some (d.data blank 0) := by
  constructor
  · have runs : (Lib.run call (fun (d : Disk) c => decide (Proper d c)) nineReads (start small blank)).map
        (fun d : Disk => decide (MAX_LIVE_BLOCKS < d.flash.allocated)) = some true := by decide +kernel
    obtain ⟨d, reach, more⟩ := reach_calls runs
    exact ⟨d, reach, of_decide_eq_true more⟩
  · have runs : (Lib.run call (fun (d : Disk) c => decide (Proper d c)) writeThenReads (start large blank)).map
        (fun d : Disk => (decide (Accepted d.flash 0), ((logicalRead 0 d.flash).1.getD []).head?, (d.data blank 0).head?)) =
          some (true, some 0, some 1) := by decide +kernel
    obtain ⟨d, reach, facts⟩ := reach_calls runs
    simp only [Prod.mk.injEq, decide_eq_true_eq] at facts
    refine ⟨d, reach, facts.1, fun same => ?_⟩
    rw [same, Option.getD_some, facts.2.2] at facts
    exact absurd facts.2.1 (by decide)

end Xinu.Flash
