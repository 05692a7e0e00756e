import Xinu.Proof.FileSystem.Contents
import Xinu.Proof.FileSystem.Running

namespace Xinu.FileSystem
open Lib

section
variable {n : Nat} {s s' : FileSystem} {fd : Nat} {buf : List Byte} {r : FileSystem × Int}

/-- The file, the bitmap and all that could be read are as they were. -/
structure Restored (s s' : FileSystem) (fd : Nat) : Prop where
  position : (s'.oft fd).fileptr = (s.oft fd).fileptr
  inode : (s'.oft fd).inode = (s.oft fd).inode
  stored : ∀ x, s'.getInodeByNum 0 (s.oft fd).inode.id.toInt x = s.getInodeByNum 0 (s.oft fd).inode.id.toInt x
  mask : ∀ b, s'.getmaskbit b = s.getmaskbit b
  bitmap : s'.bread BM_BLK 0 s.freemaskbytes = s.bread BM_BLK 0 s.freemaskbytes
  contents : ∀ fd', (s.oft fd').opened = true → ∀ pos : Nat, (pos : Int) < (s.oft fd').inode.size.toInt →
    s'.byteAt (s'.oft fd').inode pos = s.byteAt (s.oft fd').inode pos
  files : ∀ e, e < s.numentries → ∀ pos : Nat, (pos : Int) < (s.fileInode e).size.toInt →
    s'.byteAt (s'.fileInode e) pos = s.byteAt (s.fileInode e) pos

structure AllOrNothing (s : FileSystem) (fd : Nat) (buf : List Byte) (r : FileSystem × Int) : Prop where
  failed : r.2 = SYSERR → Restored s r.1 fd
  written : r.2 = buf.length → (r.1.oft fd).fileptr = (s.oft fd).fileptr + buf.length ∧
    (r.1.oft fd).inode.size.toInt = max (s.oft fd).inode.size.toInt ((s.oft fd).fileptr + buf.length)

theorem Restored.refl (s : FileSystem) (fd : Nat) : Restored s s fd := by
  constructor <;> intros <;> rfl

theorem refused_allOrNothing : AllOrNothing s fd buf (s, SYSERR) := by
  refine ⟨fun _ => .refl s fd, ?_⟩
  intro length
  simp only [SYSERR] at length
  omega

theorem done_allOrNothing (running : Running n s) (writes : s.writes fd buf)
    (advanced : Advanced s s' fd buf.length) :
    AllOrNothing s fd buf (s'.fwriteDone fd (s.eof fd buf), (buf.length : Int)) := by
  have position := running.position fd writes.1
  have bound := writes.2.2.2
  obtain ⟨x, -, size, file⟩ := advanced.file
  have oft := (fwriteDone_oft (s := s') fd (s.eof fd buf)).2
  rw [file, Function.update_idem, Function.update_self] at oft
  constructor
  · intro error
    simp only [SYSERR] at error
    omega
  · intro _
    simp only [oft, Function.update_self, true_and]
    rw [sized_size x (s.eof fd buf) (by omega) (by omega), size, eof]
    split
    · rename_i past
      have past := of_decide_eq_true past
      omega
    · rename_i within
      rw [decide_eq_true_eq] at within
      omega

theorem cutShort_fails {amount : Int} (positive : 0 < amount) (advanced : Advanced s r.1 fd amount)
    (error : r.2 = SYSERR) : ¬ AllOrNothing s fd buf r := by
  intro whole
  have position := (whole.failed error).position
  obtain ⟨x, -, -, file⟩ := advanced.file
  rw [file, Function.update_self] at position
  simp only at position
  omega

theorem Running.atomic (running : Running n s) (range : fd < NUM_FD) (action : s.fwrite fd buf = some r) :
    AllOrNothing s fd buf r ↔ (s.writes fd buf → s.needed fd buf ≤ s.freeBlocks) := by
  by_cases writes : s.writes fd buf
  · rcases fwrite_outcome running range writes action with
      ⟨fits, s₂, advanced, rfl⟩ | ⟨lacking, amount, positive, advanced, error⟩
    · exact iff_of_true (done_allOrNothing running writes advanced) fun _ => fits
    · exact iff_of_false (cutShort_fails positive advanced error) fun fits =>
        Nat.not_le.mpr lacking (fits writes)
  · rw [fwrite_refused writes action]
    exact iff_of_true refused_allOrNothing fun accepted => absurd accepted writes

end

/-- In every state of every run `fwrite` is all or nothing just when its arguments are refused or there
are enough free blocks. -/
theorem fwrite_atomic {device : Int → Byte} {numInodes : Int} {address : Nat} {memory : Nat → Byte}
    {s : FileSystem} (reach : Reach step (fun _ _ => True) (formatted device numInodes address memory) s)
    {fd : Int} {buf : List Byte} {r : FileSystem × Int} (action : s.fwrite fd buf = some r) :
    AllOrNothing s fd.toNat buf r ↔
      (s.writes fd.toNat buf → s.needed fd.toNat buf ≤ s.freeBlocks) := by
  obtain ⟨fd, rfl, range⟩ := fwrite_range action
  exact (reach_running reach).atomic range action

def blank (_ : Int) : Byte := 255

theorem blank_created {n : Nat} (positive : 1 ≤ n) (word : n < 2 ^ 31) :
    Reach step (fun _ _ => True) (formatted blank n 0 fun _ => 0)
      ((formatted blank n 0 fun _ => 0).created 0 0 [97]) := by
  have free : ((formatted blank n 0 fun _ => 0).inode 0).free n = true := by
    have id : ((formatted blank n 0 fun _ => 0).inode 0).id.toInt < 0 := by
      rw [formatted_inode]
      decide
    rw [Inode.free, decide_eq_true id, Bool.true_or]
  have create := formatted_create positive word free (show isName [97] from ⟨by decide, by decide⟩) (by decide)
  have action : step (.fcreate [97] O_CREAT) (formatted blank n 0 fun _ => 0) =
      some ((formatted blank n 0 fun _ => 0).created 0 0 [97]) := by
    rw [step, create]
  exact .next .init trivial action

theorem created_writes (n : Nat) {buf : List Byte} (nonempty : 0 < buf.length) (short : buf.length < 5120) :
    ((formatted blank n 0 fun _ => 0).created 0 0 [97]).writes 0 buf := by
  have file : ((formatted blank n 0 fun _ => 0).created 0 0 [97]).oft 0 =
      ⟨true, 0, O_RDWR, some 0, (formatted blank n 0 fun _ => 0).emptyInode 0⟩ := by
    simp only [created, Function.update_self]
    rfl
  refine ⟨by rw [file], .inr (by rw [file]), List.length_pos_iff.mp nonempty, ?_⟩
  rw [file]
  simp only
  omega

theorem blank_running {n : Nat} (positive : 1 ≤ n) (word : n < 2 ^ 31) :
    Running n ((formatted blank n 0 fun _ => 0).created 0 0 [97]) := by
  have running := reach_running (blank_created positive word)
  rw [if_neg (by omega), Int.toNat_natCast] at running
  exact running

theorem fwrite_atomic_byte : ∃ s r, s.fwrite 0 [7] = some r ∧ AllOrNothing s 0 [7] r := by
  have reach := blank_created (n := 128) (by decide) (by decide)
  have running := blank_running (n := 128) (by decide) (by decide)
  have writes := created_writes 128 (show 0 < [7].length by decide) (by decide)
  have start : (((formatted blank (128 : Nat) 0 fun _ => 0).created 0 0 [97]).oft 0).fileptr = 0 := by
    simp [created]
  generalize (formatted blank (128 : Nat) 0 fun _ => 0).created 0 0 [97] = s at *
  have room : s.firstDataBlock < MDEV_NUM_BLOCKS := by
    rw [running.fmt.firstDataBlock]
    decide
  obtain ⟨s', -, action⟩ := fwrite_spec (running.ready room) (by decide) writes (Int.le_of_eq start.symm)
  refine ⟨s, _, action, (fwrite_atomic reach action).mpr fun _ => ?_⟩
  have none : s.needed 0 [7] = 0 := by
    rw [needed, headLength, start]
    rfl
  show s.needed 0 [7] ≤ _
  rw [none]
  exact Nat.zero_le _

theorem fwrite_cut : ∃ s r, Reach step (fun _ _ => True) (formatted blank (4072 : Nat) 0 fun _ => 0) s ∧
    s.fwrite 0 (List.replicate 1025 7) = some r ∧ r.2 = SYSERR ∧ (s.oft 0).fileptr = 0 ∧
    0 < (r.1.oft 0).fileptr ∧ ¬ AllOrNothing s 0 (List.replicate 1025 7) r := by
  have reach := blank_created (n := 4072) (by decide) (by decide)
  have running := blank_running (n := 4072) (by decide) (by decide)
  have writes := created_writes 4072 (show 0 < (List.replicate 1025 7).length by rw [List.length_replicate]; decide)
    (by rw [List.length_replicate]; decide)
  have start : (((formatted blank (4072 : Nat) 0 fun _ => 0).created 0 0 [97]).oft 0).fileptr = 0 := by
    simp [created]
  generalize (formatted blank (4072 : Nat) 0 fun _ => 0).created 0 0 [97] = s at *
  have first : s.firstDataBlock = 511 := by rw [running.fmt.firstDataBlock]
  have room : s.firstDataBlock < MDEV_NUM_BLOCKS := by
    rw [first]
    decide
  have few : s.freeBlocks ≤ 1 := by
    rw [freeBlocks, places, first]
    exact Finset.card_filter_le _ _
  have many : s.needed 0 (List.replicate 1025 7) = 2 := by
    rw [needed, headLength, start, List.length_replicate]
    rfl
  obtain ⟨s', -, action⟩ := fwrite_spec (running.ready room) (by decide) writes (Int.le_of_eq start.symm)
  rcases fwrite_outcome running (by decide) writes action with
    ⟨fits, -⟩ | ⟨-, amount, positive, advanced, error⟩
  · omega
  · obtain ⟨x, -, -, file⟩ := advanced.file
    refine ⟨s, _, reach, action, error, start, ?_, cutShort_fails positive advanced error⟩
    rw [file, Function.update_self]
    simp only
    omega

end Xinu.FileSystem
