import Xinu.Proof.FileSystem.Blocks

namespace Xinu.FileSystem
open Lib

inductive MaskCall
  | set (b : Nat)
  | clear (b : Nat)
  deriving DecidableEq

def MaskCall.block : MaskCall → Nat
  | .set b => b
  | .clear b => b

def mask (s : FileSystem) : MaskCall → FileSystem
  | .set b => s.setmaskbit b
  | .clear b => s.clearmaskbit b

def masks (s : FileSystem) (calls : List MaskCall) : FileSystem := calls.foldl mask s

def LastSet (calls : List MaskCall) (b : Nat) : Prop :=
  (calls.filter fun call => call.block = b).getLast? = some (.set b)

instance (calls : List MaskCall) (b : Nat) : Decidable (LastSet calls b) := inferInstanceAs (Decidable (_ = _))

section
variable {s t : FileSystem} {calls : List MaskCall} {b b' : Nat}

theorem clearmaskbit_marked (b b' : Nat) :
    (s.clearmaskbit b).marked b' = if b' = b then false else s.marked b' := by
  have bit (r : Nat) (bound : r < 8) (r' : Nat) (bound' : r' < 8) :
      (~~~(0x80#8 >>> r) &&& 0xFF#8).getLsbD (7 - r') = !decide (r' = r) := by
    revert r r'
    decide
  by_cases byte : b' / 8 = b / 8
  · simp only [marked, clearmaskbit, byte, Function.update_self, BitVec.getLsbD_and,
      bit (b % 8) (by omega) (b' % 8) (by omega)]
    by_cases same : b' = b
    · simp [same]
    · have : b' % 8 ≠ b % 8 := by omega
      simp [same, this]
  · have : b' ≠ b := by
      rintro rfl
      exact byte rfl
    simp [marked, clearmaskbit, Function.update_of_ne byte, this]

theorem mask_marked (call : MaskCall) (b : Nat) :
    (s.mask call).marked b = if b = call.block then decide (call = .set b) else s.marked b := by
  cases call with
  | set b' =>
      rw [mask, setmaskbit_marked]
      by_cases same : b = b'
      · simp [MaskCall.block, same]
      · simp [MaskCall.block, same]
  | clear b' =>
      rw [mask, clearmaskbit_marked]
      by_cases same : b = b'
      · simp [MaskCall.block, same]
      · simp [MaskCall.block, same]

theorem mask_other (call : MaskCall) (other : b ≠ call.block) : (s.mask call).getmaskbit b = s.getmaskbit b := by
  rw [getmaskbit_eq, getmaskbit_eq, mask_marked, if_neg other]

theorem mask_frame (call : MaskCall) : (s.mask call).nblocks = s.nblocks ∧
    (s.mask call).firstDataBlock = s.firstDataBlock ∧ (s.mask call).freemaskbytes = s.freemaskbytes := by
  cases call <;> exact ⟨rfl, rfl, rfl⟩

theorem masks_append (s : FileSystem) (calls calls' : List MaskCall) :
    s.masks (calls ++ calls') = (s.masks calls).masks calls' := List.foldl_append

theorem masks_frame (s : FileSystem) (calls : List MaskCall) : (s.masks calls).nblocks = s.nblocks ∧
    (s.masks calls).firstDataBlock = s.firstDataBlock ∧ (s.masks calls).freemaskbytes = s.freemaskbytes := by
  induction calls generalizing s with
  | nil => exact ⟨rfl, rfl, rfl⟩
  | cons call calls ih =>
      obtain ⟨nblocks, first, freemaskbytes⟩ := ih (s.mask call)
      obtain ⟨nblocks', first', freemaskbytes'⟩ := s.mask_frame call
      exact ⟨nblocks.trans nblocks', first.trans first', freemaskbytes.trans freemaskbytes'⟩

theorem masks_marked (s : FileSystem) (calls : List MaskCall) (b : Nat) :
    (s.masks calls).marked b = true ↔
      LastSet calls b ∨ s.marked b = true ∧ ∀ call ∈ calls, call.block ≠ b := by
  induction calls using List.reverseRecOn with
  | nil => simp [masks, LastSet]
  | append_singleton calls call ih =>
      rw [masks, List.foldl_append, List.foldl_cons, List.foldl_nil, mask_marked]
      by_cases same : b = call.block
      · rw [if_pos same, LastSet, List.filter_append, List.filter_cons_of_pos (by simp [same]), List.filter_nil,
          List.getLast?_concat, decide_eq_true_iff, Option.some.injEq]
        refine ⟨.inl, fun cases => cases.elim id fun ⟨_, never⟩ => ?_⟩
        exact absurd same.symm (never call (by simp))
      · have skip : (calls ++ [call]).filter (fun call => decide (call.block = b)) =
            calls.filter fun call => decide (call.block = b) := by
          rw [List.filter_append, List.filter_cons_of_neg (by simpa using Ne.symm same), List.filter_nil, List.append_nil]
        rw [if_neg same, ← masks, ih, LastSet, LastSet, skip]
        simp [or_imp, forall_and, Ne.symm same]

def mkfsCalls : List MaskCall := [.set SB_BLK, .set BM_BLK]

theorem bwrite_freemask (s : FileSystem) (block offset : Int) (buf : List Byte) :
    ((s.bwrite block offset buf).getD s).freemask = s.freemask := by
  unfold bwrite
  split <;> rfl

theorem setmaskbit_congr (same : s.freemask = t.freemask) : (s.setmaskbit b).freemask = (t.setmaskbit b).freemask := by
  simp only [setmaskbit, same]

variable {numInodes : Int} {address : Nat} {bytes : Nat → Byte}

theorem mkfs_frame (s : FileSystem) (numInodes : Int) (address : Nat) (bytes : Nat → Byte) :
    (s.mkfs 0 numInodes (some (address, bytes))).1.nblocks = s.dev0Numblocks ∧
      (s.mkfs 0 numInodes (some (address, bytes))).1.freemaskbytes = (s.dev0Numblocks + 7) / 8 := by
  simp only [mkfs, bwrite]
  constructor <;> (repeat' split) <;> first | rfl | simp_all

theorem mkfs_freemask (s : FileSystem) (numInodes : Int) (address : Nat) (bytes : Nat → Byte) :
    (s.mkfs 0 numInodes (some (address, bytes))).1.freemask =
      ({ s with freemask := fun i => if i < (s.dev0Numblocks + 7) / 8 then 0 else bytes i }.masks mkfsCalls).freemask := by
  simp only [mkfs, ne_eq, not_true_eq_false, if_false, bwrite_freemask, masks, mkfsCalls, List.foldl_cons, List.foldl_nil, mask]
  exact setmaskbit_congr (bwrite_freemask _ _ _ _)

theorem masks_congr (same : s.freemask = t.freemask) (calls : List MaskCall) :
    (s.masks calls).freemask = (t.masks calls).freemask := by
  induction calls generalizing s t with
  | nil => exact same
  | cons call calls ih =>
      refine @ih (s.mask call) (t.mask call) ?_
      cases call with
      | set b => exact setmaskbit_congr same
      | clear b => simp only [mask, clearmaskbit, same]

theorem mkfs_marked (s : FileSystem) (numInodes : Int) (address : Nat) (bytes : Nat → Byte) (calls : List MaskCall)
    (covered : b < 8 * (s.mkfs 0 numInodes (some (address, bytes))).1.freemaskbytes) :
    ((s.mkfs 0 numInodes (some (address, bytes))).1.masks calls).marked b = true ↔ LastSet (mkfsCalls ++ calls) b := by
  let zeroed : FileSystem := { s with freemask := fun i => if i < (s.dev0Numblocks + 7) / 8 then 0 else bytes i }
  have same := masks_congr (mkfs_freemask s numInodes address bytes) calls
  have mark : ((s.mkfs 0 numInodes (some (address, bytes))).1.masks calls).marked b =
      (zeroed.masks (mkfsCalls ++ calls)).marked b := by
    rw [masks_append, marked, same, marked]
  rw [(mkfs_frame s numInodes address bytes).2] at covered
  have clear : zeroed.marked b = false := by
    have inside : b / 8 < (s.dev0Numblocks + 7) / 8 := by omega
    simp only [marked, zeroed, inside, if_true]
    exact BitVec.getLsbD_zero
  rw [mark, masks_marked, clear]
  exact or_iff_left fun never => Bool.false_ne_true never.1

def Finds (s : FileSystem) : Prop :=
  ∀ calls : List MaskCall, (∀ call ∈ calls, call.block < 8 * s.freemaskbytes) →
    ∀ b, s.firstDataBlock ≤ b → b < s.nblocks →
      (∃ b', s.firstDataBlock ≤ b' ∧ b' < s.nblocks ∧ (s.masks calls).getmaskbit b' = 0) →
      ∃ b', (s.masks calls).scanBlock (s.nblocks - s.firstDataBlock) b = (b', true) ∧
        s.firstDataBlock ≤ b' ∧ b' < s.nblocks ∧ (s.masks calls).getmaskbit b' = 0

theorem getmaskbit_free (b : Nat) : s.getmaskbit b = 0 ↔ s.marked b = false := by
  rw [getmaskbit_eq]
  cases s.marked b <;> simp

def allBut (s : FileSystem) (b : Nat) : List MaskCall := (List.range (8 * s.freemaskbytes)).map .set ++ [.clear b]

theorem allBut_covered (inside : b < 8 * s.freemaskbytes) : ∀ call ∈ s.allBut b, call.block < 8 * s.freemaskbytes := by
  intro call member
  rcases List.mem_append.mp member with set | clear
  · obtain ⟨b', range, rfl⟩ := List.mem_map.mp set
    exact List.mem_range.mp range
  · rw [List.mem_singleton.mp clear]
    exact inside

theorem sets_marked (s : FileSystem) (bs : List Nat) (b : Nat) :
    (s.masks (bs.map .set)).marked b = true ↔ b ∈ bs ∨ s.marked b = true := by
  induction bs generalizing s with
  | nil => simp [masks]
  | cons b' bs ih =>
      have first := s.mask_marked (.set b') b
      have rest := ih (s.mask (.set b'))
      rw [first] at rest
      rw [List.map_cons, masks, List.foldl_cons, ← masks, rest, List.mem_cons]
      by_cases same : b = b'
      · simp [MaskCall.block, same]
      · simp [MaskCall.block, same]

theorem allBut_marked (inside : b' < 8 * s.freemaskbytes) : (s.masks (s.allBut b)).marked b' = false ↔ b' = b := by
  rw [allBut, masks_append, masks, List.foldl_cons, List.foldl_nil, mask_marked]
  by_cases same : b' = b
  · simp [MaskCall.block, same]
  · have taken : (s.masks ((List.range (8 * s.freemaskbytes)).map .set)).marked b' = true :=
      (sets_marked s _ b').mpr (.inl (List.mem_range.mpr inside))
    simp [MaskCall.block, same, taken]

theorem finds_bounds (finds : Finds s) (bytes : s.nblocks ≤ 8 * s.freemaskbytes) (other : s.nblocks ≠ MDEV_NUM_BLOCKS) :
    s.nblocks ≤ s.firstDataBlock + 1 := by
  by_contra several
  obtain ⟨nblocks, first, -⟩ := masks_frame s (s.allBut (if s.nblocks < MDEV_NUM_BLOCKS then s.firstDataBlock
    else max MDEV_NUM_BLOCKS (s.firstDataBlock + 1)))
  by_cases small : s.nblocks < MDEV_NUM_BLOCKS
  · rw [if_pos small] at nblocks first
    have inside : s.firstDataBlock < 8 * s.freemaskbytes := by omega
    obtain ⟨b', found, low, high, free⟩ := finds (s.allBut s.firstDataBlock) (allBut_covered inside)
      (s.firstDataBlock + 1) (by omega) (by omega)
      ⟨s.firstDataBlock, Nat.le_refl _, by omega, (getmaskbit_free _).mpr ((allBut_marked inside).mpr rfl)⟩
    have only := (allBut_marked (by omega)).mp ((getmaskbit_free b').mp free)
    rw [scanBlock_eq, first] at found
    have ahead := @probe_straight (fun b => !(s.masks (s.allBut s.firstDataBlock)).marked b) s.firstDataBlock
      MDEV_NUM_BLOCKS (s.nblocks - s.firstDataBlock) (s.firstDataBlock + 1) (by omega) (by rw [found])
    rw [found] at ahead
    omega
  · rw [if_neg small] at nblocks first
    let last := max MDEV_NUM_BLOCKS (s.firstDataBlock + 1)
    have inside : last < 8 * s.freemaskbytes := by omega
    obtain ⟨b', found, low, high, free⟩ := finds (s.allBut last) (allBut_covered inside)
      s.firstDataBlock (by omega) (by omega)
      ⟨last, by omega, by omega, (getmaskbit_free _).mpr ((allBut_marked inside).mpr rfl)⟩
    have only := (allBut_marked (by omega)).mp ((getmaskbit_free b').mp free)
    rw [scanBlock_eq, first] at found
    have stays := @probe_stays (fun b => !(s.masks (s.allBut last)).marked b) s.firstDataBlock MDEV_NUM_BLOCKS
      (s.nblocks - s.firstDataBlock) s.firstDataBlock ⟨Nat.le_refl _, by omega⟩
    rw [found] at stays
    omega

theorem finds_of_bounds (bounds : s.nblocks = MDEV_NUM_BLOCKS ∨ s.nblocks ≤ s.firstDataBlock + 1) : Finds s := by
  intro calls _ b low high ⟨b', low', high', free⟩
  obtain ⟨-, first, -⟩ := masks_frame s calls
  rw [scanBlock_eq, first]
  have place := (getmaskbit_free b').mp free
  rcases bounds with size | single
  · rw [size] at high high' ⊢
    have start : s.firstDataBlock ≤ b ∧ b < MDEV_NUM_BLOCKS := ⟨low, high⟩
    have complete := @probe_complete (fun b => !(s.masks calls).marked b) _ _ _ _ _ start low' high' (by rw [place]; rfl)
      (Nat.le_refl _)
    have within := @probe_within (fun b => !(s.masks calls).marked b) _ _ (MDEV_NUM_BLOCKS - s.firstDataBlock) _ start
    refine ⟨_, Prod.ext rfl complete, within.1, within.2, ?_⟩
    rw [getmaskbit_free]
    simpa using probe_free complete
  · have same : b = b' := by omega
    have one : s.nblocks - s.firstDataBlock = 1 := by omega
    refine ⟨b, ?_, low, high, same ▸ free⟩
    rw [one, probe, same, place]
    rfl

/-- The mask is a set of blocks, and the scan finds a free block when its bounds agree. -/
theorem freemask_set (s : FileSystem) (numInodes : Int) (address : Nat) (bytes : Nat → Byte) :
    let s' := (s.mkfs 0 numInodes (some (address, bytes))).1
    (∀ calls : List MaskCall, (∀ call ∈ calls, call.block < 8 * s'.freemaskbytes) → ∀ b, b < 8 * s'.freemaskbytes →
      (s'.masks calls).getmaskbit b = if LastSet (mkfsCalls ++ calls) b then 1 else 0) ∧
    (∀ (t : FileSystem) (call : MaskCall) (b : Nat), b ≠ call.block → (t.mask call).getmaskbit b = t.getmaskbit b) ∧
    (Finds s' ↔ s'.nblocks = MDEV_NUM_BLOCKS ∨ s'.nblocks ≤ s'.firstDataBlock + 1) := by
  intro s'
  have frame := mkfs_frame s numInodes address bytes
  refine ⟨fun calls _ b covered => ?_, fun t call b other => mask_other call other, fun finds => ?_, finds_of_bounds⟩
  · rw [getmaskbit_eq]
    have marked := mkfs_marked s numInodes address bytes calls covered
    by_cases set : LastSet (mkfsCalls ++ calls) b
    · rw [if_pos set, if_pos (marked.mpr set)]
    · rw [if_neg set, if_neg fun mark => set (marked.mp mark)]
  · by_cases size : s'.nblocks = MDEV_NUM_BLOCKS
    · exact .inl size
    · refine .inr (finds_bounds finds ?_ size)
      rw [frame.1, frame.2]
      omega

def sixteen : FileSystem := (({ unformatted (fun _ => 0) with dev0Numblocks := 16 }).mkfs 0 1 (some (0, fun _ => 255))).1

theorem sixteen_missed : ¬ Finds sixteen := by
  intro finds
  obtain ⟨b', found, -⟩ := finds ((List.range 16).map .set ++ [.clear 3]) (by decide) 4 (by decide) (by decide)
    ⟨3, by decide +kernel⟩
  have missed : (((sixteen.masks ((List.range 16).map .set ++ [.clear 3])).scanBlock
      (sixteen.nblocks - sixteen.firstDataBlock) 4).2) = false := by decide +kernel
  rw [found] at missed
  exact nomatch missed

end

end Xinu.FileSystem
