import Xinu.Proof.FileSystem.Directory

namespace Xinu
open Lib

namespace Inode

theorem block_setBlock {x : Inode} {k j b : Nat} (bound : b < 2 ^ 31) (first : k < INODEBLOCKS)
    (second : j < INODEBLOCKS) :
    (x.setBlock k b).block j = if j = k then (b : Int) else x.block j := by
  have index : Fin.ofNat INODEBLOCKS j = Fin.ofNat INODEBLOCKS k ↔ j = k := by
    rw [Fin.ext_iff]
    simp only [Fin.ofNat, Nat.mod_eq_of_lt first, Nat.mod_eq_of_lt second]
  by_cases same : j = k
  · subst same
    simp only [block, setBlock, Function.update_self, BitVec.ofInt_natCast, FileSystem.toInt_ofNat bound, if_true]
  · have other : Fin.ofNat INODEBLOCKS j ≠ Fin.ofNat INODEBLOCKS k := fun h => same (index.mp h)
    simp only [block, setBlock, Function.update_of_ne other, if_neg same]

def setBlocks (x : Inode) (k : Nat) : List Nat → Inode
  | [] => x
  | b :: bs => (x.setBlock k b).setBlocks (k + 1) bs

theorem setBlocks_fields {x : Inode} {k : Nat} {bs : List Nat} :
    (x.setBlocks k bs).id = x.id ∧ (x.setBlocks k bs).size = x.size := by
  induction bs generalizing x k with
  | nil => exact ⟨rfl, rfl⟩
  | cons b bs ih => exact ih

theorem block_setBlocks {x : Inode} {k j : Nat} {bs : List Nat} (bounds : ∀ b ∈ bs, b < 2 ^ 31)
    (last : k + bs.length ≤ INODEBLOCKS) (index : j < INODEBLOCKS) :
    (x.setBlocks k bs).block j =
      if k ≤ j ∧ j < k + bs.length then ((bs.getD (j - k) 0 : Nat) : Int) else x.block j := by
  induction bs generalizing x k with
  | nil =>
      rw [if_neg (by simp)]
      rfl
  | cons b bs ih =>
      simp only [List.length_cons] at last
      rw [setBlocks, ih (fun b member => bounds b (List.mem_cons_of_mem _ member)) (by omega)]
      have first := block_setBlock (x := x) (k := k) (bounds b List.mem_cons_self) (by omega) index
      by_cases here : j = k
      · subst here
        rw [if_neg (by omega), if_pos (by simp), first, if_pos rfl]
        simp
      · by_cases later : k + 1 ≤ j ∧ j < k + 1 + bs.length
        · rw [if_pos later, if_pos (by simp only [List.length_cons]; omega)]
          have : j - k = j - (k + 1) + 1 := by omega
          rw [this, List.getD_cons_succ]
        · rw [if_neg later, if_neg (by simp only [List.length_cons]; omega), first, if_neg here]

end Inode

namespace FileSystem

section
variable {n : Nat} {s : FileSystem}

def marked (s : FileSystem) (b : Nat) : Bool := (s.freemask (b / 8)).getLsbD (7 - b % 8)

theorem getmaskbit_eq (b : Nat) : s.getmaskbit b = if s.marked b then 1 else 0 := by
  have byte : ∀ r, r < 8 → ∀ v : BitVec 8,
      ((v <<< r) &&& 0x80#8) >>> 7 = if v.getLsbD (7 - r) then 1 else 0 := by decide +kernel
  exact byte (b % 8) (by omega) _

theorem setmaskbit_marked (b b' : Nat) :
    (s.setmaskbit b).marked b' = if b' = b then true else s.marked b' := by
  have bit (r : Nat) (bound : r < 8) (r' : Nat) (bound' : r' < 8) :
      (0x80#8 >>> r).getLsbD (7 - r') = decide (r' = r) := by
    revert r r'
    decide
  by_cases byte : b' / 8 = b / 8
  · simp only [marked, setmaskbit, byte, Function.update_self, BitVec.getLsbD_or,
      bit (b % 8) (by omega) (b' % 8) (by omega)]
    by_cases same : b' = b
    · simp [same]
    · have : b' % 8 ≠ b % 8 := by omega
      simp [same, this]
  · have : b' ≠ b := by
      rintro rfl
      exact byte rfl
    simp [marked, setmaskbit, Function.update_of_ne byte, this]

def granted (s : FileSystem) (m : Nat) : List Nat :=
  probes (fun b => !s.marked b) s.firstDataBlock MDEV_NUM_BLOCKS (s.nblocks - s.firstDataBlock) m
    s.nextFreeDataBlock

theorem scanBlock_eq (m b : Nat) :
    s.scanBlock m b = probe (fun b => !s.marked b) s.firstDataBlock MDEV_NUM_BLOCKS m b := by
  induction m generalizing b with
  | zero => rfl
  | succ m ih =>
      cases used : s.marked b <;> simp [scanBlock, probe, getmaskbit_eq, used, ih]

structure Ready (n : Nat) (s : FileSystem) : Prop where
  fmt : Formatted n s
  room : s.firstDataBlock < MDEV_NUM_BLOCKS
  low : s.firstDataBlock ≤ s.nextFreeDataBlock
  high : s.nextFreeDataBlock < MDEV_NUM_BLOCKS
  bitmap : s.marked BM_BLK = true

def extend (s : FileSystem) (fd b : Nat) (chunk : List Byte) : FileSystem :=
  let freemask := ((s.setmaskbit b).setmaskbit BM_BLK).freemask
  let ft := s.oft fd
  { s with
    freemask
    nextFreeDataBlock := b
    oft := Function.update s.oft fd { ft with
      fileptr := ft.fileptr + chunk.length
      inode := ft.inode.setBlock (ft.fileptr / 512).toNat b }
    dev0Blocks := store (store s.dev0Blocks 512 ((List.range 64).map freemask)) (512 * b) chunk }

theorem allocate_eq (fmt : Formatted n s) (fd b : Nat) :
    s.allocate fd b = { s with
      freemask := ((s.setmaskbit b).setmaskbit BM_BLK).freemask
      oft := Function.update s.oft fd { s.oft fd with
        inode := (s.oft fd).inode.setBlock ((s.oft fd).fileptr / 512).toNat b }
      dev0Blocks := store s.dev0Blocks 512
        ((List.range 64).map ((s.setmaskbit b).setmaskbit BM_BLK).freemask) } := by
  have fmt' : Formatted n ((s.setmaskbit b).setmaskbit BM_BLK) := fmt.same rfl
  have bytes : List.range ((s.setmaskbit b).setmaskbit BM_BLK).freemaskbytes = List.range 64 := by
    rw [fmt'.freemaskbytes]
  simp only [allocate, setFile]
  rw [fmt'.bwrite (by decide), bytes]
  rfl

theorem fill_eq (fmt : Formatted n s) (fd : Nat) {offset : Int} (within : offset < 512)
    (buf : List Byte) :
    s.fill fd offset buf = some { s with
      oft := Function.update s.oft fd { s.oft fd with
        fileptr := (s.oft fd).fileptr + buf.length }
      dev0Blocks := store s.dev0Blocks
        (512 * (s.oft fd).inode.block ((s.oft fd).fileptr / 512).toNat + offset) buf } := by
  simp only [fill]
  rw [fmt.bwrite within]
  rfl

theorem fwriteLoop_eq (ready : Ready n s) {fd fuel : Nat} {buf : List Byte} (more : buf ≠ []) :
    fwriteLoop fd (fuel + 1) s buf =
      match probe (fun b => !s.marked b) s.firstDataBlock MDEV_NUM_BLOCKS
          (s.nblocks - s.firstDataBlock) s.nextFreeDataBlock with
      | (b, true) => fwriteLoop fd fuel (s.extend fd b (buf.take 512)) (buf.drop 512)
      | (b, false) => some ({ s with nextFreeDataBlock := b }, false) := by
  have room := ready.room
  have within := probe_within (p := fun b => !s.marked b) (n := s.nblocks - s.firstDataBlock)
    ⟨ready.low, ready.high⟩
  rw [fwriteLoop, if_neg more, if_neg (by rw [ready.fmt.nblocks]; exact Nat.not_le.mpr room), scanBlock_eq]
  rcases found : probe (fun b => !s.marked b) s.firstDataBlock MDEV_NUM_BLOCKS
    (s.nblocks - s.firstDataBlock) s.nextFreeDataBlock with ⟨b, _ | _⟩
  · simp
  · simp only [found] at within
    have data : b < 2 ^ 31 := by
      have := within.2
      simp only [MDEV_NUM_BLOCKS] at this
      omega
    simp only [not_true_eq_false, if_false]
    have fmt : Formatted n { s with nextFreeDataBlock := b } := ready.fmt.same rfl
    rw [allocate_eq fmt, fill_eq (n := n)]
    · simp [extend, Inode.block, Inode.setBlock, toInt_ofNat data]
      rfl
    · exact ready.fmt.same rfl
    · decide

structure Extended (s s' : FileSystem) (fd : Nat) (bs : List Nat) (buf : List Byte) : Prop where
  rest : s' = { s with
    freemask := s'.freemask
    nextFreeDataBlock := s'.nextFreeDataBlock
    oft := s'.oft
    dev0Blocks := s'.dev0Blocks }
  low : s.firstDataBlock ≤ s'.nextFreeDataBlock
  high : s'.nextFreeDataBlock < MDEV_NUM_BLOCKS
  file : s'.oft = Function.update s.oft fd { s.oft fd with
    fileptr := (s.oft fd).fileptr + buf.length
    inode := (s.oft fd).inode.setBlocks ((s.oft fd).fileptr / 512).toNat bs }
  marked : ∀ b, s'.marked b = (s.marked b || decide (b ∈ bs))
  bitmap : ∀ a : Int, 512 ≤ a → a < 576 →
    s'.dev0Blocks a = s.dev0Blocks a ∧ s'.freemask = s.freemask ∨
      s'.dev0Blocks a = s'.freemask (a - 512).toNat
  device : ∀ a : Int, (512 ≤ a → 576 ≤ a) → (∀ b ∈ bs, ¬ (512 * (b : Int) ≤ a ∧ a < 512 * b + 512)) →
    s'.dev0Blocks a = s.dev0Blocks a
  content : ∀ j, j < buf.length →
    s'.dev0Blocks (512 * (bs.getD (j / 512) 0 : Nat) + (j % 512 : Nat)) = buf.getD j 0

theorem Extended.none {s' : FileSystem} {fd b : Nat} (low : s.firstDataBlock ≤ b)
    (high : b < MDEV_NUM_BLOCKS) (result : s' = { s with nextFreeDataBlock := b }) :
    Extended s s' fd [] [] := by
  subst result
  constructor
  · rfl
  · exact low
  · exact high
  · simp [Inode.setBlocks]
  · simp [FileSystem.marked]
  · exact fun _ _ _ => .inl ⟨rfl, rfl⟩
  · exact fun _ _ _ => rfl
  · simp

theorem Ready.above (ready : Ready n s) {b : Nat} (data : s.firstDataBlock ≤ b) : 2 ≤ b := by
  rw [ready.fmt.firstDataBlock] at data
  omega

theorem extend_marked (ready : Ready n s) {fd b : Nat} {chunk : List Byte} (b' : Nat) :
    (s.extend fd b chunk).marked b' = (s.marked b' || decide (b' ∈ [b])) := by
  have bitmap := ready.bitmap
  have same : (s.extend fd b chunk).marked b' = ((s.setmaskbit b).setmaskbit BM_BLK).marked b' := rfl
  rw [same, setmaskbit_marked, setmaskbit_marked]
  by_cases one : b' = BM_BLK
  · simp [one, bitmap]
  · by_cases this : b' = b <;> simp [one, this]

theorem extend_extended (ready : Ready n s) (fd : Nat) {b : Nat} {chunk : List Byte}
    (low : s.firstDataBlock ≤ b) (high : b < MDEV_NUM_BLOCKS) (short : chunk.length ≤ 512) :
    Extended s (s.extend fd b chunk) fd [b] chunk := by
  have above := ready.above low
  constructor
  · rfl
  · exact low
  · exact high
  · rfl
  · exact extend_marked ready
  · intro a lo hi
    refine .inr ?_
    have bound : (a - 512).toNat < 64 := by omega
    simp only [extend]
    rw [store_off (by omega), store_within (by simp only [List.length_map, List.length_range]; omega) 0]
    simp [List.getD, bound]
  · intro a mask data
    have := data b (by simp)
    simp only [extend]
    rw [store_off (by omega), store_off (by simp only [List.length_map, List.length_range]; omega)]
  · intro j bound
    have block : j / 512 = 0 := by omega
    have offset : j % 512 = j := by omega
    have index : (512 * (b : Int) + j - 512 * b).toNat = j := by omega
    simp only [extend, block, offset, List.getD_cons_zero]
    rw [store_within (by omega) 0, index]

theorem Extended.cons {s₁ s' : FileSystem} {fd b : Nat} {bs : List Nat} {chunk buf : List Byte}
    (first : Extended s s₁ fd [b] chunk) (later : Extended s₁ s' fd bs buf)
    (short : chunk.length ≤ 512) (full : chunk.length = 512 ∨ bs = [] ∧ buf = []) (position : 0 ≤ (s.oft fd).fileptr)
    (start : (s.oft fd).fileptr % 512 = 0) (fresh : b ∉ bs) (above : 2 ≤ b) :
    Extended s s' fd (b :: bs) (chunk ++ buf) := by
  have geometry : s₁.firstDataBlock = s.firstDataBlock := by
    rw [first.rest]
    rfl
  constructor
  · have rest := later.rest
    rw [first.rest] at rest
    exact rest
  · exact geometry ▸ later.low
  · exact later.high
  · rw [later.file, first.file]
    rcases full with full | ⟨rfl, rfl⟩
    · have next : (((s.oft fd).fileptr + chunk.length) / 512).toNat =
          ((s.oft fd).fileptr / 512).toNat + 1 := by omega
      simp [next, Inode.setBlocks, Int.add_assoc]
    · simp [Inode.setBlocks]
  · intro b'
    rw [later.marked, first.marked]
    simp [Bool.or_assoc]
  · intro a lo hi
    rcases later.bitmap a lo hi with ⟨same, mask⟩ | written
    · rw [same, mask]
      exact first.bitmap a lo hi
    · exact .inr written
  · intro a mask data
    rw [later.device a mask fun b' member => data b' (List.mem_cons_of_mem _ member)]
    exact first.device a mask fun b' member => data b' (by simp_all)
  · intro j bound
    by_cases early : j < chunk.length
    · have written := first.content j early
      have block : j / 512 = 0 := by omega
      rw [block, List.getD_cons_zero] at written ⊢
      rw [List.getD_append _ _ _ _ early, ← written]
      apply later.device
      · omega
      · intro b' member inside
        have : b ≠ b' := fun same => fresh (same ▸ member)
        omega
    · rcases full with full | ⟨_, rfl⟩
      · rw [List.length_append] at bound
        have written := later.content (j - 512) (by omega)
        have block : j / 512 = (j - 512) / 512 + 1 := by omega
        have offset : j % 512 = (j - 512) % 512 := by omega
        rw [block, offset, List.getD_cons_succ, written, List.getD_append_right _ _ _ _ (by omega), full]
      · simp only [List.append_nil] at bound
        omega

theorem Extended.ready {s' : FileSystem} {fd : Nat} {bs : List Nat} {buf : List Byte}
    (ready : Ready n s) (given : Extended s s' fd bs buf) : Ready n s' := by
  have geometry : s'.firstDataBlock = s.firstDataBlock := by
    rw [given.rest]
    rfl
  constructor
  · rw [given.rest]
    exact ready.fmt.same rfl
  · rw [geometry]
    exact ready.room
  · rw [geometry]
    exact given.low
  · exact given.high
  · simp [given.marked, ready.bitmap]

theorem granted_extended {s' : FileSystem} {fd b : Nat} {buf : List Byte}
    (given : Extended s s' fd [b] buf) (cursor : s'.nextFreeDataBlock = b) (m : Nat) :
    s'.granted m = probes (Function.update (fun b => !s.marked b) b false) s.firstDataBlock
      MDEV_NUM_BLOCKS (s.nblocks - s.firstDataBlock) m b := by
  have geometry : s'.firstDataBlock = s.firstDataBlock ∧ s'.nblocks = s.nblocks := by
    rw [given.rest]
    exact ⟨rfl, rfl⟩
  have mask : (fun b' => !s'.marked b') = Function.update (fun b => !s.marked b) b false := by
    funext b'
    by_cases same : b' = b
    · simp [same, given.marked]
    · simp [given.marked, same]
  rw [granted, mask, geometry.1, geometry.2, cursor]

theorem fwriteLoop_spec (ready : Ready n s) (fd : Nat) {fuel : Nat} {buf : List Byte}
    (enough : buf.length ≤ fuel) (position : 0 ≤ (s.oft fd).fileptr)
    (start : (s.oft fd).fileptr % 512 = 0) :
    ∃ s', Extended s s' fd (s.granted ((buf.length + 511) / 512))
        (buf.take (512 * (s.granted ((buf.length + 511) / 512)).length)) ∧
      fwriteLoop fd fuel s buf =
        some (s', decide ((s.granted ((buf.length + 511) / 512)).length = (buf.length + 511) / 512)) := by
  induction fuel generalizing s buf with
  | zero =>
      have empty : buf = [] := List.length_eq_zero_iff.mp (by omega)
      subst empty
      exact ⟨s, .none ready.low ready.high rfl, by simp [fwriteLoop, granted, probes]⟩
  | succ fuel ih =>
      by_cases empty : buf = []
      · subst empty
        exact ⟨s, .none ready.low ready.high rfl, by simp [fwriteLoop, granted, probes]⟩
      · have within := probe_within (p := fun b => !s.marked b) (n := s.nblocks - s.firstDataBlock)
          ⟨ready.low, ready.high⟩
        have more : 0 < buf.length := List.length_pos_iff.mpr empty
        obtain ⟨m, blocks⟩ : ∃ m, (buf.length + 511) / 512 = m + 1 :=
          ⟨(buf.length + 511) / 512 - 1, by omega⟩
        rw [fwriteLoop_eq ready empty, blocks, granted, probes]
        rcases found : probe (fun b => !s.marked b) s.firstDataBlock MDEV_NUM_BLOCKS
          (s.nblocks - s.firstDataBlock) s.nextFreeDataBlock with ⟨b, _ | _⟩ <;>
          simp only [found] at within ⊢
        · exact ⟨_, .none within.1 within.2 rfl, by simp⟩
        · have short : (buf.take 512).length ≤ 512 := List.length_take_le _ _
          have given := extend_extended ready fd within.1 within.2 short
          have file : ((s.extend fd b (buf.take 512)).oft fd).fileptr =
              (s.oft fd).fileptr + (buf.take 512).length := by simp [extend]
          have above := ready.above within.1
          have split (l : Nat) : buf.take (512 * (l + 1)) = buf.take 512 ++ (buf.drop 512).take (512 * l) := by
            rw [show 512 * (l + 1) = 512 + 512 * l by omega, List.take_add]
          by_cases full : 512 ≤ buf.length
          · have length : (buf.take 512).length = 512 := by
              rw [List.length_take]
              omega
            have rest : ((buf.drop 512).length + 511) / 512 = m := by
              rw [List.length_drop]
              omega
            have fewer : (buf.drop 512).length ≤ fuel := by
              rw [List.length_drop]
              omega
            have later := ih (given.ready ready) fewer (by omega) (by omega)
            rw [rest, granted_extended given rfl] at later
            obtain ⟨s', later, result⟩ := later
            have fresh : b ∉ probes (Function.update (fun b => !s.marked b) b false) s.firstDataBlock
                MDEV_NUM_BLOCKS (s.nblocks - s.firstDataBlock) m b := by
              intro again
              simpa using (probes_spec within again).1
            refine ⟨s', ?_, by rw [result]; simp⟩
            rw [List.length_cons, split]
            exact given.cons later short (.inl length) position start fresh above
          · have none : m = 0 := by omega
            have all : buf.drop 512 = [] := List.drop_eq_nil_of_le (by omega)
            subst none
            refine ⟨s.extend fd b (buf.take 512), ?_, ?_⟩
            · rw [probes, List.length_singleton, split, all]
              simpa using given
            · rw [all]
              cases fuel <;> simp [fwriteLoop, probes]

def writes (s : FileSystem) (fd : Nat) (buf : List Byte) : Prop :=
  (s.oft fd).opened = true ∧ ((s.oft fd).mode = O_WRONLY ∨ (s.oft fd).mode = O_RDWR) ∧ buf ≠ [] ∧
    buf.length + (s.oft fd).fileptr < 5120

def headLength (s : FileSystem) (fd : Nat) (buf : List Byte) : Nat :=
  min buf.length (512 - (s.oft fd).fileptr % 512).toNat

/-- How many blocks the other bytes need. -/
def needed (s : FileSystem) (fd : Nat) (buf : List Byte) : Nat :=
  (buf.length - s.headLength fd buf + 511) / 512

def filled (s : FileSystem) (fd : Nat) (buf : List Byte) : FileSystem :=
  let ft := s.oft fd
  { s with
    oft := Function.update s.oft fd { ft with fileptr := ft.fileptr + buf.length }
    dev0Blocks := store s.dev0Blocks
      (512 * ft.inode.block (ft.fileptr / 512).toNat + ft.fileptr % 512) buf }

theorem fwrite_range {fd : Int} {buf : List Byte} {r : FileSystem × Int}
    (action : s.fwrite fd buf = some r) : ∃ fd' : Nat, fd = fd' ∧ fd' < NUM_FD := by
  have range : 0 ≤ fd ∧ fd < NUM_FD := by
    by_contra outside
    rw [fwrite, if_pos outside] at action
    cases action
  exact ⟨fd.toNat, by omega, by omega⟩

theorem fwrite_refused {fd : Nat} {buf : List Byte} (refused : ¬ s.writes fd buf)
    {r : FileSystem × Int} (action : s.fwrite fd buf = some r) : r = (s, SYSERR) := by
  simp only [fwrite, Int.toNat_natCast] at action
  split at action
  · cases action
  · split at action
    · simpa using action.symm
    · split at action
      · simpa using action.symm
      · split at action
        · simpa using action.symm
        · rename_i state mode length
          split at action
          · cases action
          · split at action
            · simpa using action.symm
            · rename_i bound
              refine absurd ⟨by simpa using state, ?_, ?_, ?_⟩ refused
              · by_cases wronly : (s.oft fd).mode = O_WRONLY
                · exact .inl wronly
                · exact .inr (Decidable.not_not.mp fun rdwr => mode ⟨wronly, rdwr⟩)
              · rintro rfl
                simp at length
              · simp only [MDEV_BLOCK_SIZE, INODEDIRECTBLOCKS, INODEBLOCKS] at bound
                omega

theorem fwrite_loop (fmt : Formatted n s) {fd : Nat} (range : fd < NUM_FD) {buf : List Byte}
    (writes : s.writes fd buf) :
    s.fwrite fd buf =
      match fwriteLoop fd buf.length (s.filled fd (buf.take (s.headLength fd buf)))
        (buf.drop (s.headLength fd buf)) with
      | none => none
      | some (s, false) => some (s, SYSERR)
      | some (s₂, true) => some (s₂.fwriteDone fd
          (decide (buf.length + (s.oft fd).fileptr > (s.oft fd).inode.size.toInt)), (buf.length : Int)) := by
  obtain ⟨opened, mode, nonempty, bound⟩ := writes
  have more : 0 < buf.length := List.length_pos_iff.mpr nonempty
  have inRange : (0 : Int) ≤ fd ∧ (fd : Int) < NUM_FD := by omega
  have writable : ¬ ((s.oft fd).mode ≠ O_WRONLY ∧ (s.oft fd).mode ≠ O_RDWR) := by
    rintro ⟨wronly, rdwr⟩
    exact mode.elim wronly rdwr
  have limit : ((MDEV_BLOCK_SIZE * INODEDIRECTBLOCKS : Nat) : Int) = 5120 := rfl
  have fill : s.fill fd ((s.oft fd).fileptr % 512) (buf.take (s.headLength fd buf)) =
      some (s.filled fd (buf.take (s.headLength fd buf))) := fill_eq fmt fd (by omega) _
  simp only [fwrite, Int.toNat_natCast, inRange, opened, limit]
  rw [if_neg (by simp), if_neg (by simp), if_neg writable, if_neg (by omega), if_neg (by omega),
    if_neg (by omega)]
  have size : ((MDEV_BLOCK_SIZE : Nat) : Int) = 512 := rfl
  have head : min buf.length (512 - (s.oft fd).fileptr % 512).toNat = s.headLength fd buf := rfl
  rw [size, head]
  exact fill ▸ rfl

theorem fwrite_spec (ready : Ready n s) {fd : Nat} (range : fd < NUM_FD) {buf : List Byte}
    (writes : s.writes fd buf) (position : 0 ≤ (s.oft fd).fileptr) :
    ∃ s', Extended (s.filled fd (buf.take (s.headLength fd buf))) s' fd
        (s.granted (s.needed fd buf))
        ((buf.drop (s.headLength fd buf)).take (512 * (s.granted (s.needed fd buf)).length)) ∧
      s.fwrite fd buf =
        some (if (s.granted (s.needed fd buf)).length = s.needed fd buf then
            (s'.fwriteDone fd (decide (buf.length + (s.oft fd).fileptr > (s.oft fd).inode.size.toInt)),
              (buf.length : Int))
          else (s', SYSERR)) := by
  have ready' : Ready n (s.filled fd (buf.take (s.headLength fd buf))) :=
    ⟨ready.fmt.same rfl, ready.room, ready.low, ready.high, ready.bitmap⟩
  have rest : (buf.drop (s.headLength fd buf)).length = buf.length - s.headLength fd buf :=
    List.length_drop
  have loop : ∃ s', Extended (s.filled fd (buf.take (s.headLength fd buf))) s' fd
        (s.granted (s.needed fd buf))
        ((buf.drop (s.headLength fd buf)).take (512 * (s.granted (s.needed fd buf)).length)) ∧
      fwriteLoop fd buf.length (s.filled fd (buf.take (s.headLength fd buf)))
          (buf.drop (s.headLength fd buf)) =
        some (s', decide ((s.granted (s.needed fd buf)).length = s.needed fd buf)) := by
    by_cases all : buf.drop (s.headLength fd buf) = []
    · have none : s.needed fd buf = 0 := by
        rw [all, List.length_nil] at rest
        simp only [needed]
        omega
      rw [all, none]
      refine ⟨_, .none ready'.low ready'.high rfl, ?_⟩
      cases buf.length <;> simp [fwriteLoop, granted, probes]
    · -- the first block is full, so the loop starts at the start of a block
      have some : 0 < (buf.drop (s.headLength fd buf)).length := List.length_pos_iff.mpr all
      have length : (buf.take (s.headLength fd buf)).length = s.headLength fd buf := by
        rw [List.length_take]
        omega
      have pointer : ((s.filled fd (buf.take (s.headLength fd buf))).oft fd).fileptr =
          (s.oft fd).fileptr + s.headLength fd buf := by
        simp only [filled, Function.update_self, length]
      have full : (s.headLength fd buf : Int) = 512 - (s.oft fd).fileptr % 512 := by
        simp only [headLength] at rest some ⊢
        omega
      have fewer : (buf.drop (s.headLength fd buf)).length ≤ buf.length := by omega
      have spec := fwriteLoop_spec ready' fd fewer (by omega) (by omega)
      rw [rest] at spec
      exact spec
  obtain ⟨s', given, loop⟩ := loop
  refine ⟨s', given, ?_⟩
  rw [fwrite_loop ready.fmt range writes, loop]
  by_cases enough : (s.granted (s.needed fd buf)).length = s.needed fd buf <;> simp [enough]

end
end FileSystem
end Xinu
