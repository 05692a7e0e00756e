import Xinu.Proof.FileSystem.Ownership

namespace Xinu.FileSystem
open Lib

section
variable {n : Nat} {s s' : FileSystem}

structure Running (n : Nat) (s : FileSystem) : Prop where
  fmt : Formatted n s
  cursor : s.firstDataBlock < MDEV_NUM_BLOCKS →
    s.firstDataBlock ≤ s.nextFreeDataBlock ∧ s.nextFreeDataBlock < MDEV_NUM_BLOCKS
  bitmap : s.marked BM_BLK = true
  position : ∀ fd, (s.oft fd).opened = true → 0 ≤ (s.oft fd).fileptr

theorem Running.ready (running : Running n s) (room : s.firstDataBlock < MDEV_NUM_BLOCKS) : Ready n s :=
  ⟨running.fmt, room, (running.cursor room).1, (running.cursor room).2, running.bitmap⟩

def geometry (s : FileSystem) : (Nat × Nat × Nat × Nat × Nat) × (Nat → Byte) × Nat :=
  ((s.nblocks, s.blocksz, s.ninodes, s.freemaskbytes, s.dev0Blocksize), s.freemask, s.nextFreeDataBlock)

theorem Running.same (running : Running n s) (same : s'.geometry = s.geometry)
    (position : ∀ fd, (s'.oft fd).opened = true → 0 ≤ (s'.oft fd).fileptr) : Running n s' := by
  simp only [geometry, Prod.mk.injEq] at same
  obtain ⟨sizes, mask, next⟩ := same
  have first : s'.firstDataBlock = s.firstDataBlock := by
    have perBlock : s'.inodesPerBlock = s.inodesPerBlock := by rw [inodesPerBlock, sizes.2.1, inodesPerBlock]
    rw [firstDataBlock, numInodeBlocks, perBlock, sizes.2.2.1, firstDataBlock, numInodeBlocks]
  constructor
  · exact running.fmt.same (by simp only [sizes])
  · rw [first, next]
    exact running.cursor
  · rw [marked, mask]
    exact running.bitmap
  · exact position

theorem putInodeByNum_device (dev i : Int) (x : Inode) :
    ∃ device, s.putInodeByNum dev i x = { s with dev0Blocks := device } := by
  by_cases none : s.dev0Blocksize = 0
  · have nothing : s.putInodeByNum dev i x = s := by simp [putInodeByNum, bread, none]
    exact ⟨s.dev0Blocks, nothing⟩
  · by_cases refused : dev ≠ 0 ∨ i > s.ninodes
    · refine ⟨s.dev0Blocks, ?_⟩
      rcases refused with refused | refused
      · rw [putInodeByNum, if_pos refused]
      · by_cases first : dev ≠ 0
        · rw [putInodeByNum, if_pos first]
        · rw [putInodeByNum, if_neg first, if_pos refused]
    · rw [not_or] at refused
      rw [putInodeByNum, if_neg refused.1, if_neg refused.2]
      simp only [bread, bwrite]
      rw [if_neg (by omega)]
      simp only
      rw [if_neg (by omega)]
      exact ⟨_, rfl⟩

def opensAtStart (s s' : FileSystem) : Prop :=
  ∀ fd, s'.oft fd = s.oft fd ∨ (s'.oft fd).fileptr = 0

theorem opensAtStart.position (opens : opensAtStart s s') (running : Running n s) (fd : Nat)
    (opened : (s'.oft fd).opened = true) : 0 ≤ (s'.oft fd).fileptr := by
  rcases opens fd with same | start
  · rw [same] at opened ⊢
    exact running.position fd opened
  · exact Int.le_of_eq start.symm

theorem fcreate_keeps (filename : List Byte) (mode : Int) :
    (s.fcreate filename mode).1.geometry = s.geometry ∧ opensAtStart s (s.fcreate filename mode).1 := by
  have keep : s.geometry = s.geometry ∧ opensAtStart s s := ⟨rfl, fun _ => .inl rfl⟩
  have update (oft : Nat → Filetable) (fd : Nat) (ft : Filetable) (start : ft.fileptr = 0) (fd' : Nat)
      (before : oft fd' = s.oft fd' ∨ (oft fd').fileptr = 0) :
      Function.update oft fd ft fd' = s.oft fd' ∨ (Function.update oft fd ft fd').fileptr = 0 := by
    by_cases same : fd' = fd
    · rw [same, Function.update_self]
      exact .inr start
    · rw [Function.update_of_ne same]
      exact before
  simp only [fcreate]
  split
  · exact keep
  · split
    · exact keep
    · split
      · exact keep
      · split
        · exact ⟨rfl, fun _ => .inl rfl⟩
        · split
          · exact ⟨rfl, fun fd' => update _ _ _ rfl fd' (.inl rfl)⟩
          · refine ⟨?_, ?_⟩
            · rename_i x _ _
              obtain ⟨device, put⟩ := putInodeByNum_device (s := _) 0 _ _
              rw [put]
              rfl
            · intro fd'
              obtain ⟨device, put⟩ := putInodeByNum_device (s := _) 0 _ _
              rw [put]
              exact update _ _ _ rfl fd' (update _ _ _ rfl fd' (.inl rfl))

theorem fopen_keeps (filename : List Byte) (flags : Int) :
    (s.fopen filename flags).1.geometry = s.geometry ∧ opensAtStart s (s.fopen filename flags).1 := by
  simp only [fopen]
  split
  · exact ⟨rfl, fun _ => .inl rfl⟩
  · split
    · exact ⟨rfl, fun _ => .inl rfl⟩
    · refine ⟨rfl, fun fd' => ?_⟩
      simp only [setFile]
      by_cases same : fd' = s.scanFd NUM_FD s.nextOpenFd
      · rw [same, Function.update_self]
        exact .inr rfl
      · rw [Function.update_of_ne same]
        exact .inl rfl

theorem Running.moved (running : Running n s) {fd : Nat} {q : Int} (position : 0 ≤ q) :
    Running n (s.moved fd q) := by
  refine running.same rfl ?_
  intro fd' opened
  simp only [FileSystem.moved] at opened ⊢
  by_cases same : fd' = fd
  · rw [same, Function.update_self]
    exact position
  · rw [Function.update_of_ne same] at opened ⊢
    exact running.position fd' opened

def freeBlocks (s : FileSystem) : Nat := (places (fun b => !s.marked b) s.firstDataBlock MDEV_NUM_BLOCKS).card

theorem enough_iff (ready : Ready n s) (fd : Nat) (buf : List Byte) :
    s.enough fd buf ↔ s.needed fd buf ≤ s.freeBlocks := by
  have found := length_probes (p := fun b => !s.marked b) (n := s.nblocks - s.firstDataBlock)
    (m := s.needed fd buf) ⟨ready.low, ready.high⟩ (by rw [ready.fmt.nblocks])
  rw [enough, granted, found, freeBlocks]
  omega

structure Advanced (s s' : FileSystem) (fd : Nat) (amount : Int) : Prop where
  rest : s' = { s with
    freemask := s'.freemask
    nextFreeDataBlock := s'.nextFreeDataBlock
    oft := s'.oft
    dev0Blocks := s'.dev0Blocks }
  cursor : s.firstDataBlock < MDEV_NUM_BLOCKS →
    s.firstDataBlock ≤ s'.nextFreeDataBlock ∧ s'.nextFreeDataBlock < MDEV_NUM_BLOCKS
  marked : ∀ b, s.marked b = true → s'.marked b = true
  file : ∃ x : Inode, x.id = (s.oft fd).inode.id ∧ x.size = (s.oft fd).inode.size ∧
    s'.oft = Function.update s.oft fd { s.oft fd with fileptr := (s.oft fd).fileptr + amount, inode := x }

theorem filled_advanced (running : Running n s) (fd : Nat) (buf : List Byte) :
    Advanced s (s.filled fd buf) fd buf.length :=
  ⟨rfl, running.cursor, fun _ used => used, (s.oft fd).inode, rfl, rfl, rfl⟩

theorem Advanced.extended {fd : Nat} {amount : Int} {s₁ : FileSystem} {bs : List Nat} {buf : List Byte}
    (advanced : Advanced s s₁ fd amount) (given : Extended s₁ s' fd bs buf) :
    Advanced s s' fd (amount + buf.length) := by
  have first : s₁.firstDataBlock = s.firstDataBlock := by
    rw [advanced.rest]
    rfl
  obtain ⟨x, id, size, file⟩ := advanced.file
  constructor
  · have rest := given.rest
    rw [advanced.rest] at rest
    exact rest
  · intro _
    rw [← first]
    exact ⟨given.low, given.high⟩
  · intro b used
    rw [given.marked, advanced.marked b used]
    rfl
  · refine ⟨(s₁.oft fd).inode.setBlocks ((s₁.oft fd).fileptr / 512).toNat bs, ?_, ?_, given.file.trans ?_⟩
    · exact Inode.setBlocks_fields.1.trans (by rw [file, Function.update_self]; exact id)
    · exact Inode.setBlocks_fields.2.trans (by rw [file, Function.update_self]; exact size)
    · rw [file, Function.update_idem, Function.update_self]
      simp only [Int.add_assoc]

theorem Running.advanced (running : Running n s) {fd : Nat} {amount : Int} (positive : 0 ≤ amount)
    (opened : (s.oft fd).opened = true) (advanced : Advanced s s' fd amount) : Running n s' := by
  obtain ⟨x, -, -, file⟩ := advanced.file
  have first : s'.firstDataBlock = s.firstDataBlock := by
    rw [advanced.rest]
    rfl
  constructor
  · rw [advanced.rest]
    exact running.fmt.same rfl
  · rw [first]
    exact advanced.cursor
  · exact advanced.marked BM_BLK running.bitmap
  · intro fd' opened'
    rw [file] at opened' ⊢
    by_cases same : fd' = fd
    · have position := running.position fd opened
      rw [same, Function.update_self]
      simp only
      omega
    · rw [Function.update_of_ne same] at opened' ⊢
      exact running.position fd' opened'

theorem fwriteDone_oft (fd : Nat) (eof : Bool) :
    (s.fwriteDone fd eof).geometry = s.geometry ∧ (s.fwriteDone fd eof).oft = Function.update s.oft fd
      { s.oft fd with inode := sized (s.oft fd).inode eof (s.oft fd).fileptr } := by
  simp only [fwriteDone]
  obtain ⟨device, put⟩ := putInodeByNum_device
    (s := s.setFile fd { s.oft fd with inode := sized (s.oft fd).inode eof (s.oft fd).fileptr }) 0
    (sized (s.oft fd).inode eof (s.oft fd).fileptr).id.toInt (sized (s.oft fd).inode eof (s.oft fd).fileptr)
  rw [sized] at put ⊢
  rw [put]
  exact ⟨rfl, rfl⟩

theorem fwrite_outcome (running : Running n s) {fd : Nat} (range : fd < NUM_FD) {buf : List Byte}
    (writes : s.writes fd buf) {r : FileSystem × Int} (action : s.fwrite fd buf = some r) :
    (s.needed fd buf ≤ s.freeBlocks ∧ ∃ s₂, Advanced s s₂ fd buf.length ∧
        r = (s₂.fwriteDone fd (s.eof fd buf), (buf.length : Int))) ∨
      (s.freeBlocks < s.needed fd buf ∧ ∃ amount, 0 < amount ∧ Advanced s r.1 fd amount ∧ r.2 = SYSERR) := by
  obtain ⟨taken, -, short, -⟩ := head_short (s := s) fd buf
  have more : 0 < buf.length := List.length_pos_iff.mpr writes.2.2.1
  have some : 0 < s.headLength fd buf := by
    simp only [headLength]
    omega
  have left : (buf.drop (s.headLength fd buf)).length = buf.length - s.headLength fd buf := List.length_drop
  have first := filled_advanced running fd (buf.take (s.headLength fd buf))
  rw [taken] at first
  by_cases room : s.firstDataBlock < MDEV_NUM_BLOCKS
  · have ready := running.ready room
    obtain ⟨s₂, given, result⟩ := fwrite_spec ready range writes (running.position fd writes.1)
    have advanced := first.extended given
    rw [result] at action
    have same := Option.some.inj action
    by_cases enough : (s.granted (s.needed fd buf)).length = s.needed fd buf
    · have amount : (s.headLength fd buf : Int) +
          ((buf.drop (s.headLength fd buf)).take (512 * (s.granted (s.needed fd buf)).length)).length =
          buf.length := by
        rw [enough, List.length_take, left, needed]
        omega
      rw [amount] at advanced
      rw [if_pos enough] at same
      exact .inl ⟨(enough_iff ready fd buf).mp enough, s₂, advanced, same.symm⟩
    · have lacking : s.freeBlocks < s.needed fd buf := Nat.not_le.mp fun fits =>
        enough ((enough_iff ready fd buf).mpr fits)
      rw [if_neg enough] at same
      subst same
      exact .inr ⟨lacking, _, by omega, advanced, rfl⟩
  · have full : (s.filled fd (buf.take (s.headLength fd buf))).nblocks ≤
        (s.filled fd (buf.take (s.headLength fd buf))).firstDataBlock := by
      change s.nblocks ≤ s.firstDataBlock
      rw [running.fmt.nblocks]
      exact Nat.not_lt.mp room
    rw [fwrite_loop running.fmt range writes] at action
    obtain ⟨fuel, length⟩ : ∃ fuel, buf.length = fuel + 1 := ⟨buf.length - 1, by omega⟩
    rw [length, fwriteLoop] at action
    by_cases all : buf.drop (s.headLength fd buf) = []
    · rw [all, List.length_nil] at left
      have whole : (s.headLength fd buf : Int) = buf.length := by omega
      rw [whole] at first
      rw [if_pos all, ← length] at action
      refine .inl ⟨?_, _, first, (Option.some.inj action).symm⟩
      have none : s.needed fd buf = 0 := by
        rw [needed, ← left]
      rw [none]
      exact Nat.zero_le _
    · rw [if_neg all, if_pos full] at action
      cases action

theorem Running.written (running : Running n s) {fd : Nat} (range : fd < NUM_FD) {buf : List Byte}
    {r : FileSystem × Int} (action : s.fwrite fd buf = some r) : Running n r.1 := by
  by_cases writes : s.writes fd buf
  · rcases fwrite_outcome running range writes action with
      ⟨-, s₂, advanced, rfl⟩ | ⟨-, amount, positive, advanced, -⟩
    · have running₂ := running.advanced (Int.natCast_nonneg _) writes.1 advanced
      obtain ⟨geometry, oft⟩ := fwriteDone_oft (s := s₂) fd (s.eof fd buf)
      refine running₂.same geometry ?_
      intro fd' opened
      simp only [oft] at opened ⊢
      by_cases same : fd' = fd
      · rw [same, Function.update_self] at opened ⊢
        exact running₂.position fd opened
      · rw [Function.update_of_ne same] at opened ⊢
        exact running₂.position fd' opened
    · exact running.advanced (Int.le_of_lt positive) writes.1 advanced
  · rw [fwrite_refused writes action]
    exact running

theorem Running.step (running : Running n s) {call : FileCall} (action : step call s = some s') :
    Running n s' := by
  cases call with
  | fcreate filename mode =>
      cases action
      obtain ⟨geometry, opens⟩ := fcreate_keeps (s := s) filename mode
      exact running.same geometry fun fd opened => opens.position running fd opened
  | fopen filename flags =>
      cases action
      obtain ⟨geometry, opens⟩ := fopen_keeps (s := s) filename flags
      exact running.same geometry fun fd opened => opens.position running fd opened
  | fwrite fd buf =>
      obtain ⟨r, write, rfl⟩ := Option.map_eq_some_iff.mp action
      obtain ⟨fd, rfl, range⟩ := fwrite_range write
      exact running.written range write
  | fread fd nbytes =>
      obtain ⟨r, read, rfl⟩ := Option.map_eq_some_iff.mp action
      rcases fread_cases read with same | ⟨fd, rfl, -, opened, q, same, low, -⟩
      · rw [same]
        exact running
      · have position := running.position fd opened
        rw [same]
        exact running.moved (by omega)
  | fseek fd offset =>
      obtain ⟨r, seek, rfl⟩ := Option.map_eq_some_iff.mp action
      rcases fseek_cases seek with same | ⟨fd, rfl, -, -, q, same, low, -⟩
      · rw [same]
        exact running
      · rw [same]
        exact running.moved low
  | fclose fd =>
      obtain ⟨r, close, rfl⟩ := Option.map_eq_some_iff.mp action
      rcases fclose_cases close with rfl | ⟨fd, rfl, -, -, rfl⟩
      · exact running
      · refine running.same rfl ?_
        intro fd' opened
        simp only at opened ⊢
        by_cases same : fd' = fd
        · rw [same, Function.update_self] at opened
          cases opened
        · rw [Function.update_of_ne same] at opened ⊢
          exact running.position fd' opened

theorem formatted_running (device : Int → Byte) (numInodes : Int) (address : Nat) (memory : Nat → Byte) :
    Running (if numInodes < 1 then DEFAULT_NUM_INODES else numInodes.toNat)
      (formatted device numInodes address memory) := by
  constructor
  · exact formatted_fmt device numInodes address memory
  · intro room
    exact ⟨Nat.le_refl _, room⟩
  · rw [marked, formatted_freemask (by decide)]
    decide
  · intro fd opened
    have closed : ((formatted device numInodes address memory).oft fd).opened = false := by
      by_cases range : fd < NUM_FD
      · simp only [formatted, mkfs]
        simp [closedFile, range]
      · simp [formatted, mkfs, range, bwrite, setmaskbit, unformatted]
    rw [closed] at opened
    cases opened

theorem reach_running {device : Int → Byte} {numInodes : Int} {address : Nat} {memory : Nat → Byte}
    (reach : Reach step (fun _ _ => True) (formatted device numInodes address memory) s) :
    Running (if numInodes < 1 then DEFAULT_NUM_INODES else numInodes.toNat) s :=
  reach.invariant (formatted_running device numInodes address memory)
    fun _ _ _ running _ action => running.step action

end
end Xinu.FileSystem
