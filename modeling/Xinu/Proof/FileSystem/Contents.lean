import Xinu.Proof.FileSystem.Ownership

namespace Xinu.FileSystem
open Lib

section
variable {n : Nat} {s : FileSystem} {x : Inode}

def byteAt (s : FileSystem) (x : Inode) (pos : Nat) : Byte :=
  s.dev0Blocks (512 * x.block (pos / 512) + (pos % 512 : Nat))

def bytesAt (s : FileSystem) (x : Inode) (pos len : Nat) : List Byte :=
  (List.range len).map fun j => s.byteAt x (pos + j)

theorem bytesAt_append (pos len len' : Nat) :
    s.bytesAt x pos (len + len') = s.bytesAt x pos len ++ s.bytesAt x (pos + len) len' := by
  simp only [bytesAt, List.range_add, List.map_append, List.map_map, Nat.add_assoc]
  rfl

theorem bytesAt_block {pos len : Nat} (within : pos % 512 + len ≤ 512) :
    load s.dev0Blocks (512 * x.block (pos / 512) + (pos % 512 : Nat)) len = s.bytesAt x pos len := by
  apply List.map_congr_left
  intro j member
  have bound := List.mem_range.mp member
  have block : (pos + j) / 512 = pos / 512 := by omega
  rw [byteAt, block]
  congr 1
  omega

theorem drain_eq (fmt : Formatted n s) (fd : Nat) {offset : Int} (within : offset < 512) (len : Nat) :
    s.drain fd offset len = some (s.moved fd ((s.oft fd).fileptr + len),
      load s.dev0Blocks (512 * (s.oft fd).inode.block ((s.oft fd).fileptr / 512).toNat + offset) len) := by
  simp only [drain]
  rw [fmt.bread within]
  rfl

theorem freadLoop_zero (fd fuel : Nat) : freadLoop fd fuel s 0 = (s, [], true) := by
  cases fuel <;> simp [freadLoop]

theorem freadLoop_eq (fmt : Formatted n s) (fd : Nat) {fuel m : Nat} (enough : m ≤ fuel) {pos : Nat}
    (position : (s.oft fd).fileptr = pos) (start : pos % 512 = 0)
    (blocks : ∀ k, 512 * k < pos + m → (s.oft fd).inode.block k ≠ -1) :
    freadLoop fd fuel s m =
      (s.moved fd (pos + m : Nat), s.bytesAt (s.oft fd).inode pos m, true) := by
  induction fuel generalizing s m pos with
  | zero =>
      obtain rfl : m = 0 := by omega
      rw [freadLoop_zero, Nat.add_zero, ← position, moved_self]
      rfl
  | succ fuel ih =>
      by_cases done : m = 0
      · subst done
        rw [freadLoop_zero, Nat.add_zero, ← position, moved_self]
        rfl
      · have index : ((s.oft fd).fileptr / 512).toNat = pos / 512 := by omega
        have present := blocks (pos / 512) (by omega)
        rw [← index] at present
        have first := drain_eq fmt fd (by decide : (0 : Int) < 512) (min m 512)
        rw [index, Int.add_zero] at first
        have within : pos % 512 + min m 512 ≤ 512 := by omega
        have read := bytesAt_block (s := s) (x := (s.oft fd).inode) within
        rw [start, Int.natCast_zero, Int.add_zero] at read
        have pointer : ((s.moved fd (pos + min m 512 : Nat)).oft fd).fileptr = (pos + min m 512 : Nat) := by
          simp [moved]
        have file : ((s.moved fd (pos + min m 512 : Nat)).oft fd).inode = (s.oft fd).inode := by
          simp [moved]
        have rest : freadLoop fd fuel (s.moved fd (pos + min m 512 : Nat)) (m - min m 512) =
            (s.moved fd (pos + m : Nat), s.bytesAt (s.oft fd).inode (pos + min m 512) (m - min m 512), true) := by
          by_cases last : m ≤ 512
          · rw [Nat.min_eq_left last, Nat.sub_self, freadLoop_zero]
            rfl
          · rw [ih (s := s.moved fd (pos + min m 512 : Nat)) (fmt.same rfl) (by omega) pointer (by omega)
              (by rw [file]; exact fun k bound => blocks k (by omega)), moved_moved, file,
              Nat.add_assoc, Nat.add_sub_of_le (Nat.min_le_left m 512)]
            rfl
        have whole : s.bytesAt (s.oft fd).inode pos m = s.bytesAt (s.oft fd).inode pos (min m 512) ++
            s.bytesAt (s.oft fd).inode (pos + min m 512) (m - min m 512) := by
          rw [← bytesAt_append, Nat.add_sub_of_le (Nat.min_le_left m 512)]
        have drained : s.drain fd 0 (min m MDEV_BLOCK_SIZE) =
            some (s.moved fd (pos + min m 512 : Nat), s.bytesAt (s.oft fd).inode pos (min m 512)) := by
          rw [← read, position] at *
          exact first
        simp only [freadLoop, done, if_false]
        refine (if_neg present).trans ?_
        rw [drained]
        simp only [MDEV_BLOCK_SIZE, rest, whole]

theorem fread_eq (fmt : Formatted n s) {fd : Nat} (range : fd < NUM_FD)
    (opened : (s.oft fd).opened = true)
    (mode : (s.oft fd).mode = O_RDONLY ∨ (s.oft fd).mode = O_RDWR) {pos m : Nat} (more : 0 < m)
    (position : (s.oft fd).fileptr = pos) (inside : pos + m ≤ (s.oft fd).inode.size.toInt)
    (limit : (s.oft fd).inode.size.toInt < 5120)
    (blocks : ∀ k, 512 * k < pos + m → (s.oft fd).inode.block k ≠ -1) :
    s.fread fd m = some (s.moved fd (pos + m : Nat), s.bytesAt (s.oft fd).inode pos m, (m : Int)) := by
  have inRange : (0 : Int) ≤ fd ∧ (fd : Int) < NUM_FD := by omega
  have readable : ¬ ((s.oft fd).mode ≠ O_RDONLY ∧ (s.oft fd).mode ≠ O_RDWR) := by
    rintro ⟨rdonly, rdwr⟩
    exact mode.elim rdonly rdwr
  have most : ((MDEV_BLOCK_SIZE * INODEDIRECTBLOCKS : Nat) : Int) = 5120 := rfl
  -- the bytes of the first block
  obtain ⟨l, length⟩ : ∃ l, l = min m (512 - pos % 512) := ⟨_, rfl⟩
  have chunk : min m (512 - (s.oft fd).fileptr % 512).toNat = l := by omega
  have index : ((s.oft fd).fileptr / 512).toNat = pos / 512 := by omega
  have offset : (s.oft fd).fileptr % 512 = (pos % 512 : Nat) := by omega
  have first : s.drain fd ((s.oft fd).fileptr % 512) l =
      some (s.moved fd (pos + l : Nat), s.bytesAt (s.oft fd).inode pos l) := by
    rw [drain_eq fmt fd (by omega), index, offset, bytesAt_block (by omega), position]
    rfl
  have pointer : ((s.moved fd (pos + l : Nat)).oft fd).fileptr = (pos + l : Nat) := by simp [moved]
  have file : ((s.moved fd (pos + l : Nat)).oft fd).inode = (s.oft fd).inode := by simp [moved]
  have rest : freadLoop fd m (s.moved fd (pos + l : Nat)) (m - l) =
      (s.moved fd (pos + m : Nat), s.bytesAt (s.oft fd).inode (pos + l) (m - l), true) := by
    by_cases all : l = m
    · rw [all, Nat.sub_self, freadLoop_zero]
      rfl
    · rw [freadLoop_eq (s := s.moved fd (pos + l : Nat)) (fmt.same rfl) fd (by omega) pointer (by omega)
        (by rw [file]; exact fun k bound => blocks k (by omega)), moved_moved, file, Nat.add_assoc,
        Nat.add_sub_of_le (by omega)]
      rfl
  have whole : s.bytesAt (s.oft fd).inode pos m =
      s.bytesAt (s.oft fd).inode pos l ++ s.bytesAt (s.oft fd).inode (pos + l) (m - l) := by
    rw [← bytesAt_append, Nat.add_sub_of_le (by omega)]
  simp only [fread, Int.toNat_natCast, inRange, opened, most]
  rw [if_neg (by simp), if_neg (by simp), if_neg readable, if_neg (by omega), if_neg (by omega),
    if_neg (by omega), if_neg (by omega), if_neg (by omega)]
  simp only [Int.toNat_natCast]
  have blockSize : (MDEV_BLOCK_SIZE : Int) = 512 := rfl
  simp only [blockSize, chunk, first, rest, whole, if_true]

section
variable {fd : Nat} {buf : List Byte} {s₂ : FileSystem}

def keepsTail (s : FileSystem) (fd : Nat) (buf : List Byte) : Prop :=
  s.needed fd buf = 0 ∨ (s.oft fd).inode.size.toInt ≤ (s.oft fd).fileptr + buf.length ∨
    ((s.oft fd).fileptr + buf.length) % 512 = 0

namespace Writing
variable (w : Writing n s fd buf s₂)
include w

theorem block {k : Nat} (bound : k < INODEBLOCKS) :
    (s₂.oft fd).inode.block k =
      if s.current fd + 1 ≤ k ∧ k < s.current fd + 1 + (s.granted (s.needed fd buf)).length then
        (((s.granted (s.needed fd buf)).getD (k - (s.current fd + 1)) 0 : Nat) : Int)
      else (s.oft fd).inode.block k := by
  obtain ⟨granted, _⟩ := granted_spec w.ready (s.needed fd buf)
  obtain ⟨last, start⟩ := w.start
  have small (b : Nat) (member : b ∈ s.granted (s.needed fd buf)) : b < 2 ^ 31 := by
    have := (granted b member).2.2
    simp only [MDEV_NUM_BLOCKS] at this
    omega
  rw [w.given.file, Function.update_self]
  simp only
  rw [Inode.block_setBlocks small (by simp only [INODEBLOCKS]; omega) bound]
  have file : ((s.filled fd (buf.take (s.headLength fd buf))).oft fd).inode = (s.oft fd).inode := by
    simp [filled]
  by_cases none : (s.granted (s.needed fd buf)).length = 0
  · rw [if_neg (by omega), if_neg (by omega), file]
  · rw [start (by omega), file]

theorem byte_keep {b : Int} (data : (s.firstDataBlock : Int) ≤ b)
    (other : b ≠ (s.oft fd).inode.block (s.current fd))
    (fresh : ∀ g ∈ s.granted (s.needed fd buf), (g : Int) ≠ b) {o : Nat} (within : o < 512) :
    s₂.dev0Blocks (512 * b + o) = s.dev0Blocks (512 * b + o) := by
  have above := w.ready.above (Nat.le_refl _)
  apply w.device
  · omega
  · omega
  · intro g member inside
    have := fresh g member
    omega

theorem byte_head
    (fresh : ∀ g ∈ s.granted (s.needed fd buf), (g : Int) ≠ (s.oft fd).inode.block (s.current fd))
    {pos : Nat} (here : pos / 512 = s.current fd) :
    s₂.dev0Blocks (512 * (s.oft fd).inode.block (s.current fd) + (pos % 512 : Nat)) =
      if (s.oft fd).fileptr ≤ pos ∧ pos < (s.oft fd).fileptr + s.headLength fd buf then
        buf.getD (pos - (s.oft fd).fileptr).toNat 0
      else s.dev0Blocks (512 * (s.oft fd).inode.block (s.current fd) + (pos % 512 : Nat)) := by
  obtain ⟨length, short, whole, _⟩ := s.head_short fd buf
  have above := w.ready.above (Nat.le_refl _)
  have data := w.data
  have position := w.filed.position
  have cur : s.current fd = ((s.oft fd).fileptr / 512).toNat := rfl
  rw [w.given.device _ (by omega) fun g member inside => fresh g member (by omega)]
  simp only [filled]
  rw [← cur]
  split
  · rename_i written
    rw [store_within (by rw [length]; omega) 0]
    have index : (512 * (s.oft fd).inode.block (s.current fd) + (pos % 512 : Nat) -
        (512 * (s.oft fd).inode.block (s.current fd) + (s.oft fd).fileptr % 512)).toNat =
          (pos - (s.oft fd).fileptr).toNat := by omega
    rw [index, List.getD_eq_getElem _ _ (by omega), List.getElem_take,
      List.getD_eq_getElem _ _ (by omega)]
  · rename_i outside
    rw [store_off (by rw [length]; omega)]

theorem byte_loop (enough : s.enough fd buf) {pos : Nat}
    (low : s.current fd + 1 ≤ pos / 512) (high : (pos : Int) < (s.oft fd).fileptr + buf.length) :
    s₂.dev0Blocks (512 * ((s.granted (s.needed fd buf)).getD (pos / 512 - (s.current fd + 1)) 0 : Nat) +
        (pos % 512 : Nat)) = buf.getD (pos - (s.oft fd).fileptr).toNat 0 := by
  obtain ⟨_, short, whole, full⟩ := s.head_short fd buf
  have position := w.filed.position
  have need : s.needed fd buf = (buf.length - s.headLength fd buf + 511) / 512 := rfl
  have cur : s.current fd = ((s.oft fd).fileptr / 512).toNat := rfl
  have all : (buf.drop (s.headLength fd buf)).take (512 * (s.granted (s.needed fd buf)).length) =
      buf.drop (s.headLength fd buf) := by
    apply List.take_of_length_le
    rw [List.length_drop, enough]
    omega
  have content := w.given.content (pos - 512 * (s.current fd + 1)) (by rw [all, List.length_drop]; omega)
  have block : (pos - 512 * (s.current fd + 1)) / 512 = pos / 512 - (s.current fd + 1) := by omega
  have offset : (pos - 512 * (s.current fd + 1)) % 512 = pos % 512 := by omega
  rw [all, block, offset] at content
  have index : s.headLength fd buf + (pos - 512 * (s.current fd + 1)) =
      (pos - (s.oft fd).fileptr).toNat := by omega
  rw [content, List.getD_eq_getElem _ _ (by rw [List.length_drop]; omega), List.getElem_drop,
    List.getD_eq_getElem _ _ (by omega)]
  simp only [index]

theorem byte_done {b : Int} (data : (s.firstDataBlock : Int) ≤ b) (o : Nat) :
    (s₂.fwriteDone fd (s.eof fd buf)).dev0Blocks (512 * b + o) = s₂.dev0Blocks (512 * b + o) := by
  have files := w.loop_files
  obtain ⟨e, i, entry, id⟩ := (files.filed fd w.range w.oft.1).named
  have bound := files.bound entry
  have below := w.files.fmt.slot_below bound
  rw [fwriteDone_eq files.fmt files.word bound id]
  apply store_off
  rw [Inode.length_encode, Inode.SIZE]
  omega

section
variable (owned : s.Owned s.extents) (entitled : s.Entitled fd)
  (unheld : ∀ b ∈ s.granted (s.needed fd buf), ∀ i k, ¬ s.Holds (s.reached fd) i k b)
  {e i : Nat} (entry : s.names e i) (id : (s.oft fd).inode.id = BitVec.ofNat 32 i)
include entry id

theorem self_holds {k : Nat} (within : k < s.reached fd fd) :
    s.Holds (s.reached fd) i k ((s.oft fd).inode.block k) :=
  .inr ⟨fd, e, w.range, w.writes.1, entry, id, within, rfl⟩

include owned entitled unheld

theorem byte_other {j k : Nat} {b : Int} (held : s.Holds (s.reached fd) j k b)
    (apart : ¬ (j = i ∧ k = s.current fd)) {o : Nat} (within : o < 512) :
    (s₂.fwriteDone fd (s.eof fd buf)).dev0Blocks (512 * b + o) = s.dev0Blocks (512 * b + o) := by
  have reached := owned.upto w.files.toDirectory entitled
  have data := (reached.data _ _ _ held).1
  have self := w.self_holds entry id (k := s.current fd) (by
    rw [FileSystem.reached, Function.update_self]
    omega)
  rw [w.byte_done data]
  apply w.byte_keep data _ _ within
  · rintro rfl
    exact apart (reached.unique _ _ _ _ _ held self)
  · rintro g member rfl
    exact unheld g member j k held

theorem contents (enough : s.enough fd buf) (tail : s.keepsTail fd buf)
    (ends : (s.oft fd).fileptr ≤ (s.oft fd).inode.size.toInt) {pos : Nat}
    (inside : (pos : Int) < (s.oft fd).inode.size.toInt ∨
      (pos : Int) < (s.oft fd).fileptr + buf.length) :
    (s₂.fwriteDone fd (s.eof fd buf)).byteAt (s₂.oft fd).inode pos =
      if (s.oft fd).fileptr ≤ pos ∧ pos < (s.oft fd).fileptr + buf.length then
        buf.getD (pos - (s.oft fd).fileptr).toNat 0
      else s.byteAt (s.oft fd).inode pos := by
  obtain ⟨_, short, whole, full⟩ := s.head_short fd buf
  obtain ⟨granted, _⟩ := granted_spec w.ready (s.needed fd buf)
  have filed := w.filed
  have position := filed.position
  have limit := filed.whole
  have bound := w.writes.2.2.2
  have need : s.needed fd buf = (buf.length - s.headLength fd buf + 511) / 512 := rfl
  have cur : s.current fd = ((s.oft fd).fileptr / 512).toNat := rfl
  have count : (s.granted (s.needed fd buf)).length = s.needed fd buf := enough
  have reached : s.reached fd fd = max (s.extents fd) (s.current fd + 1) := Function.update_self _ _ _
  have ext : s.extents fd = ((s.oft fd).inode.size.toInt.toNat + 511) / 512 := rfl
  rw [byteAt, w.block (by simp only [INODEBLOCKS]; omega)]
  by_cases new : s.current fd + 1 ≤ pos / 512 ∧
      pos / 512 < s.current fd + 1 + (s.granted (s.needed fd buf)).length
  · have written : (pos : Int) < (s.oft fd).fileptr + buf.length := by
      rcases tail with none | past | exact'
      · omega
      · omega
      · omega
    have member := getD_mem (by omega : pos / 512 - (s.current fd + 1) < (s.granted (s.needed fd buf)).length)
    have data := (granted _ member).2.1
    rw [if_pos new, w.byte_done (by omega), w.byte_loop enough new.1 written, if_pos (by omega)]
  · rw [if_neg new]
    by_cases here : pos / 512 = s.current fd
    · have self := w.self_holds entry id (k := s.current fd) (by omega)
      rw [here, w.byte_done w.data, w.byte_head _ here]
      · by_cases written : (s.oft fd).fileptr ≤ pos ∧ (pos : Int) < (s.oft fd).fileptr + buf.length
        · rw [if_pos written, if_pos (by omega)]
        · rw [if_neg written, if_neg (by omega), byteAt, here]
      · rintro g member same
        exact unheld g member i (s.current fd) (same ▸ self)
    · have self := w.self_holds entry id (k := pos / 512) (by omega)
      rw [w.byte_other owned entitled unheld entry id self (by omega) (by omega), if_neg (by omega)]
      rfl

end
end Writing
end

/-- A file system, and for every position of every directory entry the byte that was last written
there by an `fwrite` that did not fail. -/
structure Traced where
  fs : FileSystem
  written : Nat → Nat → Option Byte

def recorded (written : Nat → Nat → Option Byte) (ft : Filetable) (buf : List Byte) :
    Nat → Nat → Option Byte :=
  fun e pos =>
    if ft.de = some e ∧ ft.fileptr ≤ pos ∧ pos < ft.fileptr + buf.length then
      some (buf.getD (pos - ft.fileptr).toNat 0)
    else written e pos

def Traced.step (call : FileCall) (t : Traced) : Option Traced :=
  match call with
  | .fwrite fd buf => (t.fs.fwrite fd buf).map fun r =>
      ⟨r.1, if r.2 = SYSERR then t.written else recorded t.written (t.fs.oft fd.toNat) buf⟩
  | call => (FileSystem.step call t.fs).map fun s => ⟨s, t.written⟩

def separate (s : FileSystem) : FileCall → Prop
  | .fopen filename _ => ∀ e, s.lookup filename = some e →
      ∀ fd, fd < NUM_FD → (s.oft fd).opened = true → (s.oft fd).de ≠ some e
  | _ => True

/-- The blocks that `fwrite` takes from the inode and from the mask belong to no other file, there
are enough of them, and no end of an old block is lost. -/
structure Sound (s : FileSystem) (fd : Nat) (buf : List Byte) : Prop where
  entitled : s.Entitled fd
  unheld : ∀ b ∈ s.granted (s.needed fd buf), ∀ i k, ¬ s.Holds (s.reached fd) i k b
  enough : s.enough fd buf
  tail : s.keepsTail fd buf

def sound (s : FileSystem) : FileCall → Prop
  | .fcreate filename mode => s.creates filename mode → s.provided
  | .fopen filename _ => filename ≠ []
  | .fwrite fd buf => s.writes fd.toNat buf → s.Sound fd.toNat buf
  | _ => True

structure Copies (s : FileSystem) (fd e i : Nat) : Prop where
  de : (s.oft fd).de = some e
  entry : s.names e i
  inode : (s.oft fd).inode = s.inode i

structure Saved (n : Nat) (t : Traced) : Prop where
  files : Files n t.fs
  owned : t.fs.Owned t.fs.extents
  copies : ∀ fd, fd < NUM_FD → (t.fs.oft fd).opened = true → ∃ e i, t.fs.Copies fd e i
  single : ∀ fd fd', fd < NUM_FD → fd' < NUM_FD → (t.fs.oft fd).opened = true →
    (t.fs.oft fd').opened = true → (t.fs.oft fd).de = (t.fs.oft fd').de → fd = fd'
  pointer : ∀ fd, fd < NUM_FD → (t.fs.oft fd).opened = true →
    (t.fs.oft fd).fileptr ≤ (t.fs.oft fd).inode.size.toInt
  content : ∀ e i pos : Nat, t.fs.names e i → (pos : Int) < (t.fs.inode i).size.toInt →
    t.written e pos = some (t.fs.byteAt (t.fs.inode i) pos)

theorem Copies.id {fd e i : Nat} (copies : s.Copies fd e i) (dir : Directory n s) :
    (s.oft fd).inode.id = BitVec.ofNat 32 i := by
  rw [copies.inode, dir.id e i copies.entry]

section
variable {t : Traced}

theorem Saved.created (saved : Saved n t) {fd i : Nat} {filename : List Byte} {mode : Int}
    (creates : t.fs.creates filename mode) (room : t.fs.numentries < DIRECTORY_SIZE)
    (bound : fd < NUM_FD) (inRange : i < n) (free : (t.fs.inode i).free n = true) :
    Saved n ⟨t.fs.created fd i filename, t.written⟩ := by
  have files := saved.files
  have old {fd' : Nat} (other : fd' ≠ fd) : (t.fs.created fd i filename).oft fd' = t.fs.oft fd' :=
    Function.update_of_ne other _ _
  have new : (t.fs.created fd i filename).oft fd =
      ⟨true, 0, O_RDWR, some t.fs.numentries, t.fs.emptyInode i⟩ := Function.update_self _ _ _
  have earlier {fd' : Nat} (range : fd' < NUM_FD) (opened : (t.fs.oft fd').opened = true) :
      (t.fs.oft fd').de ≠ some t.fs.numentries := by
    obtain ⟨e, _, copies⟩ := saved.copies fd' range opened
    rw [copies.de]
    intro same
    have := copies.entry.1
    simp only [Option.some.injEq] at same
    omega
  constructor
  · exact files.created creates room bound inRange free
  · exact saved.owned.fewer rfl (created_holds files free fd filename inRange)
  · intro fd' range opened
    by_cases same : fd' = fd
    · subst same
      refine ⟨t.fs.numentries, i, by rw [new], created_names.mpr (.inr ⟨rfl, rfl⟩), ?_⟩
      rw [new, created_inode_self]
    · simp only [old same] at opened
      obtain ⟨e, j, copies⟩ := saved.copies fd' range opened
      refine ⟨e, j, by rw [old same, copies.de], created_names.mpr (.inl copies.entry), ?_⟩
      rw [old same, created_inode_other (files.other copies.entry free), copies.inode]
  · intro fd' fd'' range range' opened opened' same
    simp only at opened opened' same
    by_cases first : fd' = fd <;> by_cases second : fd'' = fd
    · rw [first, second]
    · rw [first, new, old second] at same
      rw [old second] at opened'
      exact absurd same.symm (earlier range' opened')
    · rw [second, new, old first] at same
      rw [old first] at opened
      exact absurd same (earlier range opened)
    · rw [old first, old second] at same
      rw [old first] at opened
      rw [old second] at opened'
      exact saved.single fd' fd'' range range' opened opened' same
  · intro fd' range opened
    simp only at opened ⊢
    by_cases same : fd' = fd
    · rw [same, new]
      simp [emptyInode]
    · rw [old same] at opened ⊢
      exact saved.pointer fd' range opened
  · intro e j pos entry inside
    simp only at entry inside ⊢
    rcases created_names.mp entry with entry | ⟨rfl, rfl⟩
    · rw [created_inode_other (files.other entry free)] at inside ⊢
      rw [saved.content e j pos entry inside, byteAt, byteAt]
      have held : t.fs.Holds t.fs.extents j (pos / 512) ((t.fs.inode j).block (pos / 512)) := by
        refine .inl ⟨e, entry, ?_, rfl⟩
        rw [Inode.extent]
        omega
      have data := (saved.owned.data _ _ _ held).1
      have below := files.fmt.slot_below inRange
      congr 1
      apply (store_off _).symm
      rw [Inode.length_encode, Inode.SIZE]
      omega
    · rw [created_inode_self] at inside
      simp [emptyInode] at inside
      omega

theorem Saved.reopened (saved : Saved n t) {fd e i : Nat} (flags : Int) (bound : fd < NUM_FD)
    (entry : t.fs.names e i)
    (closed : ∀ fd, fd < NUM_FD → (t.fs.oft fd).opened = true → (t.fs.oft fd).de ≠ some e) :
    Saved n ⟨t.fs.reopened fd e i flags, t.written⟩ := by
  have files := saved.files
  have old {fd' : Nat} (other : fd' ≠ fd) : (t.fs.reopened fd e i flags).oft fd' = t.fs.oft fd' :=
    Function.update_of_ne other _ _
  have new : (t.fs.reopened fd e i flags).oft fd = ⟨true, 0, flags, some e, t.fs.inode i⟩ :=
    Function.update_self _ _ _
  constructor
  · exact files.reopened flags bound entry
  · exact saved.owned.fewer rfl (reopened_holds files.toDirectory entry fd flags)
  · intro fd' range opened
    by_cases same : fd' = fd
    · subst same
      exact ⟨e, i, by rw [new], entry, by rw [new]; rfl⟩
    · simp only [old same] at opened
      obtain ⟨e', j, copies⟩ := saved.copies fd' range opened
      exact ⟨e', j, by rw [old same, copies.de], copies.entry, by rw [old same, copies.inode]; rfl⟩
  · intro fd' fd'' range range' opened opened' same
    simp only at opened opened' same
    by_cases first : fd' = fd <;> by_cases second : fd'' = fd
    · rw [first, second]
    · rw [first, new, old second] at same
      rw [old second] at opened'
      exact absurd same.symm (closed fd'' range' opened')
    · rw [second, new, old first] at same
      rw [old first] at opened
      exact absurd same (closed fd' range opened)
    · rw [old first, old second] at same
      rw [old first] at opened
      rw [old second] at opened'
      exact saved.single fd' fd'' range range' opened opened' same
  · intro fd' range opened
    simp only at opened ⊢
    by_cases same : fd' = fd
    · rw [same, new]
      exact (files.stored e i entry).1
    · rw [old same] at opened ⊢
      exact saved.pointer fd' range opened
  · exact saved.content

theorem Saved.file (saved : Saved n t) {fd : Nat} {ft : Filetable}
    (files : Files n { t.fs with oft := Function.update t.fs.oft fd ft })
    (holds : ∀ i k b, ({ t.fs with oft := Function.update t.fs.oft fd ft } : FileSystem).Holds
      ({ t.fs with oft := Function.update t.fs.oft fd ft } : FileSystem).extents i k b →
      t.fs.Holds t.fs.extents i k b)
    (same : ft.opened = true → (t.fs.oft fd).opened = true ∧ ft.de = (t.fs.oft fd).de ∧
      ft.inode = (t.fs.oft fd).inode ∧ ft.fileptr ≤ ft.inode.size.toInt) :
    Saved n ⟨{ t.fs with oft := Function.update t.fs.oft fd ft }, t.written⟩ := by
  have file {fd' : Nat} (opened : (Function.update t.fs.oft fd ft fd').opened = true) :
      (t.fs.oft fd').opened = true ∧
        (Function.update t.fs.oft fd ft fd').de = (t.fs.oft fd').de ∧
        (Function.update t.fs.oft fd ft fd').inode = (t.fs.oft fd').inode := by
    by_cases here : fd' = fd
    · rw [here, Function.update_self] at opened ⊢
      exact ⟨(same opened).1, (same opened).2.1, (same opened).2.2.1⟩
    · rw [Function.update_of_ne here] at opened ⊢
      exact ⟨opened, rfl, rfl⟩
  constructor
  · exact files
  · exact saved.owned.fewer rfl holds
  · intro fd' range opened
    obtain ⟨before, de, inode⟩ := file opened
    obtain ⟨e, i, copies⟩ := saved.copies fd' range before
    exact ⟨e, i, de.trans copies.de, copies.entry, inode.trans copies.inode⟩
  · intro fd' fd'' range range' opened opened' equal
    obtain ⟨before, de, _⟩ := file opened
    obtain ⟨before', de', _⟩ := file opened'
    exact saved.single fd' fd'' range range' before before' (de.symm.trans (equal.trans de'))
  · intro fd' range opened
    by_cases here : fd' = fd
    · simp only [here, Function.update_self] at opened ⊢
      exact (same opened).2.2.2
    · simp only [Function.update_of_ne here] at opened ⊢
      exact saved.pointer fd' range opened
  · exact saved.content

variable {fd : Nat} {buf : List Byte} {s₂ : FileSystem}

theorem Writing.done_inode (w : Writing n s fd buf s₂) {i : Nat} (bound : i < n)
    (id : (s.oft fd).inode.id = BitVec.ofNat 32 i) {j : Nat} (other : j < n) :
    (s₂.fwriteDone fd (s.eof fd buf)).inode j =
      if i = j then sized (s₂.oft fd).inode (s.eof fd buf) (s₂.oft fd).fileptr else s.inode j := by
  have files := w.loop_files
  obtain ⟨granted, _⟩ := granted_spec w.ready (s.needed fd buf)
  rw [fwriteDone_inode files.fmt files.word bound (w.oft.2.1.trans id),
    w.given.inode_keep w.filled_files.fmt (fun b member => (granted b member).2.1) other,
    w.filled_inode other]

theorem Writing.done_oft (w : Writing n s fd buf s₂) :
    (s₂.fwriteDone fd (s.eof fd buf)).oft = Function.update s₂.oft fd { s₂.oft fd with
      inode := sized (s₂.oft fd).inode (s.eof fd buf) (s₂.oft fd).fileptr } ∧
    (s₂.fwriteDone fd (s.eof fd buf)).names = s.names := by
  have files := w.loop_files
  obtain ⟨e, i, entry, id⟩ := (files.filed fd w.range w.oft.1).named
  rw [fwriteDone_eq files.fmt files.word (files.bound entry) id]
  refine ⟨rfl, ?_⟩
  have names : s₂.names = s.names := by
    rw [w.given.rest]
    rfl
  exact names

theorem byteAt_sized (x : Inode) (eof : Bool) (q : Int) (pos : Nat) :
    s.byteAt (sized x eof q) pos = s.byteAt x pos := by
  rw [byteAt, byteAt, sized_fields.2]

theorem Saved.done (saved : Saved n t) (w : Writing n t.fs fd buf s₂) (sound : t.fs.Sound fd buf) :
    Saved n ⟨s₂.fwriteDone fd (t.fs.eof fd buf), recorded t.written (t.fs.oft fd) buf⟩ := by
  have files := saved.files
  obtain ⟨e, i, copies⟩ := saved.copies fd w.range w.writes.1
  have id := copies.id files.toDirectory
  have bound := files.bound copies.entry
  obtain ⟨oft, names⟩ := w.done_oft
  obtain ⟨opened, _, size, others⟩ := w.oft
  have de : (s₂.oft fd).de = some e := by
    rw [w.given.file, Function.update_self]
    simpa [filled] using copies.de
  have ends := w.pointer_done sound.enough
  have position := w.filed.position
  have limit := w.writes.2.2.2
  have within := saved.pointer fd w.range w.writes.1
  have grown : (sized (s₂.oft fd).inode (t.fs.eof fd buf) (s₂.oft fd).fileptr).size.toInt =
      if t.fs.eof fd buf then (s₂.oft fd).fileptr else (t.fs.oft fd).inode.size.toInt := by
    rw [sized_size _ _ (by omega) (by omega), size]
  have eof : t.fs.eof fd buf = true ↔
      (t.fs.oft fd).inode.size.toInt < (t.fs.oft fd).fileptr + buf.length := by
    simp only [FileSystem.eof, decide_eq_true_eq]
    omega
  have apart {fd' e' j : Nat} (other : fd' ≠ fd) (range : fd' < NUM_FD)
      (opened' : (t.fs.oft fd').opened = true) (copies' : t.fs.Copies fd' e' j) : i ≠ j := by
    rintro rfl
    apply other
    apply saved.single fd' fd range w.range opened' w.writes.1
    rw [copies'.de, copies.de, files.single e' e i copies'.entry copies.entry]
  constructor
  · exact w.done_files
  · exact w.owned_done saved.owned sound.entitled sound.unheld sound.enough
  · intro fd' range opened'
    simp only [oft] at opened' ⊢
    by_cases same : fd' = fd
    · subst same
      refine ⟨e, i, ?_, names ▸ copies.entry, ?_⟩
      · simp only [oft, Function.update_self, de]
      · rw [oft, Function.update_self, w.done_inode bound id bound, if_pos rfl]
    · rw [Function.update_of_ne same, others fd' same] at opened'
      obtain ⟨e', j, copies'⟩ := saved.copies fd' range opened'
      refine ⟨e', j, ?_, names ▸ copies'.entry, ?_⟩
      · rw [oft, Function.update_of_ne same, others fd' same, copies'.de]
      · rw [oft, Function.update_of_ne same, others fd' same, copies'.inode,
          w.done_inode bound id (files.bound copies'.entry), if_neg (apart same range opened' copies')]
  · intro fd' fd'' range range' opened' opened'' equal
    have before {fd₁ : Nat} (open₁ : ((s₂.fwriteDone fd (t.fs.eof fd buf)).oft fd₁).opened = true) :
        (t.fs.oft fd₁).opened = true ∧
          ((s₂.fwriteDone fd (t.fs.eof fd buf)).oft fd₁).de = (t.fs.oft fd₁).de := by
      rw [oft] at open₁ ⊢
      by_cases same : fd₁ = fd
      · rw [same, Function.update_self]
        exact ⟨w.writes.1, de.trans copies.de.symm⟩
      · rw [Function.update_of_ne same, others fd₁ same] at open₁ ⊢
        exact ⟨open₁, rfl⟩
    obtain ⟨before₁, de₁⟩ := before opened'
    obtain ⟨before₂, de₂⟩ := before opened''
    exact saved.single fd' fd'' range range' before₁ before₂ (de₁.symm.trans (equal.trans de₂))
  · intro fd' range opened'
    simp only [oft] at opened' ⊢
    by_cases same : fd' = fd
    · rw [same, Function.update_self]
      simp only
      by_cases flag : t.fs.eof fd buf = true
      · apply Int.le_of_eq
        rw [grown, if_pos flag]
      · rw [grown, if_neg flag]
        rw [eof] at flag
        omega
    · rw [Function.update_of_ne same, others fd' same] at opened' ⊢
      exact saved.pointer fd' range opened'
  · intro e' j pos entry inside
    simp only [names] at entry inside ⊢
    rw [w.done_inode bound id (files.bound entry)] at inside ⊢
    by_cases same : i = j
    · subst same
      obtain rfl := files.single e' e i entry copies.entry
      rw [if_pos rfl] at inside ⊢
      rw [grown] at inside
      have covered : (pos : Int) < (t.fs.oft fd).inode.size.toInt ∨
          (pos : Int) < (t.fs.oft fd).fileptr + buf.length := by
        split at inside <;> omega
      rw [byteAt_sized, w.contents saved.owned sound.entitled sound.unheld copies.entry id sound.enough
        sound.tail within covered, recorded, copies.de]
      by_cases written : (t.fs.oft fd).fileptr ≤ pos ∧ (pos : Int) < (t.fs.oft fd).fileptr + buf.length
      · rw [if_pos ⟨rfl, written⟩, if_pos written]
      · rw [if_neg (fun h => written h.2), if_neg written, copies.inode]
        apply saved.content e' i pos entry
        rw [← copies.inode]
        omega
    · rw [if_neg same] at inside ⊢
      have other : (t.fs.oft fd).de ≠ some e' := by
        rw [copies.de]
        intro equal
        simp only [Option.some.injEq] at equal
        subst equal
        have := copies.entry.2
        have := entry.2
        omega
      have held : t.fs.Holds (t.fs.reached fd) j (pos / 512) ((t.fs.inode j).block (pos / 512)) := by
        refine .inl ⟨e', entry, ?_, rfl⟩
        rw [Inode.extent]
        omega
      rw [recorded, if_neg (fun h => other h.1), saved.content e' j pos entry inside, byteAt, byteAt,
        w.byte_other saved.owned sound.entitled sound.unheld copies.entry id held
          (fun h => same h.1.symm) (by omega)]

/-- Outside the bytes that were written, the file is as it was before. -/
def ChangesOnly (s s' : FileSystem) (fd : Nat) (buf : List Byte) : Prop :=
  ∀ pos : Nat, (pos : Int) < (s.oft fd).inode.size.toInt →
    ¬ ((s.oft fd).fileptr ≤ pos ∧ pos < (s.oft fd).fileptr + buf.length) →
    s'.byteAt (s'.oft fd).inode pos = s.byteAt (s.oft fd).inode pos

theorem Saved.fwrite (saved : Saved n t) (range : fd < NUM_FD)
    (allowed : t.fs.writes fd buf → t.fs.Sound fd buf) {r : FileSystem × Int}
    (action : t.fs.fwrite fd buf = some r) :
    Saved n ⟨r.1, if r.2 = SYSERR then t.written else recorded t.written (t.fs.oft fd) buf⟩ ∧
      ChangesOnly t.fs r.1 fd buf := by
  by_cases writes : t.fs.writes fd buf
  · have sound := allowed writes
    have first := saved.owned.first saved.files range writes.1 sound.entitled
    have ready := saved.files.ready (by omega)
    have filed := saved.files.filed fd range writes.1
    obtain ⟨s₂, given, result⟩ := fwrite_spec ready range writes filed.position
    have w : Writing n t.fs fd buf s₂ := ⟨saved.files, ready, range, writes, first.1, given⟩
    have enough : (t.fs.granted (t.fs.needed fd buf)).length = t.fs.needed fd buf := sound.enough
    rw [if_pos enough] at result
    rw [result, Option.some.injEq] at action
    subst action
    have success : ¬ (buf.length : Int) = SYSERR := by
      simp only [SYSERR]
      omega
    refine ⟨?_, ?_⟩
    · simp only [success, if_false]
      exact saved.done w sound
    · intro pos inside outside
      obtain ⟨e, i, copies⟩ := saved.copies fd range writes.1
      have file : ((s₂.fwriteDone fd (t.fs.eof fd buf)).oft fd).inode =
          sized (s₂.oft fd).inode (t.fs.eof fd buf) (s₂.oft fd).fileptr := by
        rw [w.done_oft.1, Function.update_self]
      change (s₂.fwriteDone fd (t.fs.eof fd buf)).byteAt
        ((s₂.fwriteDone fd (t.fs.eof fd buf)).oft fd).inode pos = _
      rw [file, byteAt_sized, w.contents saved.owned sound.entitled sound.unheld copies.entry
        (copies.id saved.files.toDirectory) sound.enough sound.tail
        (saved.pointer fd range writes.1) (.inl inside), if_neg outside]
  · rw [fwrite_refused writes action]
    exact ⟨by simpa using saved, fun _ _ _ => rfl⟩

theorem Saved.step {call : FileCall} {t' : Traced} (saved : Saved n t) (apart : t.fs.separate call)
    (allowed : t.fs.sound call) (action : Traced.step call t = some t') : Saved n t' := by
  have files := saved.files
  cases call with
  | fcreate filename mode =>
      simp only [Traced.step, FileSystem.step, Option.map_some, Option.some.injEq] at action
      subst action
      rcases fcreate_cases files.toDirectory allowed with
        ⟨_, result⟩ | ⟨fd, i, creates, room, bound, closed, inRange, free, result⟩
      · rwa [result]
      · rw [result]
        exact saved.created creates room bound inRange free
  | fopen filename flags =>
      simp only [Traced.step, FileSystem.step, Option.map_some, Option.some.injEq] at action
      subst action
      rcases fopen_cases files.toDirectory allowed flags with
        result | ⟨fd, bound, result⟩ | ⟨fd, e, i, bound, closed, entry, found, result⟩
      · rwa [result]
      · rw [result]
        have dir : Directory n { t.fs with nextOpenFd := fd } :=
          files.toDirectory.same (files.fmt.same rfl) rfl rfl (fun _ _ => rfl) bound files.next
        exact ⟨⟨dir, fun fd range opened => { files.filed fd range opened with }, files.stored,
          files.low, files.high, files.bitmap⟩, saved.owned.fewer rfl fun _ _ _ held => held,
          fun fd range opened => by
            obtain ⟨e, i, copies⟩ := saved.copies fd range opened
            exact ⟨e, i, { copies with }⟩, saved.single, saved.pointer, saved.content⟩
      · rw [result]
        exact saved.reopened flags bound entry (apart e found)
  | fwrite fd buf =>
      simp only [Traced.step, Option.map_eq_some_iff] at action
      obtain ⟨r, action, rfl⟩ := action
      obtain ⟨fd, rfl, range⟩ := fwrite_range action
      exact (saved.fwrite range allowed action).1
  | fread fd nbytes =>
      simp only [Traced.step, FileSystem.step, Option.map_eq_some_iff] at action
      obtain ⟨_, ⟨r, action, rfl⟩, rfl⟩ := action
      rcases fread_cases action with same | ⟨fd, rfl, range, opened, q, moved, low, high, most⟩
      · rwa [same]
      · rw [moved]
        have := (files.filed fd range opened).position
        exact saved.file (files.moved range opened (by omega) high)
          (fun _ _ _ => moved_holds files.toDirectory) fun _ => ⟨opened, rfl, rfl, most⟩
  | fseek fd offset =>
      simp only [Traced.step, FileSystem.step, Option.map_eq_some_iff] at action
      obtain ⟨_, ⟨r, action, rfl⟩, rfl⟩ := action
      rcases fseek_cases action with same | ⟨fd, rfl, range, opened, q, moved, low, high, most⟩
      · rwa [same]
      · rw [moved]
        exact saved.file (files.moved range opened low high)
          (fun _ _ _ => moved_holds files.toDirectory) fun _ => ⟨opened, rfl, rfl, by simp only; omega⟩
  | fclose fd =>
      simp only [Traced.step, FileSystem.step, Option.map_eq_some_iff] at action
      obtain ⟨_, ⟨r, action, rfl⟩, rfl⟩ := action
      rcases fclose_cases action with rfl | ⟨fd, rfl, range, opened, rfl⟩
      · exact saved
      · exact saved.file (files.closed fd) (fun _ _ _ => closed_holds) fun opened => by cases opened

def ReadsBack (t : Traced) : Prop :=
  ∀ fd e m : Nat, fd < NUM_FD → (t.fs.oft fd).opened = true →
    ((t.fs.oft fd).mode = O_RDONLY ∨ (t.fs.oft fd).mode = O_RDWR) → (t.fs.oft fd).de = some e →
    0 < m → (t.fs.oft fd).fileptr + m ≤ (t.fs.oft fd).inode.size.toInt →
    ∃ s buf, t.fs.fread fd m = some (s, buf, (m : Int)) ∧ buf.length = m ∧
      ∀ j, j < m → t.written e ((t.fs.oft fd).fileptr.toNat + j) = some (buf.getD j 0)

theorem Saved.readsBack (saved : Saved n t) : ReadsBack t := by
  intro fd e m range opened mode de more inside
  have filed := saved.files.filed fd range opened
  have position := filed.position
  obtain ⟨e', i, copies⟩ := saved.copies fd range opened
  obtain rfl : e' = e := by
    have := copies.de.symm.trans de
    simpa using this
  have pointer : (t.fs.oft fd).fileptr = ((t.fs.oft fd).fileptr.toNat : Nat) := by omega
  have present (k : Nat) (bound : 512 * k < (t.fs.oft fd).fileptr.toNat + m) :
      (t.fs.oft fd).inode.block k ≠ -1 := by
    have held : t.fs.Holds t.fs.extents i k ((t.fs.oft fd).inode.block k) := by
      refine .inr ⟨fd, e', range, opened, copies.entry, copies.id saved.files.toDirectory, ?_, rfl⟩
      rw [extents, Inode.extent]
      omega
    have := (saved.owned.data _ _ _ held).1
    omega
  refine ⟨_, _, fread_eq saved.files.fmt range opened mode more pointer (by omega) filed.whole present,
    by simp [bytesAt], ?_⟩
  intro j bound
  rw [saved.content e' i _ copies.entry (by rw [← copies.inode]; omega), ← copies.inode]
  simp [bytesAt, List.getD, bound]

theorem formatted_saved (device : Int → Byte) {numInodes : Int} (word : numInodes < 2 ^ 31)
    (address : Nat) (memory : Nat → Byte) :
    Saved (if numInodes < 1 then DEFAULT_NUM_INODES else numInodes.toNat)
      ⟨formatted device numInodes address memory, fun _ _ => none⟩ := by
  have kept := formatted_kept device word address memory
  have closed (fd : Nat) (range : fd < NUM_FD) :
      ((formatted device numInodes address memory).oft fd).opened = false := by
    simp only [formatted, mkfs]
    simp [closedFile, range]
  have never {fd : Nat} (range : fd < NUM_FD)
      (opened : ((formatted device numInodes address memory).oft fd).opened = true) : False := by
    rw [closed fd range] at opened
    cases opened
  exact ⟨kept.files, kept.owned, fun _ range opened => (never range opened).elim,
    fun _ _ range _ opened => (never range opened).elim, fun _ range opened => (never range opened).elim,
    fun _ _ _ entry => by cases entry.1⟩

/-- In every run in which no file is open twice and `fwrite` writes to blocks of its own file, reads
return what was written, and `fwrite` changes nothing else of the file. -/
theorem contents_kept {device : Int → Byte} {numInodes : Int} (word : numInodes < 2 ^ 31)
    {address : Nat} {memory : Nat → Byte}
    (reach : Reach Traced.step (fun t call => t.fs.separate call ∧ t.fs.sound call)
      ⟨formatted device numInodes address memory, fun _ _ => none⟩ t) :
    ReadsBack t ∧ ∀ fd buf r, t.fs.sound (.fwrite fd buf) → t.fs.fwrite fd buf = some r →
      ChangesOnly t.fs r.1 fd.toNat buf := by
  have saved := reach.invariant (formatted_saved device word address memory)
    fun _ _ _ saved allowed action => saved.step allowed.1 allowed.2 action
  refine ⟨saved.readsBack, fun fd buf r allowed action => ?_⟩
  obtain ⟨fd, rfl, range⟩ := fwrite_range action
  exact (saved.fwrite range allowed action).2

def firstBlock (b : Byte) (a : Int) : Byte :=
  if 1024 ≤ a ∧ a < 1028 then 255 else if a = 1040 then b else 0

theorem firstBlock_inode {b : Byte} (known : b = 2 ∨ b = 200) :
    ((formatted (firstBlock b) 128 0 fun _ => 0).inode 0).free 128 = true ∧
      ((formatted (firstBlock b) 128 0 fun _ => 0).inode 0).block 0 = b.toNat := by
  rw [formatted_inode]
  rcases known with rfl | rfl <;> decide

theorem firstBlock_written {b : Byte} (known : b = 2 ∨ b = 200) :
    Traced.step (.fcreate [97] O_CREAT) ⟨formatted (firstBlock b) 128 0 fun _ => 0, fun _ _ => none⟩ =
      some ⟨(formatted (firstBlock b) 128 0 fun _ => 0).created 0 0 [97], fun _ _ => none⟩ ∧
    ∃ s written, Traced.step (.fwrite 0 [7])
        ⟨(formatted (firstBlock b) 128 0 fun _ => 0).created 0 0 [97], fun _ _ => none⟩ = some ⟨s, written⟩ ∧
      written 0 0 = some 7 ∧ Formatted 128 s ∧ s.oft 0 = ⟨true, 1, O_RDWR, some 0, s.inode 0⟩ ∧
      (s.inode 0).id = 0 ∧ (s.inode 0).size = 1 ∧ (s.inode 0).block 0 = b.toNat ∧
      ∀ j : Nat, j < 64 → s.dev0Blocks (slot 0 + j) = (s.inode 0).encode.getD j 0 := by
  have files := formatted_files (firstBlock b) (by decide : (128 : Int) < 2 ^ 31) 0 fun _ => 0
  have made := formatted_create (n := 128) (by decide) (by decide) (firstBlock_inode known).1
    (⟨by decide, by decide⟩ : isName [97]) (by decide)
  refine ⟨congrArg (fun r : FileSystem × Int => some (⟨r.1, fun _ _ => none⟩ : Traced)) made, ?_⟩
  have file : ((formatted (firstBlock b) 128 0 fun _ => 0).created 0 0 [97]).oft 0 =
      ⟨true, 0, O_RDWR, some 0, (formatted (firstBlock b) 128 0 fun _ => 0).emptyInode 0⟩ := by
    simp only [created, Function.update_self]
    rfl
  have room : (formatted (firstBlock b) 128 0 fun _ => 0).firstDataBlock < MDEV_NUM_BLOCKS := by
    rw [files.fmt.firstDataBlock]
    decide
  have ready : Ready 128 ((formatted (firstBlock b) 128 0 fun _ => 0).created 0 0 [97]) :=
    ⟨files.fmt.same rfl, room, files.low, files.high room, files.bitmap⟩
  generalize (formatted (firstBlock b) 128 0 fun _ => 0).created 0 0 [97] = s at *
  have start : (s.oft 0).fileptr = 0 := by rw [file]
  have writes : s.writes 0 [7] := ⟨by rw [file], .inr (by rw [file]), by simp, by rw [start]; decide⟩
  obtain ⟨s₂, written, _, _, _, inode, oft, fmt, bytes⟩ := fwrite_within (i := 0) ready (by decide) (by decide)
    writes (Int.le_of_eq start.symm) (by rw [start]; decide) (by decide) (by rw [file]; rfl)
  have write := congrArg (Option.map fun r : FileSystem × Int => (⟨r.1, if r.2 = SYSERR then fun _ _ => none else
    recorded (fun _ _ => none) (s.oft 0) [7]⟩ : Traced)) written
  refine ⟨s₂, _, write, ?_, fmt, ?_, ?_, ?_, ?_, bytes⟩
  · rw [file]
    rfl
  · rw [oft, file]
    rfl
  · rw [inode, sized_fields.1, file]
    rfl
  · rw [inode, eof, file]
    rfl
  · rw [inode, sized_fields.2, file, emptyInode_block, (firstBlock_inode known).2]

theorem writeByte_readsBack : ∃ t, ReadsBack t ∧ t.written 0 0 = some 7 ∧
    (t.fs.oft 0).inode.size = 1 ∧ (t.fs.oft 0).inode.block 0 = 200 := by
  obtain ⟨create, s, written, write, byte, _, oft, _, size, block, _⟩ := firstBlock_written (b := 200) (.inr rfl)
  have saved := formatted_saved (firstBlock 200) (by decide : (128 : Int) < 2 ^ 31) 0 fun _ => 0
  have free := firstBlock_inode (b := 200) (.inr rfl)
  have blank : Blank ((formatted (firstBlock 200) 128 0 fun _ => 0).created 0 0 [97]) := by
    have none : Blank (formatted (firstBlock 200) 128 0 fun _ => 0) := by
      rintro i k b (⟨e, entry, _⟩ | ⟨_, e, _, _, entry, _⟩)
      · cases entry.1
      · cases entry.1
    exact none.created saved.files free.1 (by decide) 0 [97]
  have file : ((formatted (firstBlock 200) 128 0 fun _ => 0).created 0 0 [97]).oft 0 =
      ⟨true, 0, O_RDWR, some 0, (formatted (firstBlock 200) 128 0 fun _ => 0).emptyInode 0⟩ := by
    simp only [created, Function.update_self]
    rfl
  have sound : ((formatted (firstBlock 200) 128 0 fun _ => 0).created 0 0 [97]).Sound 0 [7] := by
    have none : ((formatted (firstBlock 200) 128 0 fun _ => 0).created 0 0 [97]).needed 0 [7] = 0 := by
      rw [needed, headLength, file]
      rfl
    constructor
    · apply blank.entitled
      · rw [file]
      · rw [file, emptyInode_block, free.2]
        decide
    · intro b member
      rw [none] at member
      cases member
    · rw [enough, none]
      rfl
    · exact .inl none
  have provided : (formatted (firstBlock 200) 128 0 fun _ => 0).provided :=
    ⟨by decide, ⟨0, by decide, rfl⟩, 0, by decide, free.1⟩
  refine ⟨_, (contents_kept (by decide) (.next (a := .fwrite 0 [7]) (.next (a := .fcreate [97] O_CREAT) .init
    ⟨trivial, fun _ => provided⟩ create) ⟨trivial, fun _ => sound⟩ write)).1, byte, ?_, ?_⟩
  · rw [oft, size]
  · rw [oft, block]
    decide

theorem writeInode_lost : ∃ t, Reach Traced.step (fun t call => t.fs.separate call)
    ⟨formatted (firstBlock 2) 128 0 fun _ => 0, fun _ _ => none⟩ t ∧ ¬ ReadsBack t := by
  obtain ⟨create, s, written, write, byte, fmt, oft, id, size, block, stored⟩ :=
    firstBlock_written (b := 2) (.inl rfl)
  have seek : Traced.step (.fseek 0 (-1)) ⟨s, written⟩ = some ⟨s.moved 0 0, written⟩ := by
    simp only [Traced.step, FileSystem.step, fseek, Int.toNat_zero, oft, size, moved, setFile]
    rw [if_neg (by decide), if_neg (by decide), if_neg (by decide), if_neg (by decide), if_neg (by decide)]
    rfl
  have file : (s.moved 0 0).oft 0 = ⟨true, 0, O_RDWR, some 0, s.inode 0⟩ := by
    simp only [moved, Function.update_self, oft]
  refine ⟨⟨s.moved 0 0, written⟩, .next (a := .fseek 0 (-1)) (.next (a := .fwrite 0 [7])
    (.next (a := .fcreate [97] O_CREAT) .init trivial create) trivial write) trivial seek, ?_⟩
  intro back
  have opened : ((s.moved 0 0).oft 0).opened = true := by rw [file]
  have mode : ((s.moved 0 0).oft 0).mode = O_RDWR := by rw [file]
  have start : ((s.moved 0 0).oft 0).fileptr = (0 : Nat) := by rw [file]; rfl
  have length : ((s.moved 0 0).oft 0).inode.size.toInt = 1 := by
    rw [file, size]
    decide
  obtain ⟨s', buf, read, _, last⟩ := back 0 0 1 (by decide) opened (.inr mode) (by rw [file])
    (by decide) (by simp only [start, length]; decide)
  have found := @fread_eq _ (s.moved 0 0) (fmt.same rfl) 0 (by decide) opened (.inr mode) _ 1 (by decide)
    start (by rw [length]; decide) (by rw [length]; decide) (by
      intro k within
      obtain rfl : k = 0 := by omega
      rw [file, block]
      decide)
  have bytes : buf = (s.moved 0 0).bytesAt ((s.moved 0 0).oft 0).inode 0 1 := by
    have same := read.symm.trans found
    simp only [Option.some.injEq, Prod.mk.injEq] at same
    exact same.2.1
  -- the byte on the device is the first one of the inode
  have kept : buf.getD 0 0 = 0 := by
    have number := stored 0 (by decide)
    have low : (s.inode 0).encode.getD 0 0 = wordByte (s.inode 0).id 0 := rfl
    rw [low, id] at number
    have single : (s.moved 0 0).bytesAt (s.inode 0) 0 1 =
        [s.dev0Blocks (512 * (s.inode 0).block 0 + (0 : Nat))] := rfl
    rw [bytes, file, single, block]
    exact number
  have first := last 0 (by decide)
  rw [kept, start] at first
  exact absurd (byte.symm.trans first) (by decide)

end

end
end Xinu.FileSystem
