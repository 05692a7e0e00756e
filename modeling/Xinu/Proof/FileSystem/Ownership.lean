import Xinu.Proof.FileSystem.Blocks

/-!
# The blocks of files

Which blocks the files hold, on the device and in the open file table, and that no block is held
twice as long as `fwrite` writes to blocks that the file was given.
-/

namespace Xinu
open Lib

def Inode.extent (x : Inode) : Nat := (x.size.toInt.toNat + 511) / 512

namespace FileSystem

section
variable {n : Nat} {s s' : FileSystem}

/-! ## Open files -/

structure Filed (s : FileSystem) (ft : Filetable) : Prop where
  named : ∃ e i, s.names e i ∧ ft.inode.id = BitVec.ofNat 32 i
  position : 0 ≤ ft.fileptr
  limit : ft.fileptr < 5120
  size : 0 ≤ ft.inode.size.toInt
  whole : ft.inode.size.toInt < 5120

structure Files (n : Nat) (s : FileSystem) : Prop extends Directory n s where
  filed : ∀ fd, fd < NUM_FD → (s.oft fd).opened = true → s.Filed (s.oft fd)
  stored : ∀ e i, s.names e i → 0 ≤ (s.inode i).size.toInt ∧ (s.inode i).size.toInt < 5120
  low : s.firstDataBlock ≤ s.nextFreeDataBlock
  high : s.firstDataBlock < MDEV_NUM_BLOCKS → s.nextFreeDataBlock < MDEV_NUM_BLOCKS
  bitmap : s.marked BM_BLK = true

theorem Files.ready (files : Files n s) (room : s.firstDataBlock < MDEV_NUM_BLOCKS) : Ready n s :=
  ⟨files.fmt, room, files.low, files.high room, files.bitmap⟩

theorem Filed.mono {ft : Filetable} (filed : s.Filed ft)
    (names : ∀ e i, s.names e i → s'.names e i) : s'.Filed ft := by
  obtain ⟨e, i, entry, id⟩ := filed.named
  exact { filed with named := ⟨e, i, names e i entry, id⟩ }

theorem Files.file {fd : Nat} {ft : Filetable} (files : Files n s)
    (rest : s' = { s with
      freemask := s'.freemask
      nextFreeDataBlock := s'.nextFreeDataBlock
      oft := Function.update s.oft fd ft
      dev0Blocks := s'.dev0Blocks })
    (ready : s'.firstDataBlock ≤ s'.nextFreeDataBlock ∧
      (s'.firstDataBlock < MDEV_NUM_BLOCKS → s'.nextFreeDataBlock < MDEV_NUM_BLOCKS) ∧
      s'.marked BM_BLK = true)
    (filed : ft.opened = true → s.Filed ft)
    (id : ∀ i, i < n → (s'.inode i).id = (s.inode i).id)
    (stored : ∀ e i, s.names e i → 0 ≤ (s'.inode i).size.toInt ∧ (s'.inode i).size.toInt < 5120) :
    Files n s' := by
  have names : s'.names = s.names := by
    rw [rest]
    rfl
  constructor
  · apply files.toDirectory.same
    · rw [rest]
      exact files.fmt.same rfl
    · rw [rest]
    · rw [rest]
    · exact id
    · rw [rest]
      exact files.fd
    · rw [rest]
      exact files.next
  · intro fd' range opened
    apply Filed.mono (s := s) _ fun e i entry => names ▸ entry
    have file : s'.oft fd' = Function.update s.oft fd ft fd' := by rw [rest]
    rw [file] at opened ⊢
    by_cases same : fd' = fd
    · rw [same, Function.update_self] at opened ⊢
      exact filed opened
    · rw [Function.update_of_ne same] at opened ⊢
      exact files.filed fd' range opened
  · rw [names]
    exact stored
  · exact ready.1
  · exact ready.2.1
  · exact ready.2.2

theorem Formatted.slot_below (fmt : Formatted n s) {i : Nat} (bound : i < n) :
    1024 ≤ slot i ∧ slot i + 64 ≤ 512 * s.firstDataBlock := by
  rw [fmt.firstDataBlock, slot]
  omega

theorem Formatted.inode_keep (fmt : Formatted n s) {i : Nat} (bound : i < n)
    (same : ∀ a : Int, 1024 ≤ a → a < 512 * s.firstDataBlock → s'.dev0Blocks a = s.dev0Blocks a) :
    s'.inode i = s.inode i := by
  have below := fmt.slot_below bound
  apply inode_congr
  intro a lo hi
  exact same a (by omega) (by omega)

/-! ## Holding blocks -/

/-- Block `k` of inode `i` is `b`, in the inode on the device or in that of an open file, where an
open file has `len` blocks. -/
def Holds (s : FileSystem) (len : Nat → Nat) (i k : Nat) (b : Int) : Prop :=
  (∃ e, s.names e i ∧ k < (s.inode i).extent ∧ (s.inode i).block k = b) ∨
  ∃ fd e, fd < NUM_FD ∧ (s.oft fd).opened = true ∧ s.names e i ∧
    (s.oft fd).inode.id = BitVec.ofNat 32 i ∧ k < len fd ∧ (s.oft fd).inode.block k = b

def extents (s : FileSystem) (fd : Nat) : Nat := (s.oft fd).inode.extent

structure Owned (s : FileSystem) (len : Nat → Nat) : Prop where
  data : ∀ i k b, s.Holds len i k b → (s.firstDataBlock : Int) ≤ b ∧ b < MDEV_NUM_BLOCKS
  unique : ∀ i k i' k' b, s.Holds len i k b → s.Holds len i' k' b → i = i' ∧ k = k'

def Marked (s : FileSystem) (len : Nat → Nat) : Prop :=
  ∀ i k b, s.Holds len i k b → s.marked b.toNat = true

variable {len len' : Nat → Nat}

theorem Owned.fewer (owned : s.Owned len) (geometry : s'.firstDataBlock = s.firstDataBlock)
    (holds : ∀ i k b, s'.Holds len' i k b → s.Holds len i k b) : s'.Owned len' := by
  constructor
  · intro i k b held
    rw [geometry]
    exact owned.data i k b (holds i k b held)
  · intro i k i' k' b held held'
    exact owned.unique i k i' k' b (holds i k b held) (holds i' k' b held')

theorem Marked.fewer (marked : s.Marked len) (mask : ∀ b, s.marked b = true → s'.marked b = true)
    (holds : ∀ i k b, s'.Holds len' i k b → s.Holds len i k b) : s'.Marked len' :=
  fun i k b held => mask _ (marked i k b (holds i k b held))

theorem emptyInode_block (i k : Nat) : (s.emptyInode i).block k = (s.inode i).block k := rfl

theorem created_holds (files : Files n s) {i : Nat} (free : (s.inode i).free n = true) (fd : Nat)
    (filename : List Byte) (inRange : i < n) (j k : Nat) (b : Int)
    (held : (s.created fd i filename).Holds (s.created fd i filename).extents j k b) :
    s.Holds s.extents j k b := by
  have none : (s.emptyInode i).extent = 0 := by simp [Inode.extent, emptyInode]
  rcases held with ⟨e, entry, within, block⟩ | ⟨fd', e, range, opened, entry, id, within, block⟩
  · rcases created_names.mp entry with entry | ⟨rfl, rfl⟩
    · rw [created_inode_other (files.other entry free)] at within block
      exact .inl ⟨e, entry, within, block⟩
    · rw [created_inode_self, none] at within
      cases within
  · by_cases same : fd' = fd
    · simp [extents, created, same, none] at within
    · have file : (s.created fd i filename).oft fd' = s.oft fd' := Function.update_of_ne same _ _
      rw [file] at opened id block
      rw [extents, file] at within
      rcases created_names.mp entry with entry | ⟨rfl, rfl⟩
      · exact .inr ⟨fd', e, range, opened, entry, id, within, block⟩
      · -- an open file has an inode that is in the directory, so not this one
        obtain ⟨e, i, entry, number⟩ := (files.filed fd' range opened).named
        have word := files.word
        have bound := files.bound entry
        have same := congrArg BitVec.toNat (number.symm.trans id)
        simp only [BitVec.toNat_ofNat] at same
        exact absurd (by omega) (files.other entry free)

theorem reopened_holds (dir : Directory n s) {e i : Nat} (entry : s.names e i) (fd : Nat) (flags : Int)
    (j k : Nat) (b : Int)
    (held : (s.reopened fd e i flags).Holds (s.reopened fd e i flags).extents j k b) :
    s.Holds s.extents j k b := by
  rcases held with ⟨e', entry', within, block⟩ | ⟨fd', e', range, opened, entry', id, within, block⟩
  · exact .inl ⟨e', entry', within, block⟩
  · by_cases same : fd' = fd
    · have file : (s.reopened fd e i flags).oft fd' = ⟨true, 0, flags, some e, s.inode i⟩ := by
        simp [reopened, same]
      rw [file] at id block
      rw [extents, file] at within
      have bound := dir.bound entry
      have bound' := dir.bound entry'
      have word := dir.word
      have same := congrArg BitVec.toNat ((dir.id e i entry).symm.trans id)
      simp only [BitVec.toNat_ofNat] at same
      obtain rfl : i = j := by omega
      exact .inl ⟨e, entry, within, block⟩
    · have file : (s.reopened fd e i flags).oft fd' = s.oft fd' := Function.update_of_ne same _ _
      rw [file] at opened id block
      rw [extents, file] at within
      exact .inr ⟨fd', e', range, opened, entry', id, within, block⟩

/-! ## Calls that move the pointer of a file -/

def moved (s : FileSystem) (fd : Nat) (q : Int) : FileSystem :=
  { s with oft := Function.update s.oft fd { s.oft fd with fileptr := q } }

theorem moved_self (fd : Nat) : s.moved fd (s.oft fd).fileptr = s := by
  simp [moved]

theorem moved_moved (fd : Nat) (q q' : Int) : (s.moved fd q).moved fd q' = s.moved fd q' := by
  simp [moved]

theorem drain_moved {fd : Nat} {offset : Int} {l : Nat} {r : FileSystem × List Byte}
    (read : s.drain fd offset l = some r) : r.1 = s.moved fd ((s.oft fd).fileptr + l) := by
  simp only [drain, Option.map_eq_some_iff] at read
  obtain ⟨buf, _, rfl⟩ := read
  rfl

theorem freadLoop_moved (fd fuel : Nat) (nbytes : Nat) :
    ∃ q, (freadLoop fd fuel s nbytes).1 = s.moved fd q ∧ (s.oft fd).fileptr ≤ q ∧
      q ≤ (s.oft fd).fileptr + nbytes := by
  have stay : ∃ q, s = s.moved fd q ∧ (s.oft fd).fileptr ≤ q ∧ q ≤ (s.oft fd).fileptr + nbytes :=
    ⟨_, (moved_self fd).symm, by omega, by omega⟩
  induction fuel generalizing s nbytes with
  | zero => exact stay
  | succ fuel ih =>
      simp only [freadLoop]
      split
      · exact stay
      · split
        · exact stay
        · split
          · exact stay
          · rename_i s₁ buf read
            have first := drain_moved read
            simp only at first
            have pointer : (s₁.oft fd).fileptr =
                (s.oft fd).fileptr + (min nbytes MDEV_BLOCK_SIZE : Nat) := by simp [first, moved]
            obtain ⟨q, result, low, high⟩ := ih (s := s₁) (nbytes - min nbytes MDEV_BLOCK_SIZE)
              ⟨_, (moved_self fd).symm, by omega, by omega⟩
            refine ⟨q, ?_, by omega, by omega⟩
            rw [first, moved_moved] at result
            exact first ▸ result

theorem fread_cases {fd nbytes : Int} {r : FileSystem × List Byte × Int}
    (action : s.fread fd nbytes = some r) :
    r.1 = s ∨ ∃ fd' : Nat, fd = fd' ∧ fd' < NUM_FD ∧ (s.oft fd').opened = true ∧
      ∃ q, r.1 = s.moved fd' q ∧ (s.oft fd').fileptr ≤ q ∧ q < 5120 ∧
        q ≤ (s.oft fd').inode.size.toInt := by
  have same {buf : List Byte} {v : Int} : some (s, buf, v) = some r → r.1 = s := by rintro ⟨⟩; rfl
  by_cases range : 0 ≤ fd ∧ fd < NUM_FD
  case neg =>
    rw [fread, if_pos range] at action
    cases action
  rw [fread, if_neg (not_not_intro range)] at action
  extract_lets fd' ft num l offset len at action
  by_cases opened : ft.opened = true
  case neg =>
    rw [if_pos opened] at action
    exact .inl (same action)
  rw [if_neg (not_not_intro opened)] at action
  by_cases mode : ft.mode ≠ O_RDONLY ∧ ft.mode ≠ O_RDWR
  · rw [if_pos mode] at action
    exact .inl (same action)
  rw [if_neg mode] at action
  by_cases none : nbytes ≤ 0
  · rw [if_pos none] at action
    exact .inl (same action)
  rw [if_neg none] at action
  by_cases wrap : nbytes + ft.fileptr ≥ 2 ^ 31
  · rw [if_pos wrap] at action
    cases action
  rw [if_neg wrap] at action
  have most : l + ft.fileptr ≤ ft.inode.size.toInt := by
    simp only [l]
    split <;> omega
  by_cases limit : l + ft.fileptr ≥ (MDEV_BLOCK_SIZE * INODEDIRECTBLOCKS : Nat)
  · rw [if_pos limit] at action
    exact .inl (same action)
  rw [if_neg limit] at action
  by_cases negative : l < 0
  · rw [if_pos negative] at action
    cases action
  rw [if_neg negative] at action
  have number : fd = fd' := (Int.toNat_of_nonneg range.1).symm
  cases read : s.drain fd' offset len with
  | none =>
      rw [read] at action
      exact .inl (same action)
  | some x =>
      obtain ⟨s₁, buf⟩ := x
      rw [read] at action
      obtain ⟨q, result, low, high⟩ := freadLoop_moved (s := s₁) fd' l.toNat (l.toNat - len)
      have first : s₁ = s.moved fd' _ := drain_moved read
      have pointer : (s₁.oft fd').fileptr = ft.fileptr + len := by simp [first, moved, ft]
      have advance : (len : Int) ≤ l := by omega
      refine .inr ⟨fd', number, by omega, opened, q, ?_, ?_, ?_, ?_⟩
      · cases action
        rw [first, moved_moved] at result
        exact first ▸ result
      · change ft.fileptr ≤ q
        omega
      · rw [show MDEV_BLOCK_SIZE * INODEDIRECTBLOCKS = 5120 from rfl] at limit
        omega
      · change q ≤ ft.inode.size.toInt
        omega

theorem fseek_cases {fd offset : Int} {r : FileSystem × Int} (action : s.fseek fd offset = some r) :
    r.1 = s ∨ ∃ fd' : Nat, fd = fd' ∧ fd' < NUM_FD ∧ (s.oft fd').opened = true ∧
      ∃ q, r.1 = s.moved fd' q ∧ 0 ≤ q ∧ q < 5120 ∧ q < (s.oft fd').inode.size.toInt := by
  simp only [fseek] at action
  split at action
  · cases action
  · rename_i range
    split at action
    · exact .inl (by cases action; rfl)
    · rename_i opened
      split at action
      · exact .inl (by cases action; rfl)
      · rename_i low
        split at action
        · exact .inl (by cases action; rfl)
        · rename_i high
          split at action
          · exact .inl (by cases action; rfl)
          · rename_i within
            simp only [MDEV_BLOCK_SIZE, INODEDIRECTBLOCKS, INODEBLOCKS] at high
            refine .inr ⟨fd.toNat, by omega, by omega, by simpa using opened,
              offset + (s.oft fd.toNat).fileptr, ?_, by omega, by omega, by omega⟩
            cases action
            rfl

/-! ## What `fwrite` does to the blocks that files hold -/

theorem number_inj {i j : Nat} (bound : i < 2 ^ 31) (bound' : j < 2 ^ 31)
    (same : BitVec.ofNat 32 i = BitVec.ofNat 32 j) : i = j := by
  have same := congrArg BitVec.toNat same
  simp only [BitVec.toNat_ofNat] at same
  omega

theorem Holds.bound {i k : Nat} {b : Int} (dir : Directory n s) (held : s.Holds len i k b) : i < n := by
  rcases held with ⟨e, entry, _⟩ | ⟨_, e, _, _, entry, _⟩
  · exact dir.bound entry
  · exact dir.bound entry

theorem filled_device {fd : Nat} {buf : List Byte}
    (short : buf.length + (s.oft fd).fileptr % 512 ≤ 512) {a : Int}
    (outside : ¬ (512 * (s.oft fd).inode.block ((s.oft fd).fileptr / 512).toNat ≤ a ∧
      a < 512 * (s.oft fd).inode.block ((s.oft fd).fileptr / 512).toNat + 512)) :
    (s.filled fd buf).dev0Blocks a = s.dev0Blocks a := by
  simp only [filled]
  apply store_off
  omega

theorem Holds.keep {i k : Nat} {b : Int} (dir : Directory n s) (names : s'.names = s.names)
    (inode : ∀ i, i < n → s'.inode i = s.inode i)
    (files : ∀ fd, (s'.oft fd).inode = (s.oft fd).inode ∧ (s'.oft fd).opened = (s.oft fd).opened)
    (held : s'.Holds len i k b) : s.Holds len i k b := by
  rcases held with ⟨e, entry, within, block⟩ | ⟨fd, e, range, opened, entry, id, within, block⟩
  · rw [names] at entry
    rw [inode i (dir.bound entry)] at within block
    exact .inl ⟨e, entry, within, block⟩
  · rw [names] at entry
    rw [(files fd).1] at id block
    rw [(files fd).2] at opened
    exact .inr ⟨fd, e, range, opened, entry, id, within, block⟩

section
variable {fd : Nat} {bs : List Nat} {buf : List Byte}

theorem Extended.inode_keep (given : Extended s s' fd bs buf) (fmt : Formatted n s)
    (data : ∀ b ∈ bs, s.firstDataBlock ≤ b) {i : Nat} (bound : i < n) : s'.inode i = s.inode i := by
  apply fmt.inode_keep bound
  intro a lo hi
  apply given.device
  · omega
  · intro b member inside
    have := data b member
    omega

theorem Extended.holds (given : Extended s s' fd bs buf) (dir : Directory n s)
    (data : ∀ b ∈ bs, s.firstDataBlock ≤ b ∧ b < MDEV_NUM_BLOCKS)
    (last : ((s.oft fd).fileptr / 512).toNat + bs.length ≤ INODEBLOCKS) {l : Nat}
    (room : l ≤ INODEBLOCKS)
    (covered : ∀ k, k < l → k < len fd ∨
      ((s.oft fd).fileptr / 512).toNat ≤ k ∧ k < ((s.oft fd).fileptr / 512).toNat + bs.length)
    {i k : Nat} {b : Int} (held : s'.Holds (Function.update len fd l) i k b) :
    s.Holds len i k b ∨ (s.oft fd).inode.id = BitVec.ofNat 32 i ∧ i < n ∧
      ((s.oft fd).fileptr / 512).toNat ≤ k ∧ k < ((s.oft fd).fileptr / 512).toNat + bs.length ∧
      b = (bs.getD (k - ((s.oft fd).fileptr / 512).toNat) 0 : Nat) := by
  have names : s'.names = s.names := by
    rw [given.rest]
    rfl
  rcases held with ⟨e, entry, within, block⟩ | ⟨fd', e, range, opened, entry, id, within, block⟩
  · rw [names] at entry
    rw [given.inode_keep dir.fmt (fun b member => (data b member).1) (dir.bound entry)] at within block
    exact .inl (.inl ⟨e, entry, within, block⟩)
  · rw [names] at entry
    rw [given.file] at opened id block
    by_cases same : fd' = fd
    · subst same
      rw [Function.update_self] at opened id block within
      have small (b : Nat) (member : b ∈ bs) : b < 2 ^ 31 := by
        have := (data b member).2
        simp only [MDEV_NUM_BLOCKS] at this
        omega
      rw [Inode.block_setBlocks small last (by omega)] at block
      rw [Inode.setBlocks_fields.1] at id
      split at block
      · rename_i new
        exact .inr ⟨id, dir.bound entry, new.1, new.2, block.symm⟩
      · rename_i old
        rcases covered k within with before | new
        · exact .inl (.inr ⟨fd', e, range, opened, entry, id, before, block⟩)
        · exact absurd new old
    · rw [Function.update_of_ne same] at opened id block within
      exact .inl (.inr ⟨fd', e, range, opened, entry, id, within, block⟩)

theorem getD_mem {bs : List Nat} {k : Nat} (bound : k < bs.length) : bs.getD k 0 ∈ bs := by
  rw [List.getD_eq_getElem _ _ bound]
  exact List.getElem_mem bound

theorem Owned.extended (owned : s.Owned len) (given : Extended s s' fd bs buf) (dir : Directory n s)
    (data : ∀ b ∈ bs, s.firstDataBlock ≤ b ∧ b < MDEV_NUM_BLOCKS) (nodup : bs.Nodup)
    (unheld : ∀ b ∈ bs, ∀ i k, ¬ s.Holds len i k b)
    (last : ((s.oft fd).fileptr / 512).toNat + bs.length ≤ INODEBLOCKS) {l : Nat}
    (room : l ≤ INODEBLOCKS)
    (covered : ∀ k, k < l → k < len fd ∨
      ((s.oft fd).fileptr / 512).toNat ≤ k ∧ k < ((s.oft fd).fileptr / 512).toNat + bs.length) :
    s'.Owned (Function.update len fd l) := by
  have geometry : s'.firstDataBlock = s.firstDataBlock := by
    rw [given.rest]
    rfl
  constructor
  · intro i k b held
    rw [geometry]
    rcases given.holds dir data last room covered held with before | ⟨_, _, low, high, rfl⟩
    · exact owned.data i k b before
    · have := data _ (getD_mem (by omega : k - ((s.oft fd).fileptr / 512).toNat < bs.length))
      omega
  · intro i k i' k' b held held'
    rcases given.holds dir data last room covered held with before | ⟨id, bound, low, high, rfl⟩ <;>
      rcases given.holds dir data last room covered held' with
        before' | ⟨id', bound', low', high', same⟩
    · exact owned.unique i k i' k' b before before'
    · rw [same] at before
      exact absurd before (unheld _ (getD_mem (by omega)) i k)
    · exact absurd before' (unheld _ (getD_mem (by omega)) i' k')
    · have word := dir.word
      refine ⟨number_inj (by omega) (by omega) (id.symm.trans id'), ?_⟩
      rw [List.getD_eq_getElem _ _ (by omega), List.getD_eq_getElem _ _ (by omega)] at same
      have := (List.Nodup.getElem_inj_iff nodup).mp (Int.ofNat_inj.mp same)
      omega

theorem Marked.extended (marked : s.Marked len) (given : Extended s s' fd bs buf)
    (dir : Directory n s) (data : ∀ b ∈ bs, s.firstDataBlock ≤ b ∧ b < MDEV_NUM_BLOCKS)
    (last : ((s.oft fd).fileptr / 512).toNat + bs.length ≤ INODEBLOCKS) {l : Nat}
    (room : l ≤ INODEBLOCKS)
    (covered : ∀ k, k < l → k < len fd ∨
      ((s.oft fd).fileptr / 512).toNat ≤ k ∧ k < ((s.oft fd).fileptr / 512).toNat + bs.length) :
    s'.Marked (Function.update len fd l) := by
  intro i k b held
  rw [given.marked]
  rcases given.holds dir data last room covered held with before | ⟨_, _, low, high, rfl⟩
  · simp [marked i k b before]
  · have member := getD_mem (by omega : k - ((s.oft fd).fileptr / 512).toNat < bs.length)
    rw [Int.toNat_natCast, decide_eq_true member, Bool.or_true]

end

/-! ## The end of `fwrite` -/

def sized (x : Inode) (eof : Bool) (q : Int) : Inode :=
  if eof then { x with size := BitVec.ofInt 32 q } else x

theorem sized_fields {x : Inode} {eof : Bool} {q : Int} :
    (sized x eof q).id = x.id ∧ ∀ k, (sized x eof q).block k = x.block k := by
  cases eof <;> exact ⟨rfl, fun _ => rfl⟩

theorem sized_size (x : Inode) (eof : Bool) {q : Int} (low : 0 ≤ q) (high : q < 5120) :
    (sized x eof q).size.toInt = if eof then q else x.size.toInt := by
  have value : (BitVec.ofInt 32 q).toInt = q := by
    rw [BitVec.toInt_ofInt, Int.bmod_def]
    omega
  cases eof <;> simp [sized, value]

theorem fwriteDone_eq (fmt : Formatted n s) (word : n < 2 ^ 31) {fd i : Nat} (bound : i < n)
    (id : (s.oft fd).inode.id = BitVec.ofNat 32 i) (eof : Bool) :
    s.fwriteDone fd eof = { s with
      oft := Function.update s.oft fd { s.oft fd with
        inode := sized (s.oft fd).inode eof (s.oft fd).fileptr }
      dev0Blocks := store s.dev0Blocks (slot i)
        (sized (s.oft fd).inode eof (s.oft fd).fileptr).encode } := by
  have number : (sized (s.oft fd).inode eof (s.oft fd).fileptr).id.toInt = i := by
    rw [sized_fields.1, id, toInt_ofNat (by omega)]
  simp only [fwriteDone, setFile]
  change putInodeByNum _ 0 (sized (s.oft fd).inode eof (s.oft fd).fileptr).id.toInt
    (sized (s.oft fd).inode eof (s.oft fd).fileptr) = _
  rw [number, Formatted.putInodeByNum (n := n)]
  · rfl
  · exact fmt.same rfl
  · omega
  · omega

theorem fwriteDone_inode (fmt : Formatted n s) (word : n < 2 ^ 31) {fd i : Nat} (bound : i < n)
    (id : (s.oft fd).inode.id = BitVec.ofNat 32 i) (eof : Bool) (j : Nat) :
    (s.fwriteDone fd eof).inode j =
      if i = j then sized (s.oft fd).inode eof (s.oft fd).fileptr else s.inode j := by
  rw [fwriteDone_eq fmt word bound id]
  split
  · rename_i same
    subst same
    exact inode_store_same rfl
  · rename_i other
    exact inode_store_other rfl other

theorem fwriteDone_holds (len : Nat → Nat) {fd i : Nat} (dir : Directory n s) (range : fd < NUM_FD)
    (opened : (s.oft fd).opened = true) {e : Nat} (entry : s.names e i)
    (id : (s.oft fd).inode.id = BitVec.ofNat 32 i) {eof : Bool}
    (grown : (sized (s.oft fd).inode eof (s.oft fd).fileptr).extent ≤ len fd)
    (others : ∀ fd', fd' ≠ fd → len fd' = s.extents fd') {j k : Nat} {b : Int}
    (held : (s.fwriteDone fd eof).Holds (s.fwriteDone fd eof).extents j k b) :
    s.Holds len j k b := by
  have bound := dir.bound entry
  have inode := fwriteDone_inode dir.fmt dir.word bound id eof
  have done := fwriteDone_eq dir.fmt dir.word bound id eof
  have names : (s.fwriteDone fd eof).names = s.names := by
    rw [done]
    rfl
  rcases held with ⟨e', entry', within, block⟩ | ⟨fd', e', range', opened', entry', id', within, block⟩
  · rw [names] at entry'
    rw [inode j] at within block
    by_cases same : i = j
    · subst same
      rw [if_pos rfl] at within block
      rw [sized_fields.2] at block
      exact .inr ⟨fd, e, range, opened, entry, id, by omega, block⟩
    · rw [if_neg same] at within block
      exact .inl ⟨e', entry', within, block⟩
  · rw [names] at entry'
    rw [extents] at within
    rw [done] at within opened' id' block
    by_cases same : fd' = fd
    · subst same
      simp only [Function.update_self] at within id' block
      rw [sized_fields.1] at id'
      rw [sized_fields.2] at block
      exact .inr ⟨fd', e', range, opened, entry', id', by omega, block⟩
    · simp only [Function.update_of_ne same] at within id' block opened'
      have := others fd' same
      exact .inr ⟨fd', e', range', opened', entry', id', this ▸ within, block⟩

theorem fwriteDone_files {fd i : Nat} (files : Files n s) (range : fd < NUM_FD)
    (opened : (s.oft fd).opened = true) {e : Nat} (entry : s.names e i)
    (id : (s.oft fd).inode.id = BitVec.ofNat 32 i) {eof : Bool} : Files n (s.fwriteDone fd eof) := by
  have filed := files.filed fd range opened
  have bound := files.bound entry
  have size := sized_size (s.oft fd).inode eof filed.position filed.limit
  have inside : 0 ≤ (sized (s.oft fd).inode eof (s.oft fd).fileptr).size.toInt ∧
      (sized (s.oft fd).inode eof (s.oft fd).fileptr).size.toInt < 5120 := by
    rw [size]
    have := filed.position
    have := filed.limit
    have := filed.size
    have := filed.whole
    split <;> omega
  have inode := fwriteDone_inode files.fmt files.word bound id eof
  have done := fwriteDone_eq files.fmt files.word bound id eof
  apply files.file
  · rw [done]
  · rw [done]
    exact ⟨files.low, files.high, files.bitmap⟩
  · intro _
    exact ⟨⟨e, i, entry, by rw [sized_fields.1, id]⟩, filed.position, filed.limit, inside.1, inside.2⟩
  · intro j _
    rw [inode j]
    split
    · rename_i same
      rw [sized_fields.1, id, ← same, files.id e i entry]
    · rfl
  · intro e' j entry'
    rw [inode j]
    split
    · exact inside
    · exact files.stored e' j entry'

/-! ## `fwrite` as a whole -/

def current (s : FileSystem) (fd : Nat) : Nat := ((s.oft fd).fileptr / 512).toNat

theorem head_short (fd : Nat) (buf : List Byte) :
    (buf.take (s.headLength fd buf)).length = s.headLength fd buf ∧
      s.headLength fd buf + (s.oft fd).fileptr % 512 ≤ 512 ∧ s.headLength fd buf ≤ buf.length ∧
      (s.headLength fd buf = buf.length ∨
        s.headLength fd buf + (s.oft fd).fileptr % 512 = 512) := by
  simp only [List.length_take, headLength]
  omega

theorem granted_spec (ready : Ready n s) (m : Nat) :
    (∀ b ∈ s.granted m, s.marked b = false ∧ s.firstDataBlock ≤ b ∧ b < MDEV_NUM_BLOCKS) ∧
      (s.granted m).Nodup ∧ (s.granted m).length ≤ m := by
  refine ⟨fun b member => ?_, probes_nodup ⟨ready.low, ready.high⟩, length_probes_le⟩
  simpa using probes_spec ⟨ready.low, ready.high⟩ member

section
variable {fd : Nat} {buf : List Byte}

structure Writing (n : Nat) (s : FileSystem) (fd : Nat) (buf : List Byte) (s₂ : FileSystem) : Prop where
  files : Files n s
  ready : Ready n s
  range : fd < NUM_FD
  writes : s.writes fd buf
  data : (s.firstDataBlock : Int) ≤ (s.oft fd).inode.block (s.current fd)
  given : Extended (s.filled fd (buf.take (s.headLength fd buf))) s₂ fd
    (s.granted (s.needed fd buf))
    ((buf.drop (s.headLength fd buf)).take (512 * (s.granted (s.needed fd buf)).length))

namespace Writing
variable {s₂ : FileSystem} (w : Writing n s fd buf s₂)
include w

theorem filed : s.Filed (s.oft fd) := w.files.filed fd w.range w.writes.1

theorem pointer : ((s.filled fd (buf.take (s.headLength fd buf))).oft fd).fileptr =
      (s.oft fd).fileptr + s.headLength fd buf ∧
    (s₂.oft fd).fileptr = (s.oft fd).fileptr + s.headLength fd buf +
      min (512 * (s.granted (s.needed fd buf)).length) (buf.length - s.headLength fd buf) := by
  have head := (s.head_short fd buf).1
  have first : ((s.filled fd (buf.take (s.headLength fd buf))).oft fd).fileptr =
      (s.oft fd).fileptr + s.headLength fd buf := by
    simp only [filled, Function.update_self, head]
  refine ⟨first, ?_⟩
  rw [w.given.file, Function.update_self, first, List.length_take, List.length_drop]

theorem filled_inode {i : Nat} (bound : i < n) :
    (s.filled fd (buf.take (s.headLength fd buf))).inode i = s.inode i := by
  obtain ⟨length, short, _⟩ := s.head_short fd buf
  have data := w.data
  rw [current] at data
  apply w.files.fmt.inode_keep bound
  intro a lo hi
  apply filled_device
  · rw [length]
    omega
  · omega

theorem filled_files : Files n (s.filled fd (buf.take (s.headLength fd buf))) := by
  obtain ⟨length, short, whole, _⟩ := s.head_short fd buf
  have filed := w.filed
  have bound := w.writes.2.2.2
  have position := filed.position
  have data := w.data
  apply w.files.file
  · rfl
  · exact ⟨w.files.low, w.files.high, w.files.bitmap⟩
  · intro _
    refine ⟨filed.named, ?_, ?_, filed.size, filed.whole⟩
    · simp only
      omega
    · simp only [length]
      omega
  · intro i bound
    rw [w.filled_inode bound]
  · intro e i entry
    rw [w.filled_inode (w.files.bound entry)]
    exact w.files.stored e i entry

theorem loop_files : Files n s₂ := by
  obtain ⟨granted, _, _⟩ := granted_spec w.ready (s.needed fd buf)
  obtain ⟨length, short, whole, _⟩ := s.head_short fd buf
  have files := w.filled_files
  have filed := files.filed fd w.range (by simpa [filled] using w.writes.1)
  have pointer := w.pointer.2
  have bound := w.writes.2.2.2
  have position := w.filed.position
  have keep (i : Nat) (bound : i < n) := w.given.inode_keep files.fmt
    (fun b member => (granted b member).2.1) bound
  have ready := w.given.ready ⟨files.fmt, w.ready.room, files.low, files.high w.ready.room, files.bitmap⟩
  have rest := w.given.rest
  rw [w.given.file] at rest
  rw [w.given.file, Function.update_self] at pointer
  apply files.file rest ⟨ready.low, fun _ => ready.high, ready.bitmap⟩
  · intro _
    obtain ⟨e, i, entry, id⟩ := filed.named
    refine ⟨⟨e, i, entry, by rw [Inode.setBlocks_fields.1, id]⟩, ?_, ?_, ?_, ?_⟩
    · simp only at pointer ⊢
      omega
    · simp only at pointer ⊢
      omega
    · rw [Inode.setBlocks_fields.2]
      exact filed.size
    · rw [Inode.setBlocks_fields.2]
      exact filed.whole
  · intro i bound
    rw [keep i bound]
  · intro e i entry
    rw [keep i (files.bound entry)]
    exact files.stored e i entry

theorem filled_holds {i k : Nat} {b : Int}
    (held : (s.filled fd (buf.take (s.headLength fd buf))).Holds len i k b) : s.Holds len i k b := by
  have names : (s.filled fd (buf.take (s.headLength fd buf))).names = s.names := rfl
  apply held.keep w.files.toDirectory names fun i bound => w.filled_inode bound
  intro fd'
  by_cases same : fd' = fd
  · simp [filled, same]
  · simp [filled, Function.update_of_ne same]

theorem start : (((s.filled fd (buf.take (s.headLength fd buf))).oft fd).fileptr / 512).toNat +
      (s.granted (s.needed fd buf)).length ≤ 10 ∧
    (0 < (s.granted (s.needed fd buf)).length →
      (((s.filled fd (buf.take (s.headLength fd buf))).oft fd).fileptr / 512).toNat = s.current fd + 1) := by
  obtain ⟨_, short, whole, full⟩ := s.head_short fd buf
  have few := (granted_spec w.ready (s.needed fd buf)).2.2
  have position := w.filed.position
  have bound := w.writes.2.2.2
  have need : s.needed fd buf = (buf.length - s.headLength fd buf + 511) / 512 := rfl
  rw [w.pointer.1, current]
  omega

theorem owned (owned : s.Owned len)
    (unheld : ∀ b ∈ s.granted (s.needed fd buf), ∀ i k, ¬ s.Holds len i k b) {l : Nat}
    (room : l ≤ INODEBLOCKS)
    (covered : ∀ k, k < l → k < len fd ∨
      s.current fd + 1 ≤ k ∧ k < s.current fd + 1 + (s.granted (s.needed fd buf)).length) :
    s₂.Owned (Function.update len fd l) := by
  obtain ⟨granted, nodup, _⟩ := granted_spec w.ready (s.needed fd buf)
  obtain ⟨last, start⟩ := w.start
  have before : (s.filled fd (buf.take (s.headLength fd buf))).Owned len :=
    owned.fewer rfl fun _ _ _ => w.filled_holds
  apply before.extended w.given w.filled_files.toDirectory
  · exact fun b member => (granted b member).2
  · exact nodup
  · exact fun b member i k held => unheld b member i k (w.filled_holds held)
  · simp only [INODEBLOCKS]
    omega
  · exact room
  · intro k bound
    have := covered k bound
    omega

theorem marked (marked : s.Marked len) {l : Nat} (room : l ≤ INODEBLOCKS)
    (covered : ∀ k, k < l → k < len fd ∨
      s.current fd + 1 ≤ k ∧ k < s.current fd + 1 + (s.granted (s.needed fd buf)).length) :
    s₂.Marked (Function.update len fd l) := by
  obtain ⟨granted, _⟩ := granted_spec w.ready (s.needed fd buf)
  obtain ⟨last, start⟩ := w.start
  have before : (s.filled fd (buf.take (s.headLength fd buf))).Marked len :=
    marked.fewer (fun _ set => set) fun _ _ _ => w.filled_holds
  apply before.extended w.given w.filled_files.toDirectory
  · exact fun b member => (granted b member).2
  · simp only [INODEBLOCKS]
    omega
  · exact room
  · intro k bound
    have := covered k bound
    omega

theorem oft : (s₂.oft fd).opened = true ∧ (s₂.oft fd).inode.id = (s.oft fd).inode.id ∧
    (s₂.oft fd).inode.size = (s.oft fd).inode.size ∧ ∀ fd', fd' ≠ fd → s₂.oft fd' = s.oft fd' := by
  rw [w.given.file]
  refine ⟨?_, ?_, ?_, fun fd' other => ?_⟩
  · simpa [filled] using w.writes.1
  · simp [filled, Inode.setBlocks_fields]
  · simp [filled, Inode.setBlocks_fields]
  · simp [filled, Function.update_of_ne other]

theorem extents (fd' : Nat) : s₂.extents fd' = s.extents fd' := by
  by_cases same : fd' = fd
  · rw [same, FileSystem.extents, FileSystem.extents, Inode.extent, Inode.extent, w.oft.2.2.1]
  · rw [FileSystem.extents, FileSystem.extents, w.oft.2.2.2 fd' same]

theorem device {a : Int} (mask : 512 ≤ a → 576 ≤ a)
    (first : ¬ (512 * (s.oft fd).inode.block (s.current fd) ≤ a ∧
      a < 512 * (s.oft fd).inode.block (s.current fd) + 512))
    (others : ∀ b ∈ s.granted (s.needed fd buf), ¬ (512 * (b : Int) ≤ a ∧ a < 512 * b + 512)) :
    s₂.dev0Blocks a = s.dev0Blocks a := by
  obtain ⟨length, short, _⟩ := s.head_short fd buf
  rw [w.given.device a mask others]
  apply filled_device
  · rw [length]
    omega
  · exact first

end Writing
end

/-! ## Runs in which `fwrite` starts in a block of its own -/

def enough (s : FileSystem) (fd : Nat) (buf : List Byte) : Prop :=
  (s.granted (s.needed fd buf)).length = s.needed fd buf

def behind (s : FileSystem) (fd k : Nat) : Prop := s.extents fd ≤ k ∧ k ≤ s.current fd

structure Entitled (s : FileSystem) (fd : Nat) : Prop where
  data : ∀ k, s.behind fd k → (s.firstDataBlock : Int) ≤ (s.oft fd).inode.block k ∧
    (s.oft fd).inode.block k < MDEV_NUM_BLOCKS
  unheld : ∀ k i k', s.behind fd k → s.Holds s.extents i k' ((s.oft fd).inode.block k) →
    (s.oft fd).inode.id = BitVec.ofNat 32 i ∧ k' = k
  apart : ∀ k k', s.behind fd k → s.behind fd k' →
    (s.oft fd).inode.block k = (s.oft fd).inode.block k' → k = k'

def claimed (s : FileSystem) (fd : Nat) (buf : List Byte) : Prop :=
  s.enough fd buf → ∀ k, s.behind fd k → s.marked ((s.oft fd).inode.block k).toNat = true

def entitled (s : FileSystem) : FileCall → Prop
  | .fcreate filename mode => s.creates filename mode → s.provided
  | .fopen filename _ => filename ≠ []
  | .fwrite fd buf => s.writes fd.toNat buf → s.Entitled fd.toNat ∧ s.claimed fd.toNat buf
  | _ => True

theorem Holds.mono {i k : Nat} {b : Int} (held : s.Holds len i k b) (grown : ∀ fd, len fd ≤ len' fd) :
    s.Holds len' i k b := by
  rcases held with disk | ⟨fd, e, range, opened, entry, id, within, block⟩
  · exact .inl disk
  · have := grown fd
    exact .inr ⟨fd, e, range, opened, entry, id, by omega, block⟩

section
variable {fd : Nat} {buf : List Byte}

def reached (s : FileSystem) (fd : Nat) : Nat → Nat :=
  Function.update s.extents fd (max (s.extents fd) (s.current fd + 1))

theorem Holds.upto (dir : Directory n s) {i k : Nat} {b : Int}
    (held : s.Holds (s.reached fd) i k b) :
    s.Holds s.extents i k b ∨ (s.oft fd).inode.id = BitVec.ofNat 32 i ∧ i < n ∧ s.behind fd k ∧
      (s.oft fd).inode.block k = b := by
  rcases held with disk | ⟨fd', e, range, opened, entry, id, within, block⟩
  · exact .inl (.inl disk)
  · by_cases same : fd' = fd
    · subst same
      rw [reached, Function.update_self] at within
      by_cases before : k < s.extents fd'
      · exact .inl (.inr ⟨fd', e, range, opened, entry, id, before, block⟩)
      · exact .inr ⟨id, dir.bound entry, ⟨by omega, by omega⟩, block⟩
    · rw [reached, Function.update_of_ne same] at within
      exact .inl (.inr ⟨fd', e, range, opened, entry, id, within, block⟩)

theorem Owned.upto (owned : s.Owned s.extents) (dir : Directory n s) (entitled : s.Entitled fd) :
    s.Owned (s.reached fd) := by
  have word := dir.word
  constructor
  · intro i k b held
    rcases held.upto dir with before | ⟨_, _, behind, rfl⟩
    · exact owned.data i k b before
    · exact entitled.data k behind
  · intro i k i' k' b held held'
    rcases held.upto dir with before | ⟨id, bound, behind, rfl⟩ <;>
      rcases held'.upto dir with before' | ⟨id', bound', behind', block⟩
    · exact owned.unique i k i' k' b before before'
    · rw [← block] at before
      obtain ⟨id, same⟩ := entitled.unheld k' i k behind' before
      exact ⟨number_inj (by have := before.bound dir; omega) (by omega) (id.symm.trans id'), same⟩
    · obtain ⟨id', same⟩ := entitled.unheld k i' k' behind before'
      exact ⟨number_inj (by omega) (by have := before'.bound dir; omega) (id.symm.trans id'), same.symm⟩
    · exact ⟨number_inj (by omega) (by omega) (id.symm.trans id'),
        (entitled.apart k' k behind' behind block).symm⟩

theorem Marked.upto (marked : s.Marked s.extents) (dir : Directory n s)
    (claimed : s.claimed fd buf) (enough : s.enough fd buf) :
    s.Marked (s.reached fd) := by
  intro i k b held
  rcases held.upto dir with before | ⟨_, _, behind, rfl⟩
  · exact marked i k b before
  · exact claimed enough k behind

theorem Owned.first (owned : s.Owned s.extents) (files : Files n s) (range : fd < NUM_FD)
    (opened : (s.oft fd).opened = true) (entitled : s.Entitled fd) :
    (s.firstDataBlock : Int) ≤ (s.oft fd).inode.block (s.current fd) ∧
      (s.oft fd).inode.block (s.current fd) < MDEV_NUM_BLOCKS ∧
      ∀ i k, s.Holds s.extents i k ((s.oft fd).inode.block (s.current fd)) →
        (s.oft fd).inode.id = BitVec.ofNat 32 i := by
  obtain ⟨e, i, entry, id⟩ := (files.filed fd range opened).named
  by_cases within : s.current fd < s.extents fd
  · have held : s.Holds s.extents i (s.current fd) ((s.oft fd).inode.block (s.current fd)) :=
      .inr ⟨fd, e, range, opened, entry, id, within, rfl⟩
    refine ⟨(owned.data _ _ _ held).1, (owned.data _ _ _ held).2, fun j k other => ?_⟩
    rw [id, (owned.unique _ _ _ _ _ held other).1]
  · have behind : s.behind fd (s.current fd) := ⟨by omega, by omega⟩
    have data := entitled.data _ behind
    exact ⟨data.1, data.2, fun j k other => (entitled.unheld _ j k behind other).1⟩

end

def fileInode (s : FileSystem) (e : Nat) : Inode := s.inode (s.entry e).inodeNum.toNat

/-- From `s` to `s'` only what belongs to the open file was written, and the bitmap. -/
structure WritesOwn (s s' : FileSystem) (fd : Nat) : Prop where
  superblock : ∀ a : Int, 0 ≤ a → a < 512 → s'.dev0Blocks a = s.dev0Blocks a
  bitmap : ∀ a : Int, 512 ≤ a → a < 1024 → s'.dev0Blocks a = s.dev0Blocks a ∨
    a < 576 ∧ s'.dev0Blocks a = s'.freemask (a - 512).toNat
  inodes : ∀ a : Int, 1024 ≤ a → a < 512 * s.firstDataBlock →
    ¬ (slot (s.oft fd).inode.id.toNat ≤ a ∧ a < slot (s.oft fd).inode.id.toNat + 64) →
    s'.dev0Blocks a = s.dev0Blocks a
  others : ∀ (e k : Nat) (a : Int), e < s.numentries →
    (s.entry e).inodeNum ≠ (s.oft fd).inode.id.toInt → k < (s.fileInode e).extent →
    512 * (s.fileInode e).block k ≤ a → a < 512 * (s.fileInode e).block k + 512 →
    s'.dev0Blocks a = s.dev0Blocks a

theorem WritesOwn.refl (fd : Nat) : WritesOwn s s fd :=
  ⟨fun _ _ _ => rfl, fun _ _ _ => .inl rfl, fun _ _ _ _ => rfl, fun _ _ _ _ _ _ _ _ => rfl⟩

structure Kept (n : Nat) (s : FileSystem) : Prop where
  files : Files n s
  owned : s.Owned s.extents
  marked : s.Marked s.extents

section
variable {fd : Nat} {buf : List Byte} {s₂ : FileSystem}

theorem Files.inodeNum (files : Files n s) {e : Nat} (used : e < s.numentries) :
    s.names e (s.entry e).inodeNum.toNat := by
  obtain ⟨i, _, entry⟩ := files.numbered e used
  exact ⟨used, by have := entry.2; omega⟩

theorem Writing.owns (w : Writing n s fd buf s₂) (kept : Kept n s) (entitled : s.Entitled fd) :
    WritesOwn s s₂ fd := by
  have first := kept.owned.first kept.files w.range w.writes.1 entitled
  obtain ⟨granted, _⟩ := granted_spec w.ready (s.needed fd buf)
  have above := w.ready.above (Nat.le_refl _)
  have inFront (a : Int) (front : a < 512 * s.firstDataBlock) (mask : 512 ≤ a → 576 ≤ a) :
      s₂.dev0Blocks a = s.dev0Blocks a := by
    apply w.device mask
    · omega
    · intro b member inside
      have := (granted b member).2.1
      omega
  constructor
  · intro a lo hi
    exact inFront a (by omega) (by omega)
  · intro a lo hi
    by_cases mask : a < 576
    · rcases w.given.bitmap a lo mask with ⟨same, _⟩ | written
      · refine .inl (same.trans ?_)
        obtain ⟨length, short, _⟩ := s.head_short fd buf
        have data := w.data
        rw [current] at data
        apply filled_device
        · rw [length]
          omega
        · omega
      · exact .inr ⟨mask, written⟩
    · exact .inl (inFront a (by omega) (by omega))
  · intro a lo hi _
    exact inFront a hi (by omega)
  · intro e k a used other within lo hi
    have entry := kept.files.inodeNum used
    have held : s.Holds s.extents (s.entry e).inodeNum.toNat k ((s.fileInode e).block k) :=
      .inl ⟨e, entry, within, rfl⟩
    have data := kept.owned.data _ _ _ held
    apply w.device
    · omega
    · intro inside
      have same : (s.fileInode e).block k = (s.oft fd).inode.block (s.current fd) := by omega
      rw [same] at held
      have id := first.2.2 _ _ held
      apply other
      have bound := kept.files.bound entry
      have word := kept.files.word
      rw [id, toInt_ofNat (by omega)]
      exact entry.2
    · intro b member inside
      have same : ((s.fileInode e).block k).toNat = b := by omega
      have unmarked := (granted b member).1
      rw [← same, kept.marked _ _ _ held] at unmarked
      cases unmarked

theorem WritesOwn.done (owns : WritesOwn s s₂ fd) (files : Files n s₂) (fmt : Formatted n s)
    (number : (s₂.oft fd).inode.id = (s.oft fd).inode.id) (range : fd < NUM_FD)
    (opened : (s₂.oft fd).opened = true)
    (data : ∀ e k, e < s.numentries → k < (s.fileInode e).extent →
      (s.firstDataBlock : Int) ≤ (s.fileInode e).block k) (eof : Bool) :
    WritesOwn s (s₂.fwriteDone fd eof) fd := by
  obtain ⟨e, i, entry, id⟩ := (files.filed fd range opened).named
  have bound := files.bound entry
  have word := files.word
  have done := fwriteDone_eq files.fmt files.word bound id eof
  have own : (s.oft fd).inode.id.toNat = i := by
    rw [← number, id, BitVec.toNat_ofNat]
    omega
  have below := fmt.slot_below bound
  have outside {a : Int} (outside : ¬ (slot i ≤ a ∧ a < slot i + 64)) :
      (s₂.fwriteDone fd eof).dev0Blocks a = s₂.dev0Blocks a := by
    rw [done]
    apply store_off
    rw [Inode.length_encode]
    exact outside
  have mask : (s₂.fwriteDone fd eof).freemask = s₂.freemask := by rw [done]
  constructor
  · intro a lo hi
    rw [outside (by omega)]
    exact owns.superblock a lo hi
  · intro a lo hi
    rw [outside (by omega), mask]
    exact owns.bitmap a lo hi
  · intro a lo hi other
    rw [outside (by rwa [own] at other)]
    exact owns.inodes a lo hi other
  · intro e k a used other within lo hi
    have := data e k used within
    rw [outside (by omega)]
    exact owns.others e k a used other within lo hi

theorem Writing.kept_failed (w : Writing n s fd buf s₂) (kept : Kept n s) : Kept n s₂ := by
  obtain ⟨granted, _⟩ := granted_spec w.ready (s.needed fd buf)
  have same (i k : Nat) (b : Int) (held : s₂.Holds s₂.extents i k b) :
      s₂.Holds (Function.update s.extents fd (s.extents fd)) i k b := by
    apply held.mono
    intro fd'
    apply Nat.le_of_eq
    rw [Function.update_eq_self, w.extents]
  have short : s.extents fd ≤ INODEBLOCKS := by
    have := w.filed.size
    have := w.filed.whole
    simp only [FileSystem.extents, Inode.extent, INODEBLOCKS]
    omega
  refine ⟨w.loop_files, ?_, ?_⟩
  · apply Owned.fewer _ rfl same
    apply w.owned kept.owned _ short fun k within => .inl within
    intro b member i k held
    have unmarked := (granted b member).1
    have := kept.marked i k b held
    rw [Int.toNat_natCast, unmarked] at this
    cases this
  · apply Marked.fewer _ (fun _ set => set) same
    exact w.marked kept.marked short fun k within => .inl within

def grown (s : FileSystem) (fd : Nat) (buf : List Byte) : Nat :=
  max (s.extents fd) ((buf.length + (s.oft fd).fileptr + 511) / 512).toNat

def eof (s : FileSystem) (fd : Nat) (buf : List Byte) : Bool :=
  decide (buf.length + (s.oft fd).fileptr > (s.oft fd).inode.size.toInt)

theorem Writing.pointer_done (w : Writing n s fd buf s₂) (enough : s.enough fd buf) :
    (s₂.oft fd).fileptr = (s.oft fd).fileptr + buf.length := by
  obtain ⟨_, short, whole, full⟩ := s.head_short fd buf
  have need : s.needed fd buf = (buf.length - s.headLength fd buf + 511) / 512 := rfl
  rw [w.pointer.2, enough]
  omega

theorem Writing.grown_room (w : Writing n s fd buf s₂) : s.grown fd buf ≤ INODEBLOCKS := by
  have filed := w.filed
  have position := filed.position
  have bound := w.writes.2.2.2
  have := filed.size
  have := filed.whole
  simp only [grown, FileSystem.extents, Inode.extent, INODEBLOCKS]
  omega

theorem Writing.grown_covered (w : Writing n s fd buf s₂) (enough : s.enough fd buf) (k : Nat)
    (within : k < s.grown fd buf) : k < s.reached fd fd ∨
      s.current fd + 1 ≤ k ∧ k < s.current fd + 1 + (s.granted (s.needed fd buf)).length := by
  obtain ⟨_, short, whole, full⟩ := s.head_short fd buf
  have position := w.filed.position
  have need : s.needed fd buf = (buf.length - s.headLength fd buf + 511) / 512 := rfl
  rw [grown] at within
  rw [reached, Function.update_self, enough, current]
  omega

theorem Writing.done_holds (w : Writing n s fd buf s₂) (enough : s.enough fd buf) (j k : Nat) (b : Int)
    (held : (s₂.fwriteDone fd (s.eof fd buf)).Holds (s₂.fwriteDone fd (s.eof fd buf)).extents j k b) :
    s₂.Holds (Function.update (s.reached fd) fd (s.grown fd buf)) j k b := by
  have files := w.loop_files
  have position := w.filed.position
  have bound := w.writes.2.2.2
  have ends := w.pointer_done enough
  obtain ⟨opened, _, size, _⟩ := w.oft
  obtain ⟨e, i, entry, id⟩ := (files.filed fd w.range opened).named
  apply fwriteDone_holds _ files.toDirectory w.range opened entry id _ _ held
  · rw [Inode.extent, sized_size _ _ (by omega) (by omega), size, Function.update_self, grown,
      FileSystem.extents, Inode.extent, ends]
    split <;> omega
  · intro fd' other
    rw [Function.update_of_ne other, reached, Function.update_of_ne other, w.extents]

theorem Writing.done_files (w : Writing n s fd buf s₂) :
    Files n (s₂.fwriteDone fd (s.eof fd buf)) := by
  obtain ⟨e, i, entry, id⟩ := (w.loop_files.filed fd w.range w.oft.1).named
  exact fwriteDone_files w.loop_files w.range w.oft.1 entry id

theorem Writing.done_same (w : Writing n s fd buf s₂) :
    (s₂.fwriteDone fd (s.eof fd buf)).firstDataBlock = s₂.firstDataBlock ∧
      (s₂.fwriteDone fd (s.eof fd buf)).freemask = s₂.freemask := by
  have files := w.loop_files
  obtain ⟨e, i, entry, id⟩ := (files.filed fd w.range w.oft.1).named
  rw [fwriteDone_eq files.fmt files.word (files.bound entry) id]
  exact ⟨rfl, rfl⟩

theorem Writing.owned_done (w : Writing n s fd buf s₂) (owned : s.Owned s.extents)
    (entitled : s.Entitled fd)
    (unheld : ∀ b ∈ s.granted (s.needed fd buf), ∀ i k, ¬ s.Holds (s.reached fd) i k b)
    (enough : s.enough fd buf) :
    (s₂.fwriteDone fd (s.eof fd buf)).Owned (s₂.fwriteDone fd (s.eof fd buf)).extents := by
  have after := w.owned (owned.upto w.files.toDirectory entitled) unheld w.grown_room
    (w.grown_covered enough)
  exact after.fewer w.done_same.1 (w.done_holds enough)

theorem Writing.kept_done (w : Writing n s fd buf s₂) (kept : Kept n s) (entitled : s.Entitled fd)
    (claimed : s.claimed fd buf) (enough : s.enough fd buf) :
    Kept n (s₂.fwriteDone fd (s.eof fd buf)) := by
  obtain ⟨granted, _⟩ := granted_spec w.ready (s.needed fd buf)
  have marked := kept.marked.upto kept.files.toDirectory claimed enough
  refine ⟨w.done_files, w.owned_done kept.owned entitled ?_ enough, ?_⟩
  · intro b member i k held
    have := marked i k b held
    rw [Int.toNat_natCast, (granted b member).1] at this
    cases this
  · have after := w.marked marked w.grown_room (w.grown_covered enough)
    apply after.fewer _ (w.done_holds enough)
    intro b set
    rwa [FileSystem.marked, w.done_same.2]

theorem Kept.fwrite {r : FileSystem × Int} (kept : Kept n s) (range : fd < NUM_FD)
    (allowed : s.writes fd buf → s.Entitled fd ∧ s.claimed fd buf) (action : s.fwrite fd buf = some r) :
    Kept n r.1 ∧ WritesOwn s r.1 fd := by
  by_cases writes : s.writes fd buf
  · obtain ⟨entitled, claimed⟩ := allowed writes
    have first := kept.owned.first kept.files range writes.1 entitled
    have ready := kept.files.ready (by omega)
    have filed := kept.files.filed fd range writes.1
    obtain ⟨s₂, given, result⟩ := fwrite_spec ready range writes filed.position
    have w : Writing n s fd buf s₂ := ⟨kept.files, ready, range, writes, first.1, given⟩
    have owns := w.owns kept entitled
    rw [result, Option.some.injEq] at action
    subst action
    by_cases enough : (s.granted (s.needed fd buf)).length = s.needed fd buf
    · rw [if_pos enough]
      exact ⟨w.kept_done kept entitled claimed enough, owns.done w.loop_files kept.files.fmt w.oft.2.1 range
        w.oft.1 (fun e k used within => (kept.owned.data _ _ _
          (.inl ⟨e, kept.files.inodeNum used, within, rfl⟩)).1) _⟩
    · rw [if_neg enough]
      exact ⟨w.kept_failed kept, owns⟩
  · rw [fwrite_refused writes action]
    exact ⟨kept, .refl fd⟩

end

/-! ## The other calls -/

theorem Files.created (files : Files n s) {fd i : Nat} {filename : List Byte} {mode : Int}
    (creates : s.creates filename mode) (room : s.numentries < DIRECTORY_SIZE) (bound : fd < NUM_FD)
    (inRange : i < n) (free : (s.inode i).free n = true) : Files n (s.created fd i filename) := by
  have names {e j : Nat} : s.names e j → (s.created fd i filename).names e j :=
    fun entry => created_names.mpr (.inl entry)
  constructor
  · exact files.toDirectory.created creates room bound inRange free
  · intro fd' range opened
    by_cases same : fd' = fd
    · have file : (s.created fd i filename).oft fd' =
          ⟨true, 0, O_RDWR, some s.numentries, s.emptyInode i⟩ := by simp [FileSystem.created, same]
      rw [file]
      exact ⟨⟨s.numentries, i, created_names.mpr (.inr ⟨rfl, rfl⟩), rfl⟩, Int.le_refl 0, by simp,
        Int.le_refl 0, by simp [emptyInode]⟩
    · have file : (s.created fd i filename).oft fd' = s.oft fd' := Function.update_of_ne same _ _
      rw [file] at opened ⊢
      exact (files.filed fd' range opened).mono fun _ _ => names
  · intro e j entry
    rcases created_names.mp entry with entry | ⟨rfl, rfl⟩
    · rw [created_inode_other (files.other entry free)]
      exact files.stored e j entry
    · rw [created_inode_self]
      simp [emptyInode]
  · exact files.low
  · exact files.high
  · exact files.bitmap

theorem Files.reopened (files : Files n s) {fd e i : Nat} (flags : Int) (bound : fd < NUM_FD)
    (entry : s.names e i) : Files n (s.reopened fd e i flags) := by
  constructor
  · exact files.toDirectory.reopened bound
  · intro fd' range opened
    by_cases same : fd' = fd
    · have file : (s.reopened fd e i flags).oft fd' = ⟨true, 0, flags, some e, s.inode i⟩ := by
        simp [FileSystem.reopened, same]
      have size := files.stored e i entry
      rw [file]
      exact ⟨⟨e, i, entry, files.id e i entry⟩, Int.le_refl 0, by simp, size.1, size.2⟩
    · have file : (s.reopened fd e i flags).oft fd' = s.oft fd' := Function.update_of_ne same _ _
      rw [file] at opened ⊢
      exact (files.filed fd' range opened).mono fun _ _ entry => entry
  · exact files.stored
  · exact files.low
  · exact files.high
  · exact files.bitmap

theorem Files.moved (files : Files n s) {fd : Nat} {q : Int} (range : fd < NUM_FD)
    (opened : (s.oft fd).opened = true) (low : 0 ≤ q) (high : q < 5120) : Files n (s.moved fd q) := by
  have filed := files.filed fd range opened
  apply files.file
  · rfl
  · exact ⟨files.low, files.high, files.bitmap⟩
  · exact fun _ => ⟨filed.named, low, high, filed.size, filed.whole⟩
  · exact fun _ _ => rfl
  · exact files.stored

theorem moved_holds {fd : Nat} {q : Int} {i k : Nat} {b : Int} (dir : Directory n s)
    (held : (s.moved fd q).Holds (s.moved fd q).extents i k b) : s.Holds s.extents i k b := by
  have file (fd' : Nat) : ((s.moved fd q).oft fd').inode = (s.oft fd').inode ∧
      ((s.moved fd q).oft fd').opened = (s.oft fd').opened := by
    by_cases same : fd' = fd
    · simp [moved, same]
    · simp [moved, Function.update_of_ne same]
  have names : (s.moved fd q).names = s.names := rfl
  apply (held.mono fun fd' => ?_).keep dir names (fun _ _ => rfl) file
  apply Nat.le_of_eq
  rw [extents, extents, (file fd').1]

theorem Kept.moved (kept : Kept n s) {fd : Nat} {q : Int} (range : fd < NUM_FD)
    (opened : (s.oft fd).opened = true) (low : 0 ≤ q) (high : q < 5120) : Kept n (s.moved fd q) :=
  ⟨kept.files.moved range opened low high,
    kept.owned.fewer rfl fun _ _ _ => moved_holds kept.files.toDirectory,
    kept.marked.fewer (fun _ set => set) fun _ _ _ => moved_holds kept.files.toDirectory⟩

def closed (s : FileSystem) (fd : Nat) : FileSystem :=
  { s with oft := Function.update s.oft fd { s.oft fd with opened := false } }

theorem closed_holds {fd : Nat} {i k : Nat} {b : Int}
    (held : (s.closed fd).Holds (s.closed fd).extents i k b) : s.Holds s.extents i k b := by
  rcases held with disk | ⟨fd', e, range, opened, entry, id, within, block⟩
  · exact .inl disk
  · by_cases same : fd' = fd
    · simp [closed, same] at opened
    · have file : (s.closed fd).oft fd' = s.oft fd' := Function.update_of_ne same _ _
      rw [file] at opened id block
      rw [extents, file] at within
      exact .inr ⟨fd', e, range, opened, entry, id, within, block⟩

theorem Files.closed (files : Files n s) (fd : Nat) : Files n (s.closed fd) := by
  apply files.file
  · rfl
  · exact ⟨files.low, files.high, files.bitmap⟩
  · intro opened
    cases opened
  · exact fun _ _ => rfl
  · exact files.stored

theorem Kept.step {call : FileCall} (kept : Kept n s) (allowed : s.entitled call)
    (action : step call s = some s') : Kept n s' := by
  have files := kept.files
  cases call with
  | fcreate filename mode =>
      simp only [FileSystem.step, Option.some.injEq] at action
      subst action
      rcases fcreate_cases files.toDirectory allowed with
        ⟨_, result⟩ | ⟨fd, i, creates, room, bound, closed, inRange, free, result⟩
      · rwa [result]
      · rw [result]
        have holds := created_holds files free fd filename inRange
        exact ⟨files.created creates room bound inRange free, kept.owned.fewer rfl holds,
          kept.marked.fewer (fun _ set => set) holds⟩
  | fopen filename flags =>
      simp only [FileSystem.step, Option.some.injEq] at action
      subst action
      rcases fopen_cases files.toDirectory allowed flags with
        result | ⟨fd, bound, result⟩ | ⟨fd, e, i, bound, closed, entry, found, result⟩
      · rwa [result]
      · rw [result]
        have dir : Directory n { s with nextOpenFd := fd } :=
          files.toDirectory.same (files.fmt.same rfl) rfl rfl (fun _ _ => rfl) bound files.next
        exact ⟨⟨dir, fun fd range opened => { files.filed fd range opened with }, files.stored,
          files.low, files.high, files.bitmap⟩, kept.owned.fewer rfl fun _ _ _ held => held,
          kept.marked.fewer (fun _ set => set) fun _ _ _ held => held⟩
      · rw [result]
        have holds := reopened_holds files.toDirectory entry fd flags
        exact ⟨files.reopened flags bound entry, kept.owned.fewer rfl holds,
          kept.marked.fewer (fun _ set => set) holds⟩
  | fwrite fd buf =>
      simp only [FileSystem.step, Option.map_eq_some_iff] at action
      obtain ⟨r, action, rfl⟩ := action
      obtain ⟨fd, rfl, range⟩ := fwrite_range action
      exact (kept.fwrite range allowed action).1
  | fread fd nbytes =>
      simp only [FileSystem.step, Option.map_eq_some_iff] at action
      obtain ⟨r, action, rfl⟩ := action
      rcases fread_cases action with same | ⟨fd, rfl, range, opened, q, moved, low, high, _⟩
      · rwa [same]
      · rw [moved]
        have := (files.filed fd range opened).position
        exact kept.moved range opened (by omega) high
  | fseek fd offset =>
      simp only [FileSystem.step, Option.map_eq_some_iff] at action
      obtain ⟨r, action, rfl⟩ := action
      rcases fseek_cases action with same | ⟨fd, rfl, range, opened, q, moved, low, high, _⟩
      · rwa [same]
      · rw [moved]
        exact kept.moved range opened low high
  | fclose fd =>
      simp only [FileSystem.step, Option.map_eq_some_iff] at action
      obtain ⟨r, action, rfl⟩ := action
      rcases fclose_cases action with rfl | ⟨fd, rfl, range, opened, rfl⟩
      · exact kept
      · exact ⟨files.closed fd, kept.owned.fewer rfl fun _ _ _ => closed_holds,
          kept.marked.fewer (fun _ set => set) fun _ _ _ => closed_holds⟩

end

/-! ## Ownership over runs -/

theorem formatted_files (device : Int → Byte) {numInodes : Int} (word : numInodes < 2 ^ 31)
    (address : Nat) (memory : Nat → Byte) :
    Files (if numInodes < 1 then DEFAULT_NUM_INODES else numInodes.toNat)
      (formatted device numInodes address memory) := by
  have closed (fd : Nat) (range : fd < NUM_FD) :
      ((formatted device numInodes address memory).oft fd).opened = false := by
    simp only [formatted, mkfs]
    simp [closedFile, range]
  constructor
  · exact formatted_directory device word address memory
  · intro fd range opened
    rw [closed fd range] at opened
    cases opened
  · intro e i entry
    cases entry.1
  · exact Nat.le_refl _
  · exact fun room => room
  · rw [marked, formatted_freemask (by decide)]
    decide

theorem formatted_kept (device : Int → Byte) {numInodes : Int} (word : numInodes < 2 ^ 31)
    (address : Nat) (memory : Nat → Byte) :
    Kept (if numInodes < 1 then DEFAULT_NUM_INODES else numInodes.toNat)
      (formatted device numInodes address memory) := by
  have none (len : Nat → Nat) (i k : Nat) (b : Int) :
      ¬ (formatted device numInodes address memory).Holds len i k b := by
    rintro (⟨e, entry, _⟩ | ⟨_, e, _, _, entry, _⟩)
    · cases entry.1
    · cases entry.1
  exact ⟨formatted_files device word address memory,
    ⟨fun i k b held => absurd held (none _ i k b), fun i k i' k' b held => absurd held (none _ i k b)⟩,
    fun i k b held => absurd held (none _ i k b)⟩

section
variable {s : FileSystem}

structure BlocksOwned (s : FileSystem) : Prop where
  data : ∀ e k, e < s.numentries → k < (s.fileInode e).extent →
    (s.firstDataBlock : Int) ≤ (s.fileInode e).block k ∧ (s.fileInode e).block k < s.nblocks
  marked : ∀ e k, e < s.numentries → k < (s.fileInode e).extent →
    s.getmaskbit ((s.fileInode e).block k).toNat = 1
  unique : ∀ e k e' k', e < s.numentries → e' < s.numentries → k < (s.fileInode e).extent →
    k' < (s.fileInode e').extent → (s.fileInode e).block k = (s.fileInode e').block k' →
    e = e' ∧ k = k'

theorem Kept.blocksOwned {n : Nat} (kept : Kept n s) : BlocksOwned s := by
  have held (e k : Nat) (used : e < s.numentries) (within : k < (s.fileInode e).extent) :
      s.Holds s.extents (s.entry e).inodeNum.toNat k ((s.fileInode e).block k) :=
    .inl ⟨e, kept.files.inodeNum used, within, rfl⟩
  constructor
  · intro e k used within
    rw [kept.files.fmt.nblocks]
    exact kept.owned.data _ _ _ (held e k used within)
  · intro e k used within
    rw [getmaskbit_eq, kept.marked _ _ _ (held e k used within), if_pos rfl]
  · intro e k e' k' used used' within within' same
    have second := held e' k' used' within'
    rw [← same] at second
    have unique := kept.owned.unique _ _ _ _ _ (held e k used within) second
    have entry := kept.files.inodeNum used
    rw [unique.1] at entry
    exact ⟨kept.files.single e e' _ entry (kept.files.inodeNum used'), unique.2⟩

/-- In every run in which `fwrite` starts in a block of its own file, the files own their blocks and
`fwrite` writes to nothing that is not its own. -/
theorem blocks_owned {device : Int → Byte} {numInodes : Int} (word : numInodes < 2 ^ 31)
    {address : Nat} {memory : Nat → Byte}
    (reach : Reach step entitled (formatted device numInodes address memory) s) :
    BlocksOwned s ∧ ∀ fd buf r, s.entitled (.fwrite fd buf) → s.fwrite fd buf = some r →
      WritesOwn s r.1 fd.toNat := by
  have kept := reach.invariant (formatted_kept device word address memory)
    fun _ _ _ kept allowed action => kept.step allowed action
  refine ⟨kept.blocksOwned, fun fd buf r allowed action => ?_⟩
  obtain ⟨fd, rfl, range⟩ := fwrite_range action
  exact (kept.fwrite range allowed action).2

def blockZero (a : Int) : Byte := if 1024 ≤ a ∧ a < 1028 then 255 else 0

theorem blockZero_inode :
    ((formatted blockZero 128 0 fun _ => 0).inode 0).free 128 = true ∧
      ((formatted blockZero 128 0 fun _ => 0).inode 0).block 0 = 0 := by
  rw [formatted_inode]
  decide

theorem formatted_create {device : Int → Byte} {n : Nat} {address : Nat} {memory : Nat → Byte}
    (positive : 1 ≤ n) (word : n < 2 ^ 31)
    (free : ((formatted device n address memory).inode 0).free n = true) {filename : List Byte}
    (name : isName filename) (short : filename.length < FILENAMELEN) :
    (formatted device n address memory).fcreate filename O_CREAT =
      ((formatted device n address memory).created 0 0 filename, 0) := by
  have fmt := formatted_fmt device n address memory
  rw [if_neg (by omega), Int.toNat_natCast] at fmt
  have absent : (formatted device n address memory).lookup filename = none := by
    rw [lookup, List.find?_eq_none]
    intro e _
    have empty : ((formatted device n address memory).entry e).name = [] := rfl
    simp [sameName, empty, name.1]
  have first : probe (fun i => ((formatted device n address memory).inode i).free n) 0 n n 0 = (0, true) := by
    obtain ⟨m, rfl⟩ : ∃ m, n = m + 1 := ⟨n - 1, by omega⟩
    rw [probe, if_pos free]
  exact fcreate_eq fmt word ⟨short, rfl, absent⟩ rfl rfl positive first positive

theorem fwrite_within {n fd i : Nat} {buf : List Byte} (ready : Ready n s) (word : n < 2 ^ 31)
    (range : fd < NUM_FD) (writes : s.writes fd buf) (position : 0 ≤ (s.oft fd).fileptr)
    (fits : buf.length + (s.oft fd).fileptr % 512 ≤ 512) (bound : i < n)
    (id : (s.oft fd).inode.id = BitVec.ofNat 32 i) :
    ∃ s', s.fwrite fd buf = some (s', (buf.length : Int)) ∧ s'.numentries = s.numentries ∧
      s'.entry = s.entry ∧ s'.firstDataBlock = s.firstDataBlock ∧
      s'.inode i = sized (s.oft fd).inode (s.eof fd buf) ((s.oft fd).fileptr + buf.length) ∧
      s'.oft fd = { s.oft fd with
        fileptr := (s.oft fd).fileptr + buf.length
        inode := s'.inode i } ∧
      Formatted n s' ∧ ∀ j : Nat, j < 64 → s'.dev0Blocks (slot i + j) = (s'.inode i).encode.getD j 0 := by
  have all : s.headLength fd buf = buf.length := by
    simp only [headLength]
    omega
  have none : s.needed fd buf = 0 := by
    simp only [needed, all]
    omega
  obtain ⟨s₂, given, result⟩ := fwrite_spec ready range writes position
  have empty : s.granted (s.needed fd buf) = [] := by
    rw [none]
    rfl
  rw [empty, none] at result
  rw [empty, all] at given
  have file : s₂.oft fd = { s.oft fd with fileptr := (s.oft fd).fileptr + buf.length } := by
    rw [given.file]
    simp [filled, Inode.setBlocks]
  have fmt : Formatted n s₂ := by
    rw [given.rest]
    exact ready.fmt.same rfl
  have id₂ : (s₂.oft fd).inode.id = BitVec.ofNat 32 i := by rw [file, id]
  have stored := fwriteDone_inode fmt word bound id₂ (s.eof fd buf) i
  rw [if_pos rfl] at stored
  refine ⟨_, result, ?_, ?_, ?_, ?_, ?_, ?_, ?_⟩
  · rw [fwriteDone_eq fmt word bound id₂]
    simp only
    rw [given.rest]
    rfl
  · rw [fwriteDone_eq fmt word bound id₂]
    simp only
    rw [given.rest]
    rfl
  · rw [fwriteDone_eq fmt word bound id₂, given.rest]
    rfl
  · exact stored.trans (by rw [file])
  · change (s₂.fwriteDone fd (s.eof fd buf)).oft fd =
      { s.oft fd with
        fileptr := (s.oft fd).fileptr + buf.length
        inode := (s₂.fwriteDone fd (s.eof fd buf)).inode i }
    rw [stored, fwriteDone_eq fmt word bound id₂]
    simp only [Function.update_self]
    rw [file]
  · rw [fwriteDone_eq fmt word bound id₂]
    exact fmt.same rfl
  · intro j within
    change (s₂.fwriteDone fd (s.eof fd buf)).dev0Blocks (slot i + j) =
      ((s₂.fwriteDone fd (s.eof fd buf)).inode i).encode.getD j 0
    have index : (slot i + j - slot i : Int).toNat = j := by omega
    rw [stored, fwriteDone_eq fmt word bound id₂]
    simp only
    rw [store_within ⟨by omega, by rw [Inode.length_encode, Inode.SIZE]; omega⟩ 0, index]

def lastBlock (a : Int) : Byte :=
  if a % 64 < 4 ∨ a % 64 = 16 then 255 else if a % 64 = 17 then 1 else 0

theorem lastBlock_inode (i : Nat) : ((formatted lastBlock 4072 0 fun _ => 0).inode i).free 4072 = true ∧
    ((formatted lastBlock 4072 0 fun _ => 0).inode i).block 0 = 511 := by
  have bytes : load lastBlock (slot i) 64 = load lastBlock 0 64 := by
    apply List.map_congr_left
    intro j _
    simp only [lastBlock, slot]
    congr 2 <;> simp only [eq_iff_iff] <;> omega
  rw [formatted_inode, bytes]
  decide

theorem lastBlock_kept : Kept 4072 (formatted lastBlock 4072 0 fun _ => 0) :=
  formatted_kept lastBlock (by decide : (4072 : Int) < 2 ^ 31) 0 fun _ => 0

def Blank (s : FileSystem) : Prop := ∀ i k b, ¬ s.Holds s.extents i k b

theorem Blank.entitled (blank : Blank s) {fd : Nat} (start : (s.oft fd).fileptr = 0)
    (data : (s.firstDataBlock : Int) ≤ (s.oft fd).inode.block 0 ∧
      (s.oft fd).inode.block 0 < MDEV_NUM_BLOCKS) : s.Entitled fd := by
  have zero {k : Nat} (behind : s.behind fd k) : k = 0 := by
    have := behind.2
    rw [current, start] at this
    simpa using this
  constructor
  · intro k behind
    rwa [zero behind]
  · exact fun k i k' _ held => absurd held (blank _ _ _)
  · intro k k' behind behind' _
    rw [zero behind, zero behind']

theorem Blank.created (blank : Blank s) {n i : Nat} (files : Files n s) (free : (s.inode i).free n = true)
    (bound : i < n) (fd : Nat) (filename : List Byte) : Blank (s.created fd i filename) :=
  fun j k b held => blank j k b (created_holds files free fd filename bound j k b held)

theorem Writing.inode_keep {n fd : Nat} {buf : List Byte} {s₂ : FileSystem} (w : Writing n s fd buf s₂)
    {i : Nat} (bound : i < n) : s₂.inode i = s.inode i := by
  have granted := (granted_spec w.ready (s.needed fd buf)).1
  rw [w.given.inode_keep w.filled_files.fmt (fun b member => (granted b member).2.1) bound,
    w.filled_inode bound]

theorem Blank.failed {n fd : Nat} {buf : List Byte} {s₂ : FileSystem} (blank : Blank s)
    (w : Writing n s fd buf s₂) : Blank s₂ := by
  have names : s₂.names = s.names := by
    rw [w.given.rest]
    rfl
  rintro i k b (⟨e, entry, within, _⟩ | ⟨fd', e, range, opened, entry, id, within, _⟩)
  · rw [names] at entry
    rw [w.inode_keep (w.files.bound entry)] at within
    exact blank i k _ (.inl ⟨e, entry, within, rfl⟩)
  · rw [names] at entry
    rw [w.extents] at within
    by_cases same : fd' = fd
    · subst same
      exact blank i k _ (.inr ⟨fd', e, range, w.writes.1, entry, w.oft.2.1 ▸ id, within, rfl⟩)
    · rw [w.oft.2.2.2 fd' same] at opened id
      exact blank i k _ (.inr ⟨fd', e, range, opened, entry, id, within, rfl⟩)

theorem Blank.takes {n : Nat} {buf : List Byte} (kept : Kept n s) (blank : Blank s)
    (opened : (s.oft 0).opened = true) (mode : (s.oft 0).mode = O_RDWR) (start : (s.oft 0).fileptr = 0)
    (block : (s.oft 0).inode.block 0 = 511) (first : s.firstDataBlock = 511)
    (unmarked : s.marked 511 = false) (long : buf.length = 1025) :
    s.entitled (.fwrite 0 buf) ∧ ∃ s₂, s.fwrite 0 buf = some (s₂, SYSERR) ∧ Blank s₂ ∧
      s₂.marked 511 = true ∧ s₂.numentries = s.numentries ∧ s₂.entry = s.entry ∧
      s₂.oft 1 = s.oft 1 ∧ ∀ i, i < n → s₂.inode i = s.inode i := by
  have entitled : s.Entitled 0 := blank.entitled start (by rw [block, first]; decide)
  have ready := kept.files.ready (by rw [first]; decide)
  have nonempty : buf ≠ [] := by
    rintro rfl
    cases long
  have writes : s.writes 0 buf := ⟨opened, .inr mode, nonempty, by rw [start, long]; decide⟩
  have need : s.needed 0 buf = 2 := by
    simp only [needed, headLength, start, long]
    decide
  have cursor : s.nextFreeDataBlock = 511 := by
    have low := ready.low
    have high := ready.high
    simp only [MDEV_NUM_BLOCKS] at high
    omega
  have only : s.granted 2 = [511] := by
    rw [granted, first, cursor, kept.files.fmt.nblocks]
    simp [MDEV_NUM_BLOCKS, probes, probe, unmarked]
  have few : ¬ s.enough 0 buf := by
    rw [enough, need, only]
    decide
  obtain ⟨s₂, given, result⟩ := fwrite_spec ready (by decide) writes (by omega)
  have own : (s.firstDataBlock : Int) ≤ (s.oft 0).inode.block (s.current 0) := by
    have current : s.current 0 = 0 := by rw [current, start]; rfl
    rw [current, block, first]
    decide
  have w : Writing n s 0 buf s₂ := ⟨kept.files, ready, by decide, writes, own, given⟩
  refine ⟨fun _ => ⟨entitled, fun enough => absurd enough few⟩, s₂, ?_, blank.failed w, ?_, ?_, ?_, ?_, ?_⟩
  · exact result.trans (congrArg some (if_neg few))
  · rw [given.marked, need, only]
    simp
  · rw [given.rest]
    rfl
  · rw [given.rest]
    rfl
  · exact w.oft.2.2.2 1 (by decide)
  · exact fun i bound => w.inode_keep bound

theorem lastBlock_taken : ∃ s, Reach step entitled (formatted lastBlock 4072 0 fun _ => 0) s ∧
    Kept 4072 s ∧ Blank s ∧ s.marked 511 = true ∧ s.numentries = 1 ∧
    s.entry = Function.update (fun _ => ⟨0, []⟩) 0 ⟨0, [97]⟩ ∧ (s.oft 1).opened = false ∧
    ∀ i, i < 4072 → i ≠ 0 → s.inode i = (formatted lastBlock 4072 0 fun _ => 0).inode i := by
  have kept := lastBlock_kept
  have free := (lastBlock_inode 0).1
  have made := formatted_create (n := 4072) (by decide) (by decide) free
    (⟨by decide, by decide⟩ : isName [97]) (by decide)
  have create : step (.fcreate [97] O_CREAT) (formatted lastBlock 4072 0 fun _ => 0) =
      some ((formatted lastBlock 4072 0 fun _ => 0).created 0 0 [97]) :=
    congrArg (fun r : FileSystem × Int => some r.1) made
  have provided : (formatted lastBlock 4072 0 fun _ => 0).provided :=
    ⟨by decide, ⟨0, by decide, rfl⟩, 0, by decide, free⟩
  have allowed : entitled (formatted lastBlock 4072 0 fun _ => 0) (.fcreate [97] O_CREAT) :=
    fun _ => provided
  have reach : Reach step entitled (formatted lastBlock 4072 0 fun _ => 0)
      ((formatted lastBlock 4072 0 fun _ => 0).created 0 0 [97]) := .next .init allowed create
  have kept₁ := kept.step allowed create
  have blank₀ : Blank (formatted lastBlock 4072 0 fun _ => 0) := by
    rintro i k b (⟨e, entry, _⟩ | ⟨_, e, _, _, entry, _⟩)
    · cases entry.1
    · cases entry.1
  have blank := blank₀.created kept.files free (by decide) 0 [97]
  have old (i : Nat) (other : i ≠ 0) : ((formatted lastBlock 4072 0 fun _ => 0).created 0 0 [97]).inode i =
      (formatted lastBlock 4072 0 fun _ => 0).inode i := created_inode_other other.symm
  have file : ((formatted lastBlock 4072 0 fun _ => 0).created 0 0 [97]).oft 0 =
      ⟨true, 0, O_RDWR, some 0, (formatted lastBlock 4072 0 fun _ => 0).emptyInode 0⟩ := by
    simp only [created, Function.update_self]
    rfl
  have first : ((formatted lastBlock 4072 0 fun _ => 0).created 0 0 [97]).firstDataBlock = 511 := by
    rw [kept₁.files.fmt.firstDataBlock]
  have closed : (((formatted lastBlock 4072 0 fun _ => 0).created 0 0 [97]).oft 1).opened = false := rfl
  have unmarked : ((formatted lastBlock 4072 0 fun _ => 0).created 0 0 [97]).marked 511 = false := by
    change (formatted lastBlock 4072 0 fun _ => 0).marked 511 = false
    rw [marked, formatted_freemask (by decide)]
    decide
  have count : ((formatted lastBlock 4072 0 fun _ => 0).created 0 0 [97]).numentries = 1 := rfl
  have name : ((formatted lastBlock 4072 0 fun _ => 0).created 0 0 [97]).entry =
      Function.update (fun _ => ⟨0, []⟩) 0 ⟨0, [97]⟩ := rfl
  have block : (((formatted lastBlock 4072 0 fun _ => 0).created 0 0 [97]).oft 0).inode.block 0 = 511 := by
    rw [file, emptyInode_block, (lastBlock_inode 0).2]
  generalize (formatted lastBlock 4072 0 fun _ => 0).created 0 0 [97] = s at *
  obtain ⟨allowed, s₂, write, blank₂, marked, numentries, entry, closed₂, inode⟩ :=
    @Blank.takes _ _ (List.replicate 1025 1) kept₁ blank (by rw [file]) (by rw [file]) (by rw [file]) block
      first unmarked List.length_replicate
  have action : step (.fwrite 0 (List.replicate 1025 1)) s = some s₂ := congrArg (Option.map Prod.fst) write
  refine ⟨s₂, .next reach allowed action, kept₁.step allowed action, blank₂, marked, ?_, ?_, ?_, ?_⟩
  · rw [numentries, count]
  · rw [entry, name]
  · rw [closed₂, closed]
  · intro i bound other
    rw [inode i bound, old i other]

theorem secondFile_owned : ∃ s, BlocksOwned s ∧ s.numentries = 2 ∧ (s.fileInode 1).extent = 1 ∧
    (s.fileInode 1).block 0 = 511 := by
  obtain ⟨s, reach, kept, blank, marked, count, name, closed, inode⟩ := lastBlock_taken
  have files := kept.files
  have provided : s.provided := by
    refine ⟨by rw [count]; decide, ⟨1, by decide, closed⟩, 1, ?_, ?_⟩
    · rw [files.fmt.ninodes]
      decide
    · rw [files.fmt.ninodes, inode 1 (by decide) (by decide)]
      exact (lastBlock_inode 1).1
  have creates : s.creates [98] O_CREAT := by
    refine ⟨by decide, rfl, ?_⟩
    rw [lookup, List.find?_eq_none]
    intro e _
    rw [name]
    by_cases zero : e = 0
    · simp [zero, sameName]
    · simp [zero, sameName]
  rcases fcreate_cases files.toDirectory (fun _ => provided) with ⟨refused, _⟩ | found
  · exact absurd creates refused
  · obtain ⟨fd, i, _, _, range, _, bound, free, made⟩ := found
    have entry : s.names 0 0 := ⟨by rw [count]; decide, by rw [name]; rfl⟩
    have other : i ≠ 0 := files.other entry free
    have create : step (.fcreate [98] O_CREAT) s = some (s.created fd i [98]) :=
      congrArg (fun r : FileSystem × Int => some r.1) made
    have allowed : s.entitled (.fcreate [98] O_CREAT) := fun _ => provided
    have reach₁ := reach.next allowed create
    have kept₁ := kept.step allowed create
    have blank₁ := blank.created files free bound fd [98]
    have file : (s.created fd i [98]).oft fd = ⟨true, 0, O_RDWR, some 1, s.emptyInode i⟩ := by
      simp only [created, Function.update_self, count]
    have start : ((s.created fd i [98]).oft fd).fileptr = 0 := by rw [file]
    have block : ((s.created fd i [98]).oft fd).inode.block 0 = 511 := by
      rw [file, emptyInode_block, inode i bound other, (lastBlock_inode i).2]
    have first : (s.created fd i [98]).firstDataBlock = 511 := kept₁.files.fmt.firstDataBlock
    have own : (s.created fd i [98]).Entitled fd :=
      blank₁.entitled (by rw [file]) (by rw [block, first]; decide)
    have claimed : (s.created fd i [98]).claimed fd [7] := by
      intro _ k behind
      have zero : k = 0 := by
        have := behind.2
        rw [current, file] at this
        simpa using this
      rw [zero, block]
      exact marked
    have writes : (s.created fd i [98]).writes fd [7] :=
      ⟨by rw [file], .inr (by rw [file]), by simp, by rw [start]; decide⟩
    have ready := kept₁.files.ready (by rw [first]; decide)
    obtain ⟨s₂, written, numentries, entries, _, stored, _⟩ := fwrite_within (i := i) ready files.word range
      writes (Int.le_of_eq start.symm) (by rw [start]; decide) bound (by rw [file]; rfl)
    have write : step (.fwrite fd [7]) (s.created fd i [98]) = some s₂ :=
      congrArg (Option.map Prod.fst) written
    have number : (s₂.entry 1).inodeNum.toNat = i := by
      rw [entries]
      simp [created, count]
    have last : s₂.fileInode 1 = s₂.inode i := by rw [fileInode, number]
    refine ⟨s₂, (blocks_owned (by decide) (reach₁.next (a := .fwrite fd [7]) ?_ write)).1, ?_, ?_, ?_⟩
    · intro _
      rw [Int.toNat_natCast]
      exact ⟨own, claimed⟩
    · rw [numentries, created, count]
    · have size : (s₂.inode i).size = 1 := by
        rw [stored, eof, file]
        rfl
      rw [last, Inode.extent, size]
      decide
    · rw [last, stored, sized_fields.2, block]

theorem writeFirst_unowned : ∃ s, Reach step (fun _ _ => True) (formatted blockZero 128 0 fun _ => 0) s ∧
    ¬ BlocksOwned s := by
  have files := formatted_files blockZero (by decide : (128 : Int) < 2 ^ 31) 0 fun _ => 0
  have empty := blockZero_inode.1
  have made := formatted_create (n := 128) (by decide) (by decide) empty
    (⟨by decide, by decide⟩ : isName [97]) (by decide)
  have writes : ((formatted blockZero 128 0 fun _ => 0).created 0 0 [97]).writes 0 [120] :=
    ⟨rfl, .inr rfl, by simp, by decide⟩
  have ready : Ready 128 ((formatted blockZero 128 0 fun _ => 0).created 0 0 [97]) :=
    ⟨files.fmt.same rfl, by decide, files.low, files.high (by decide), files.bitmap⟩
  obtain ⟨s, written, numentries, entry, first, inode, _⟩ := fwrite_within (i := 0) ready (by decide)
    (by decide) writes (by decide) (by decide) (by decide) rfl
  have create : step (.fcreate [97] O_CREAT) (formatted blockZero 128 0 fun _ => 0) =
      some ((formatted blockZero 128 0 fun _ => 0).created 0 0 [97]) :=
    congrArg (fun r : FileSystem × Int => some r.1) made
  have write : step (.fwrite 0 [120]) ((formatted blockZero 128 0 fun _ => 0).created 0 0 [97]) =
      some s := congrArg (Option.map Prod.fst) written
  refine ⟨s, .next (.next .init trivial create) trivial write, fun owned => ?_⟩
  have used : 0 < s.numentries := by
    rw [numentries]
    exact Nat.zero_lt_succ _
  have number : (s.entry 0).inodeNum = 0 := by
    rw [entry]
    rfl
  have file : s.fileInode 0 = s.inode 0 := by rw [fileInode, number, Int.toNat_zero]
  simp only [created, Function.update_self] at inode
  have block : (s.inode 0).block 0 = 0 := by
    rw [inode, sized_fields.2, emptyInode_block, blockZero_inode.2]
  have size : (s.inode 0).extent = 1 := by
    rw [inode]
    rfl
  have data := (owned.data 0 0 used (by rw [file, size]; exact Nat.one_pos)).1
  rw [file, block, first] at data
  revert data
  decide

end
end FileSystem
end Xinu
