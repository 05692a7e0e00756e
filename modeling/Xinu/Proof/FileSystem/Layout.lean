import Xinu.System.FileSystem

namespace Xinu
open Lib

namespace Inode

theorem length_encode (x : Inode) : x.encode.length = SIZE := by simp [encode]

theorem getD_encode (x : Inode) {i : Nat} (bound : i < SIZE) : x.encode.getD i 0 = x.byte i := by
  simp [encode, List.getD, bound]

theorem decode_encode (x : Inode) : decode x.encode = x := by
  have word (i : Nat) (w : BitVec 32) (last : i + 3 < SIZE)
      (same : ∀ j, j < 4 → x.byte (i + j) = wordByte w j) : wordAt x.encode i = w := by
    apply wordAt_of_bytes
    intro j bound
    rw [getD_encode x (by omega), same j bound]
  have half (i : Nat) (w : BitVec 16) (last : i + 1 < SIZE)
      (same : ∀ j, j < 2 → x.byte (i + j) = halfByte w j) : halfAt x.encode i = w := by
    apply halfAt_of_bytes
    intro j bound
    rw [getD_encode x (by omega), same j bound]
  have id : wordAt x.encode 0 = x.id := by
    apply word 0 _ (by decide)
    intro j bound
    simp [byte, bound]
  have type : halfAt x.encode 4 = x.type := by
    apply half 4 _ (by decide)
    intro j bound
    have : 4 + j < 6 := by omega
    have : ¬ 4 + j < 4 := by omega
    simp [byte, *]
  have nlink : halfAt x.encode 6 = x.nlink := by
    apply half 6 _ (by decide)
    intro j bound
    have : 6 + j < 8 := by omega
    have : ¬ 6 + j < 4 := by omega
    have : ¬ 6 + j < 6 := by omega
    simp [byte, *]
  have device : wordAt x.encode 8 = x.device := by
    apply word 8 _ (by decide)
    intro j bound
    have : 8 + j < 12 := by omega
    have : ¬ 8 + j < 4 := by omega
    have : ¬ 8 + j < 6 := by omega
    have : ¬ 8 + j < 8 := by omega
    simp [byte, *]
  have size : wordAt x.encode 12 = x.size := by
    apply word 12 _ (by decide)
    intro j bound
    have : 12 + j < 16 := by omega
    have : ¬ 12 + j < 4 := by omega
    have : ¬ 12 + j < 6 := by omega
    have : ¬ 12 + j < 8 := by omega
    have : ¬ 12 + j < 12 := by omega
    simp [byte, *]
  have blocks (k : Fin INODEBLOCKS) : wordAt x.encode (16 + 4 * k) = x.blocks k := by
    have last : (k : Nat) < 12 := k.isLt
    apply word _ _ (by simp only [SIZE]; omega)
    intro j bound
    have index : (16 + 4 * (k : Nat) + j - 16) / 4 = k := by omega
    have rest : (16 + 4 * (k : Nat) + j - 16) % 4 = j := by omega
    have : ¬ 16 + 4 * (k : Nat) + j < 4 := by omega
    have : ¬ 16 + 4 * (k : Nat) + j < 6 := by omega
    have : ¬ 16 + 4 * (k : Nat) + j < 8 := by omega
    have : ¬ 16 + 4 * (k : Nat) + j < 12 := by omega
    have : ¬ 16 + 4 * (k : Nat) + j < 16 := by omega
    simp only [byte, *, if_false]
    congr 2
    exact Fin.ext (Nat.mod_eq_of_lt last)
  simp [decode, id, type, nlink, device, size, blocks]

end Inode

namespace FileSystem

structure Formatted (n : Nat) (s : FileSystem) : Prop where
  nblocks : s.nblocks = 512
  blocksz : s.blocksz = 512
  ninodes : s.ninodes = n
  freemaskbytes : s.freemaskbytes = 64
  dev0Blocksize : s.dev0Blocksize = 512

def slot (i : Nat) : Int := 1024 + 64 * i

def inode (s : FileSystem) (i : Nat) : Inode := Inode.decode (load s.dev0Blocks (slot i) 64)

section
variable {n i j : Nat} {s : FileSystem} {x : Inode}

namespace Formatted

theorem same {s' : FileSystem} (fmt : Formatted n s)
    (same : (s'.nblocks, s'.blocksz, s'.ninodes, s'.freemaskbytes, s'.dev0Blocksize) =
      (s.nblocks, s.blocksz, s.ninodes, s.freemaskbytes, s.dev0Blocksize)) : Formatted n s' := by
  simp only [Prod.mk.injEq] at same
  obtain ⟨nblocks, blocksz, ninodes, freemaskbytes, dev0Blocksize⟩ := same
  exact ⟨nblocks.trans fmt.nblocks, blocksz.trans fmt.blocksz, ninodes.trans fmt.ninodes,
    freemaskbytes.trans fmt.freemaskbytes, dev0Blocksize.trans fmt.dev0Blocksize⟩

theorem inodesPerBlock (fmt : Formatted n s) : s.inodesPerBlock = 8 := by
  rw [FileSystem.inodesPerBlock, fmt.blocksz, Inode.SIZE]

theorem firstDataBlock (fmt : Formatted n s) : s.firstDataBlock = 2 + (n + 7) / 8 := by
  rw [FileSystem.firstDataBlock, numInodeBlocks, fmt.inodesPerBlock, fmt.ninodes]
  split <;> omega

theorem inode_address (fmt : Formatted n s) (word : i < 2 ^ 32) :
    (s.inodeBlock i : Int) * 512 + s.inodeOff i = slot i ∧ s.inodeOff i + 64 ≤ 512 := by
  have unsigned : ((i : Int) % 2 ^ 32).toNat = i := by omega
  simp only [inodeBlock, inodeOff, fmt.inodesPerBlock, unsigned, slot, Inode.SIZE, FIRST_INODE_BLOCK]
  omega

theorem bread (fmt : Formatted n s) {b off : Int} (within : off < 512) {len : Nat} :
    s.bread b off len = some (load s.dev0Blocks (512 * b + off) len) := by
  simp only [FileSystem.bread, fmt.dev0Blocksize]
  rw [if_neg (by omega), Int.mul_comm]
  rfl

theorem bwrite (fmt : Formatted n s) {b off : Int} (within : off < 512) {buf : List Byte} :
    s.bwrite b off buf = some { s with dev0Blocks := store s.dev0Blocks (512 * b + off) buf } := by
  simp only [FileSystem.bwrite, fmt.dev0Blocksize]
  rw [if_neg (by omega), Int.mul_comm]
  rfl

theorem getInodeByNum (fmt : Formatted n s) (accepted : i ≤ n) (word : i < 2 ^ 32) :
    s.getInodeByNum 0 i x = s.inode i := by
  obtain ⟨address, within⟩ := fmt.inode_address word
  have inRange : ¬ (i : Int) > n := by omega
  simp only [FileSystem.getInodeByNum, FileSystem.bread, fmt.ninodes, fmt.dev0Blocksize, fmt.blocksz, inRange]
  rw [if_neg (by simp), if_neg (by simp), if_neg (by simp)]
  simp only [Inode.SIZE, Int.add_zero]
  rw [load_part _ within]
  simp only [Int.cast_ofNat_Int, address]
  rfl

theorem putInodeByNum (fmt : Formatted n s) (accepted : i ≤ n) (word : i < 2 ^ 32) :
    s.putInodeByNum 0 i x = { s with dev0Blocks := store s.dev0Blocks (slot i) x.encode } := by
  obtain ⟨address, within⟩ := fmt.inode_address word
  have inRange : ¬ (i : Int) > n := by omega
  have length : x.encode.length = 64 := x.length_encode
  rw [← length] at within
  simp only [FileSystem.putInodeByNum, FileSystem.bread, FileSystem.bwrite, fmt.ninodes, fmt.dev0Blocksize, fmt.blocksz,
    inRange]
  rw [if_neg (by simp), if_neg (by simp), if_neg (by simp)]
  simp only [Int.add_zero]
  rw [store_part _ within]
  simp only [Int.cast_ofNat_Int, address]
  rfl

end Formatted

theorem inode_congr {s' : FileSystem}
    (same : ∀ a : Int, slot i ≤ a → a < slot i + 64 → s'.dev0Blocks a = s.dev0Blocks a) :
    s'.inode i = s.inode i := by
  rw [inode, inode, load_congr same]

theorem inode_store_same {s' : FileSystem}
    (stored : s'.dev0Blocks = store s.dev0Blocks (slot i) x.encode) : s'.inode i = x := by
  have : load s'.dev0Blocks (slot i) x.encode.length = x.encode := by rw [stored, load_store_same]
  rw [x.length_encode] at this
  rw [inode, this, x.decode_encode]

theorem inode_store_other {s' : FileSystem}
    (stored : s'.dev0Blocks = store s.dev0Blocks (slot i) x.encode) (other : i ≠ j) :
    s'.inode j = s.inode j := by
  apply inode_congr
  intro a lo hi
  rw [stored]
  apply store_off
  simp only [x.length_encode, slot, Inode.SIZE] at *
  omega

end

inductive Region
  | superblock
  | bitmap
  | inode (inodeNumber : Int)
  | data (b : Nat)

/-- The regions that the file system uses; an inode number is an `int` that is not rejected. -/
def Region.used (s : FileSystem) : Region → Prop
  | .superblock => True
  | .bitmap => True
  | .inode i => -2 ^ 31 ≤ i ∧ i < 2 ^ 31 ∧ ¬ i > s.ninodes
  | .data b => s.firstDataBlock ≤ b ∧ b < s.nblocks

def Region.start (s : FileSystem) : Region → Int
  | .superblock => SB_BLK * s.dev0Blocksize
  | .bitmap => BM_BLK * s.dev0Blocksize
  | .inode i => s.inodeBlock i * s.dev0Blocksize + s.inodeOff i
  | .data b => b * s.dev0Blocksize

def Region.length (s : FileSystem) : Region → Nat
  | .superblock => FSYSTEM_SIZE
  | .bitmap => s.freemaskbytes
  | .inode _ => Inode.SIZE
  | .data _ => s.dev0Blocksize

def Region.covers (s : FileSystem) (r : Region) (a : Int) : Prop :=
  r.start s ≤ a ∧ a < r.start s + r.length s

structure Layout (s : FileSystem) : Prop where
  disjoint : ∀ r r' : Region, r.used s → r'.used s → r ≠ r' → ∀ a, r.covers s a → ¬ r'.covers s a
  inside : ∀ r : Region, r.used s → ∀ a, r.covers s a → 0 ≤ a ∧ a < s.dev0Numblocks * s.dev0Blocksize
  table : ∀ (i j : Int) (x y : Inode), (Region.inode i).used s → (Region.inode j).used s →
    (s.putInodeByNum 0 i x).getInodeByNum 0 j y = if i = j then x else s.getInodeByNum 0 j y

def formatted (device : Int → Byte) (numInodes : Int) (address : Nat) (memory : Nat → Byte) :
    FileSystem :=
  ((unformatted device).mkfs 0 numInodes (some (address, memory))).1

theorem formatted_fmt (device : Int → Byte) (numInodes : Int) (address : Nat) (memory : Nat → Byte) :
    Formatted (if numInodes < 1 then DEFAULT_NUM_INODES else numInodes.toNat)
      (formatted device numInodes address memory) := by
  constructor <;> simp [formatted, mkfs, bwrite, setmaskbit, unformatted, MDEV_NUM_BLOCKS]

theorem length_superblock (s : FileSystem) (address : Nat) :
    (s.superblock address).length = FSYSTEM_SIZE := by
  simp [superblock, Dirent.encode, List.length_flatMap, FSYSTEM_SIZE, DIRECTORY_SIZE, FILENAMELEN]

theorem formatted_device {device : Int → Byte} {numInodes : Int} {address : Nat}
    {memory : Nat → Byte} {a : Int} (behind : 604 ≤ a) :
    (formatted device numInodes address memory).dev0Blocks a = device a := by
  have whole : ¬ (0 : Int) ≥ (MDEV_BLOCK_SIZE : Nat) := by decide
  simp only [formatted, mkfs, bwrite, setmaskbit, unformatted, ne_eq, not_true_eq_false, whole,
    if_false, Option.getD_some]
  rw [store_after, store_after]
  · simp only [length_superblock, FSYSTEM_SIZE, SB_BLK]
    omega
  · simp only [List.length_map, List.length_range, BM_BLK, MDEV_BLOCK_SIZE, MDEV_NUM_BLOCKS]
    omega

theorem formatted_freemask {device : Int → Byte} {numInodes : Int} {address : Nat}
    {memory : Nat → Byte} {i : Nat} (inside : i < 64) :
    (formatted device numInodes address memory).freemask i = if i = 0 then 0xC0#8 else 0 := by
  have whole : ¬ (0 : Int) ≥ (MDEV_BLOCK_SIZE : Nat) := by decide
  simp only [formatted, mkfs, bwrite, setmaskbit, unformatted, ne_eq, not_true_eq_false, whole,
    if_false, Option.getD_some]
  have bytes : (MDEV_NUM_BLOCKS + 7) / 8 = 64 := rfl
  have byte : BM_BLK / 8 = 0 := rfl
  by_cases first : i = 0
  · simp [bytes, byte, first]
  · simp [bytes, byte, first, inside]

theorem formatted_inode {device : Int → Byte} {numInodes : Int} {address : Nat}
    {memory : Nat → Byte} (i : Nat) :
    (formatted device numInodes address memory).inode i = Inode.decode (load device (slot i) 64) := by
  rw [inode]
  congr 1
  apply load_congr
  intro a lo hi
  apply formatted_device
  simp only [slot] at lo
  omega

theorem superblock_meets_bitmap {n : Nat} {s : FileSystem} (fmt : Formatted n s) : ¬ Layout s := by
  intro layout
  apply layout.disjoint .superblock .bitmap trivial trivial (by simp) 512
  · simp [Region.covers, Region.start, Region.length]
  · simp [Region.covers, Region.start, Region.length, fmt.dev0Blocksize, fmt.freemaskbytes]

theorem layout_never (device : Int → Byte) (numInodes : Int) (address : Nat) (memory : Nat → Byte) :
    ((unformatted device).mkfs 0 numInodes (some (address, memory))).2 = 1 ∧
      ¬ Layout (formatted device numInodes address memory) :=
  ⟨rfl, superblock_meets_bitmap (formatted_fmt device numInodes address memory)⟩

theorem defaultInodes_layout : ¬ Layout (formatted (fun _ => 0) 128 0 fun _ => 0) :=
  superblock_meets_bitmap (formatted_fmt _ _ _ _)

end FileSystem
end Xinu
