import Xinu.System.Config
import Xinu.Lib.Bytes

/-!
# The file system

`bs.c` and `fs.c`. The block device is memory that starts at address 0 here, so that block `b`
begins at `b * dev0Blocksize`; `bread` and `bwrite` do not check `b`. Structures are laid out as
the compiler does it: an `inode` has 64 bytes, a `dirent` 36 and the `fsystem` 604. A call of which
C says nothing, such as one that reads a variable before it is set, has no result.
-/

namespace Xinu
open Lib (Byte load store wordByte halfByte wordAt halfAt)

abbrev FILENAMELEN : Nat := 32
abbrev INODEBLOCKS : Nat := 12
abbrev INODEDIRECTBLOCKS : Nat := INODEBLOCKS - 2
abbrev DIRECTORY_SIZE : Nat := 16
abbrev MDEV_BLOCK_SIZE : Nat := 512
abbrev MDEV_NUM_BLOCKS : Nat := 512
abbrev DEFAULT_NUM_INODES : Nat := MDEV_NUM_BLOCKS / 4
abbrev NUM_FD : Nat := 16

abbrev INODE_TYPE_FILE : BitVec 16 := 1

abbrev O_CREAT : Int := 11
abbrev O_RDONLY : Int := 0
abbrev O_WRONLY : Int := 1
abbrev O_RDWR : Int := 2

abbrev SB_BLK : Nat := 0
abbrev BM_BLK : Nat := 1
abbrev FIRST_INODE_BLOCK : Nat := 2

/-! ## Structures -/

structure Inode where
  id : BitVec 32
  type : BitVec 16
  nlink : BitVec 16
  device : BitVec 32
  size : BitVec 32
  blocks : Fin INODEBLOCKS → BitVec 32

namespace Inode

abbrev SIZE : Nat := 64

def byte (x : Inode) (i : Nat) : Byte :=
  if i < 4 then wordByte x.id i
  else if i < 6 then halfByte x.type (i - 4)
  else if i < 8 then halfByte x.nlink (i - 6)
  else if i < 12 then wordByte x.device (i - 8)
  else if i < 16 then wordByte x.size (i - 12)
  else wordByte (x.blocks (Fin.ofNat INODEBLOCKS ((i - 16) / 4))) ((i - 16) % 4)

def encode (x : Inode) : List Byte := (List.range SIZE).map x.byte

def decode (bytes : List Byte) : Inode where
  id := wordAt bytes 0
  type := halfAt bytes 4
  nlink := halfAt bytes 6
  device := wordAt bytes 8
  size := wordAt bytes 12
  blocks k := wordAt bytes (16 + 4 * k)

def block (x : Inode) (k : Nat) : Int := (x.blocks (Fin.ofNat INODEBLOCKS k)).toInt

def setBlock (x : Inode) (k : Nat) (b : Int) : Inode :=
  { x with blocks := Function.update x.blocks (Fin.ofNat INODEBLOCKS k) (BitVec.ofInt 32 b) }

def free (x : Inode) (ninodes : Nat) : Bool := x.id.toInt < 0 || x.id.toInt ≥ ninodes

end Inode

structure Filetable where
  opened : Bool
  fileptr : Int
  mode : Int
  -- the index of the directory entry
  de : Option Nat
  inode : Inode

/-- The name is a string, without its NUL. -/
structure Dirent where
  inodeNum : Int
  name : List Byte

structure FileSystem where
  -- `fsd`; entries of the directory from `DIRECTORY_SIZE` on are memory behind it
  nblocks : Nat
  blocksz : Nat
  ninodes : Nat
  inodesUsed : Nat
  freemaskbytes : Nat
  freemask : Nat → Byte
  numentries : Nat
  entry : Nat → Dirent
  -- the open file table and the static variables of `fs.c`
  oft : Nat → Filetable
  nextOpenFd : Nat
  nextFreeInode : Nat
  nextFreeDataBlock : Nat
  -- the device
  dev0Numblocks : Nat
  dev0Blocksize : Nat
  dev0Blocks : Int → Byte

namespace FileSystem
variable (s : FileSystem)

/-! ## The block store -/

def bread (block offset : Int) (len : Nat) : Option (List Byte) :=
  if offset ≥ s.dev0Blocksize then none
  else some (load s.dev0Blocks (block * s.dev0Blocksize + offset) len)

def bwrite (block offset : Int) (buf : List Byte) : Option FileSystem :=
  if offset ≥ s.dev0Blocksize then none
  else some { s with
    dev0Blocks := store s.dev0Blocks (block * s.dev0Blocksize + offset) buf }

/-! ## The free mask -/

def setmaskbit (b : Nat) : FileSystem :=
  { s with freemask := Function.update s.freemask (b / 8) (s.freemask (b / 8) ||| 0x80#8 >>> (b % 8)) }

def getmaskbit (b : Nat) : Byte := ((s.freemask (b / 8) <<< (b % 8)) &&& 0x80#8) >>> 7

def clearmaskbit (b : Nat) : FileSystem :=
  let invb := ~~~(0x80#8 >>> (b % 8)) &&& 0xFF#8
  { s with freemask := Function.update s.freemask (b / 8) (s.freemask (b / 8) &&& invb) }

/-! ## Inodes -/

def inodesPerBlock : Nat := s.blocksz / Inode.SIZE

def numInodeBlocks : Nat :=
  if s.ninodes % s.inodesPerBlock = 0 then s.ninodes / s.inodesPerBlock
  else s.ninodes / s.inodesPerBlock + 1

def firstDataBlock : Nat := 2 + s.numInodeBlocks

/-- The operands of `/` and `%` in `get_inode_by_num` and `put_inode_by_num` are unsigned. -/
def inodeBlock (inodeNumber : Int) : Nat :=
  (inodeNumber % 2 ^ 32).toNat / s.inodesPerBlock + FIRST_INODE_BLOCK

def inodeOff (inodeNumber : Int) : Nat :=
  (inodeNumber % 2 ^ 32).toNat % s.inodesPerBlock * Inode.SIZE

/-- `get_inode_by_num`: what `*in` is afterwards, where `x` is what it was. -/
def getInodeByNum (dev inodeNumber : Int) (x : Inode) : Inode :=
  if dev ≠ 0 then x
  else if inodeNumber > s.ninodes then x
  else match s.bread (s.inodeBlock inodeNumber) 0 s.blocksz with
    | none => x
    | some cache => Inode.decode ((cache.drop (s.inodeOff inodeNumber)).take Inode.SIZE)

def putInodeByNum (dev inodeNumber : Int) (x : Inode) : FileSystem :=
  if dev ≠ 0 then s
  else if inodeNumber > s.ninodes then s
  else match s.bread (s.inodeBlock inodeNumber) 0 s.blocksz with
    | none => s
    | some cache =>
        let off := s.inodeOff inodeNumber
        (s.bwrite (s.inodeBlock inodeNumber) 0
          (cache.take off ++ x.encode ++ cache.drop (off + x.encode.length))).getD s

/-! ## Files -/

def setEntry (i : Nat) (e : Dirent) : FileSystem := { s with entry := Function.update s.entry i e }
def setFile (fd : Nat) (ft : Filetable) : FileSystem := { s with oft := Function.update s.oft fd ft }

def sameName (s₁ s₂ : List Byte) : Bool := s₁.take FILENAMELEN = s₂.take FILENAMELEN

def lookup (filename : List Byte) : Option Nat :=
  (List.range DIRECTORY_SIZE).find? fun i => sameName (s.entry i).name filename

/-- The scan of the open file table, which stops at a closed file. -/
def scanFd : Nat → Nat → Nat
  | 0, fd => fd
  | n + 1, fd =>
      if (s.oft fd).opened then scanFd n (if fd + 1 ≥ NUM_FD then 0 else fd + 1) else fd

/-- The scan of the inodes, which stops at a free one, with the inode that was read last. -/
def scanInode : Nat → Nat → Inode → Nat × Inode
  | 0, i, x => (i, x)
  | n + 1, i, x =>
      let x := s.getInodeByNum 0 i x
      if x.free s.ninodes then (i, x)
      else scanInode n (if i + 1 ≥ s.ninodes then 0 else i + 1) x

def scanBlock : Nat → Nat → Nat × Bool
  | 0, b => (b, false)
  | n + 1, b =>
      if s.getmaskbit b = 0 then (b, true)
      else scanBlock n (if b + 1 ≥ MDEV_NUM_BLOCKS then s.firstDataBlock else b + 1)

def fcreate (filename : List Byte) (mode : Int) : FileSystem × Int :=
  if filename.length ≥ FILENAMELEN then (s, SYSERR)
  else if mode ≠ O_CREAT then (s, SYSERR)
  else if (s.lookup filename).isSome then (s, SYSERR)
  else
    let de := s.numentries
    let s := { s with numentries := de + 1 }.setEntry de ⟨-1, filename.take (FILENAMELEN - 1)⟩
    let fd := s.scanFd NUM_FD s.nextOpenFd
    let s := { s with nextOpenFd := fd }
    if (s.oft fd).opened then (s, SYSERR)
    else
      let (i, x) := s.scanInode s.ninodes s.nextFreeInode (s.oft fd).inode
      let s := { s with nextFreeInode := i }.setFile fd ⟨true, 0, O_RDWR, some de, x⟩
      if ¬ x.free s.ninodes then (s, SYSERR)
      else
        let x := { x with
          id := BitVec.ofNat 32 i, type := INODE_TYPE_FILE, nlink := 0, device := 0, size := 0 }
        let s := s.setFile fd ⟨true, 0, O_RDWR, some de, x⟩
        let s := s.setEntry de { s.entry de with inodeNum := i }
        let s := { s with inodesUsed := s.inodesUsed + 1 }
        (s.putInodeByNum 0 x.id.toInt x, fd)

def fopen (filename : List Byte) (flags : Int) : FileSystem × Int :=
  match s.lookup filename with
  | none => (s, SYSERR)
  | some de =>
      let fd := s.scanFd NUM_FD s.nextOpenFd
      let s := { s with nextOpenFd := fd }
      if (s.oft fd).opened then (s, SYSERR)
      else
        let x := s.getInodeByNum 0 (s.entry de).inodeNum (s.oft fd).inode
        (s.setFile fd ⟨true, 0, flags, some de, x⟩, fd)

def allocate (fd b : Nat) : FileSystem :=
  let s := (s.setmaskbit b).setmaskbit BM_BLK
  let s := (s.bwrite BM_BLK 0 ((List.range s.freemaskbytes).map s.freemask)).getD s
  let ft := s.oft fd
  s.setFile fd { ft with inode := ft.inode.setBlock (ft.fileptr / MDEV_BLOCK_SIZE).toNat b }

/-- Write to the block that the pointer of the file is in, and move the pointer. -/
def fill (fd : Nat) (offset : Int) (buf : List Byte) : Option FileSystem :=
  let ft := s.oft fd
  (s.bwrite (ft.inode.block (ft.fileptr / MDEV_BLOCK_SIZE).toNat) offset buf).map fun s =>
    s.setFile fd { ft with fileptr := ft.fileptr + buf.length }

def fwriteLoop (fd : Nat) : Nat → FileSystem → List Byte → Option (FileSystem × Bool)
  | 0, s, _ => some (s, true)
  | fuel + 1, s, buf =>
      if buf = [] then some (s, true)
      -- without a data block the loop over the mask does not set `m`
      else if s.nblocks ≤ s.firstDataBlock then none
      else
        let (b, found) := s.scanBlock (s.nblocks - s.firstDataBlock) s.nextFreeDataBlock
        let s := { s with nextFreeDataBlock := b }
        if ¬ found then some (s, false)
        else
          let s := s.allocate fd b
          match s.fill fd 0 (buf.take MDEV_BLOCK_SIZE) with
          | none => some (s, false)
          | some s => fwriteLoop fd fuel s (buf.drop MDEV_BLOCK_SIZE)

def fwriteDone (fd : Nat) (addEof : Bool) : FileSystem :=
  let ft := s.oft fd
  let x := if addEof then { ft.inode with size := BitVec.ofInt 32 ft.fileptr } else ft.inode
  (s.setFile fd { ft with inode := x }).putInodeByNum 0 x.id.toInt x

def fwrite (fd : Int) (buf : List Byte) : Option (FileSystem × Int) :=
  if ¬ (0 ≤ fd ∧ fd < NUM_FD) then none
  else
    let fd := fd.toNat
    let ft := s.oft fd
    if ¬ ft.opened then some (s, SYSERR)
    else if ft.mode ≠ O_WRONLY ∧ ft.mode ≠ O_RDWR then some (s, SYSERR)
    else if buf.length ≤ 0 then some (s, SYSERR)
    else if buf.length + ft.fileptr ≥ 2 ^ 31 then none
    else if buf.length + ft.fileptr ≥ (MDEV_BLOCK_SIZE * INODEDIRECTBLOCKS : Nat) then
      some (s, SYSERR)
    else
      let addEof := buf.length + ft.fileptr > ft.inode.size.toInt
      let offset := ft.fileptr % MDEV_BLOCK_SIZE
      let len := min buf.length (MDEV_BLOCK_SIZE - offset).toNat
      match s.fill fd offset (buf.take len) with
      | none => some (s, SYSERR)
      | some s =>
          match fwriteLoop fd buf.length s (buf.drop len) with
          | none => none
          | some (s, false) => some (s, SYSERR)
          | some (s, true) => some (s.fwriteDone fd addEof, buf.length)

def drain (fd : Nat) (offset : Int) (len : Nat) : Option (FileSystem × List Byte) :=
  let ft := s.oft fd
  (s.bread (ft.inode.block (ft.fileptr / MDEV_BLOCK_SIZE).toNat) offset len).map fun buf =>
    (s.setFile fd { ft with fileptr := ft.fileptr + len }, buf)

/-- The loop of `fread`, with what it stores and whether it came to the `return` at the end. -/
def freadLoop (fd : Nat) : Nat → FileSystem → Nat → FileSystem × List Byte × Bool
  | 0, s, _ => (s, [], true)
  | fuel + 1, s, nbytes =>
      if nbytes = 0 then (s, [], true)
      else
        let ft := s.oft fd
        if ft.inode.block (ft.fileptr / MDEV_BLOCK_SIZE).toNat = -1 then (s, [], true)
        else
          let len := min nbytes MDEV_BLOCK_SIZE
          match s.drain fd 0 len with
          | none => (s, [], false)
          | some (s, buf) =>
              let (s, rest, ok) := freadLoop fd fuel s (nbytes - len)
              (s, buf ++ rest, ok)

def fread (fd nbytes : Int) : Option (FileSystem × List Byte × Int) :=
  if ¬ (0 ≤ fd ∧ fd < NUM_FD) then none
  else
    let fd := fd.toNat
    let ft := s.oft fd
    if ¬ ft.opened then some (s, [], SYSERR)
    else if ft.mode ≠ O_RDONLY ∧ ft.mode ≠ O_RDWR then some (s, [], SYSERR)
    else if nbytes ≤ 0 then some (s, [], SYSERR)
    else if nbytes + ft.fileptr ≥ 2 ^ 31 then none
    else
      let num := nbytes
      let nbytes :=
        if nbytes + ft.fileptr > ft.inode.size.toInt then ft.inode.size.toInt - ft.fileptr else nbytes
      if nbytes + ft.fileptr ≥ (MDEV_BLOCK_SIZE * INODEDIRECTBLOCKS : Nat) then some (s, [], SYSERR)
      -- `memcpy` with a negative length
      else if nbytes < 0 then none
      else
        let offset := ft.fileptr % MDEV_BLOCK_SIZE
        let len := min nbytes.toNat (MDEV_BLOCK_SIZE - offset).toNat
        match s.drain fd offset len with
        | none => some (s, [], SYSERR)
        | some (s, buf) =>
            let (s, rest, ok) := freadLoop fd nbytes.toNat s (nbytes.toNat - len)
            some (s, buf ++ rest, if ok then num else SYSERR)

def fseek (fd offset : Int) : Option (FileSystem × Int) :=
  if ¬ (0 ≤ fd ∧ fd < NUM_FD) then none
  else
    let fd := fd.toNat
    let ft := s.oft fd
    if ¬ ft.opened then some (s, SYSERR)
    else if offset + ft.fileptr < 0 then some (s, SYSERR)
    else if offset + ft.fileptr ≥ (MDEV_BLOCK_SIZE * INODEDIRECTBLOCKS : Nat) then some (s, SYSERR)
    else if offset + ft.fileptr ≥ ft.inode.size.toInt then some (s, SYSERR)
    else some (s.setFile fd { ft with fileptr := offset + ft.fileptr }, OK)

def fclose (fd : Int) : Option (FileSystem × Int) :=
  if ¬ (0 ≤ fd ∧ fd < NUM_FD) then none
  else
    let fd := fd.toNat
    let ft := s.oft fd
    if ¬ ft.opened then some (s, SYSERR)
    else some (s.setFile fd { ft with opened := false }, OK)

/-! ## Making a file system -/

abbrev FSYSTEM_SIZE : Nat := 604

def Dirent.encode (e : Dirent) : List Byte :=
  (List.range 4).map (wordByte (BitVec.ofInt 32 e.inodeNum)) ++
    (List.range FILENAMELEN).map fun i => e.name.getD i 0

/-- The bytes of `fsd`, with the address that `freemask` points to. -/
def superblock (address : Nat) : List Byte :=
  [s.nblocks, s.blocksz, s.ninodes, s.inodesUsed, s.freemaskbytes, address, s.numentries].flatMap
      (fun v => (List.range 4).map (wordByte (BitVec.ofNat 32 v))) ++
    (List.range DIRECTORY_SIZE).flatMap fun i => Dirent.encode (s.entry i)

def closedFile (mode : Int) : Filetable :=
  ⟨false, -1, mode, none, ⟨-1, INODE_TYPE_FILE, -1, 0, -1, fun _ => -1⟩⟩

/-- `mkfs`, where `memory` is what `memget` returns: an address and the bytes there. -/
def mkfs (dev numInodes : Int) (memory : Option (Nat × (Nat → Byte))) : FileSystem × Int :=
  if dev ≠ 0 then (s, SYSERR)
  else
    let s := { s with
      nblocks := s.dev0Numblocks
      blocksz := s.dev0Blocksize
      ninodes := if numInodes < 1 then DEFAULT_NUM_INODES else numInodes.toNat
      freemaskbytes := (s.dev0Numblocks + 7) / 8 }
    match memory with
    | none => (s, SYSERR)
    | some (address, bytes) =>
        let s := { s with
          freemask := fun i => if i < s.freemaskbytes then 0 else bytes i
          inodesUsed := 0 }
        let s := s.setmaskbit SB_BLK
        let s := (s.bwrite SB_BLK 0 (s.superblock address)).getD s
        let s := s.setmaskbit BM_BLK
        let s := (s.bwrite BM_BLK 0 ((List.range s.freemaskbytes).map s.freemask)).getD s
        let s := { s with oft := fun fd => if fd < NUM_FD then closedFile (s.oft fd).mode else s.oft fd }
        ({ s with nextFreeDataBlock := s.firstDataBlock }, 1)

end FileSystem

/-! ## Runs -/

inductive FileCall
  | fcreate (filename : List Byte) (mode : Int)
  | fopen (filename : List Byte) (flags : Int)
  | fwrite (fd : Int) (buf : List Byte)
  | fread (fd nbytes : Int)
  | fseek (fd offset : Int)
  | fclose (fd : Int)

def FileSystem.step (call : FileCall) (s : FileSystem) : Option FileSystem :=
  match call with
  | .fcreate filename mode => some (s.fcreate filename mode).1
  | .fopen filename flags => some (s.fopen filename flags).1
  | .fwrite fd buf => (s.fwrite fd buf).map (·.1)
  | .fread fd nbytes => (s.fread fd nbytes).map (·.1)
  | .fseek fd offset => (s.fseek fd offset).map (·.1)
  | .fclose fd => (s.fclose fd).map (·.1)

/-- Static storage is zero; `mkbsdev(0, 0, 0)` has made a device of 512 blocks of 512 bytes. -/
def FileSystem.unformatted (device : Int → Byte) : FileSystem where
  nblocks := 0
  blocksz := 0
  ninodes := 0
  inodesUsed := 0
  freemaskbytes := 0
  freemask _ := 0
  numentries := 0
  entry _ := ⟨0, []⟩
  oft _ := ⟨false, 0, 0, none, ⟨0, 0, 0, 0, 0, fun _ => 0⟩⟩
  nextOpenFd := 0
  nextFreeInode := 0
  nextFreeDataBlock := 0
  dev0Numblocks := MDEV_NUM_BLOCKS
  dev0Blocksize := MDEV_BLOCK_SIZE
  dev0Blocks := device

end Xinu
