import Xinu.Lib.Bytes
import Xinu.System.Memory

/-!
# TFTP into memory

`tftpGetIntoBuffer` and its callback, with pointers of 32 bits. The blocks of the list are in `node`, each with the
bytes that it is filled with. What `tftpGet` passes to the callback and what it returns when the callback has taken
all of that are given. Indices into the final buffer count from its start.
-/

namespace Xinu
open Lib (Byte store)

abbrev TFTP_FILE_DATA_BLOCK_SIZE : Nat := 4096

abbrev TFTP_FILE_DATA : Nat := TFTP_FILE_DATA_BLOCK_SIZE - 4 - 4

structure FileDataBlock where
  next : Nat
  data : List Byte

structure Fetch where
  heap : Heap
  node : Nat → FileDataBlock
  tail : Nat
  -- the blocks of the list that `memget` has given
  taken : List Nat

namespace Fetch
variable (s : Fetch)

/-- An empty block. The inner `none` is `SYSERR`. -/
def newBlock : Option (Fetch × Option Nat) :=
  match s.heap.memget TFTP_FILE_DATA_BLOCK_SIZE with
  | none => none
  | some (heap, none) => some ({ s with heap }, none)
  | some (heap, some block) =>
      some ({ s with heap, node := Function.update s.node block ⟨NULL, []⟩, taken := s.taken ++ [block] }, some block)

def link (newtail : Nat) : Fetch :=
  { s with node := Function.update s.node s.tail { s.node s.tail with next := newtail }, tail := newtail }

def makeRoom : Option (Fetch × Bool) :=
  if (s.node s.tail).data.length = TFTP_FILE_DATA then
    match s.newBlock with
    | none => none
    | some (s, none) => some (s, false)
    | some (s, some newtail) => some (s.link newtail, true)
  else some (s, true)

def fill (data : List Byte) : Fetch :=
  { s with node := Function.update s.node s.tail { s.node s.tail with data := (s.node s.tail).data ++ data } }

def copylen (data : List Byte) : Nat := min data.length (TFTP_FILE_DATA - (s.node s.tail).data.length)

def copyLoop : Nat → List Byte → Fetch → Option (Fetch × Int)
  | 0, _, _ => none
  | fuel + 1, data, s =>
      if data = [] then some (s, OK)
      else
        match s.makeRoom with
        | none => none
        | some (s, false) => some (s, SYSERR)
        | some (s, true) => copyLoop fuel (data.drop (s.copylen data)) (s.fill (data.take (s.copylen data)))

def tftpCopyIntoBufferCb (data : List Byte) : Option (Fetch × Int) := copyLoop (data.length + 1) data s

/-- `tftpGet` gives up when the callback does not return `OK`. -/
def tftpGet (retval : Int) : List (List Byte) → Fetch → Option (Fetch × Int)
  | [], s => some (s, retval)
  | data :: blocks, s =>
      match s.tftpCopyIntoBufferCb data with
      | none => none
      | some (s, r) => if r = OK then tftpGet retval blocks s else some (s, r)

def sumLoop : Nat → Nat → Nat → Option Nat
  | 0, _, _ => none
  | fuel + 1, totallen, ptr =>
      let totallen := add32 totallen (s.node ptr).data.length
      if (s.node ptr).next = NULL then some totallen else sumLoop fuel totallen (s.node ptr).next

end Fetch

structure Drain where
  heap : Heap
  buffer : Int → Byte
  totallen : Nat
  freed : List (Nat × Int)

def Drain.freeLoop (node : Nat → FileDataBlock) (finalbuf : Option Nat) : Nat → Nat → Drain → Option Drain
  | 0, _, _ => none
  | fuel + 1, ptr, d =>
      match d.heap.memfree ptr TFTP_FILE_DATA_BLOCK_SIZE with
      | none => none
      | some (heap, status) =>
          let d : Drain :=
            { heap, buffer := if finalbuf.isSome then store d.buffer d.totallen (node ptr).data else d.buffer
              totallen := add32 d.totallen (node ptr).data.length, freed := d.freed ++ [(ptr, status)] }
          if (node ptr).next = NULL then some d else freeLoop node finalbuf fuel (node ptr).next d

structure Fetched where
  heap : Heap
  taken : List Nat
  freed : List (Nat × Int)
  retval : Option Nat
  buffer : Int → Byte
  -- what `len_ret` points at
  len : Option Nat

def Fetch.allocate (s : Fetch) (head : Nat) (retval : Int) : Option (Heap × Option Nat) :=
  if retval = OK then
    match s.sumLoop Heap.walkFuel 0 head with
    | none => none
    | some totallen => s.heap.memget totallen
  else some (s.heap, none)

def Fetch.finish (s : Fetch) (head : Nat) (retval : Int) (len : Option Nat) (memory : Int → Byte) : Option Fetched :=
  match s.allocate head retval with
  | none => none
  | some (heap, finalbuf) =>
      match Drain.freeLoop s.node finalbuf Heap.walkFuel head ⟨heap, memory, 0, []⟩ with
      | none => none
      | some d => some ⟨d.heap, s.taken, d.freed, finalbuf, d.buffer, if finalbuf.isSome then some d.totallen else len⟩

/-- `len` is `none` for a null pointer `len_ret`, and `memory` is what the final buffer holds at first. -/
def Heap.tftpGetIntoBuffer (heap : Heap) (len : Option Nat) (blocks : List (List Byte)) (retval : Int)
    (node : Nat → FileDataBlock) (memory : Int → Byte) : Option Fetched :=
  if len = none then some ⟨heap, [], [], none, memory, none⟩
  else
    match (Fetch.mk heap node NULL []).newBlock with
    | none => none
    | some (s, none) => some ⟨s.heap, [], [], none, memory, len⟩
    | some (s, some head) =>
        match Fetch.tftpGet retval blocks { s with tail := head } with
        | none => none
        | some (s, retval) => s.finish head retval len memory

end Xinu
