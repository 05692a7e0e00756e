import Xinu.Lib.Bytes
import Xinu.Lib.Sem
import Xinu.System.Config
import Mathlib.Logic.Function.Basic

/-!
# Buffer pools

One pool of `bfpalloc`. The buffers are numbered in the order of their addresses, and a buffer that
has been taken points to itself.
-/

namespace Xinu
open Lib (Byte)

structure Bufpool where
  freebuf : Lib.Sem
  -- `bfpptr->next` and `bufptr->next`
  head : Nat
  next : Nat → Nat
  mem : Nat → Int → Byte
  -- threads in `bufget` that have been made ready and have not run yet
  woken : List Nat

namespace Bufpool

/-- `bfpalloc`, with what the memory holds. -/
def bfpalloc (nbuf : Nat) (mem : Nat → Int → Byte) : Bufpool :=
  { freebuf := ⟨nbuf, []⟩, head := 0, next := fun b => b + 1, mem, woken := [] }

def unlink (p : Bufpool) : Bufpool × Nat :=
  let bufptr := p.head
  ({ p with head := p.next bufptr, next := Function.update p.next bufptr bufptr }, bufptr)

/-- `buffree` until `restore`, with `none` for `SYSERR`. -/
def link (p : Bufpool) (bufptr : Nat) : Option Bufpool :=
  if p.next bufptr ≠ bufptr then none
  else some { p with head := bufptr, next := Function.update p.next bufptr p.head }

def signal (p : Bufpool) : Bufpool :=
  let (freebuf, released) := p.freebuf.signal
  { p with freebuf, woken := p.woken ++ released.toList }

def memcpy (p : Bufpool) (bufptr : Nat) (buf : List Byte) : Bufpool :=
  { p with mem := Function.update p.mem bufptr (Lib.store (p.mem bufptr) 0 buf) }

end Bufpool

end Xinu
