import Xinu.System.Config

/-!
# The kernel heap

`memget.c`, `memfree.c`, `stkget.c`, the macros of `memory.h` and the part of `sysinit` that sets
the heap up. Addresses and lengths are 32-bit words. Free blocks are linked through the headers
that lie in them; `Heap.block` reads the header at an address. A pointer to a header is `none` for
`&memlist`.
-/

namespace Xinu

abbrev WORD : Nat := 2 ^ 32

abbrev NULL : Nat := 0

def add32 (a b : Nat) : Nat := (a + b) % WORD
def sub32 (a b : Nat) : Nat := (a + (WORD - b % WORD)) % WORD

def roundmb (x : Nat) : Nat := (7 + x) % WORD / 8 * 8
def truncmb (x : Nat) : Nat := x % WORD / 8 * 8

structure Memblock where
  next : Nat
  length : Nat

/-- What `start.S` and `platforminit` hand to `sysinit`: the first free address after the kernel
image and the end of memory. There is room for a block between them. -/
structure Platform where
  memheap : Nat
  maxaddr : Nat
  memheap_pos : 0 < memheap
  maxaddr_lt : maxaddr < WORD
  room : roundmb memheap < truncmb maxaddr

structure Heap where
  memheap : Nat
  maxaddr : Nat
  memlist : Memblock
  block : Nat → Memblock

namespace Heap
variable (h : Heap)

def get : Option Nat → Memblock
  | none => h.memlist
  | some a => h.block a

def set (p : Option Nat) (b : Memblock) : Heap :=
  match p with
  | none => { h with memlist := b }
  | some a => { h with block := Function.update h.block a b }

def setNext (p : Option Nat) (v : Nat) : Heap := h.set p { h.get p with next := v }
def setLength (p : Option Nat) (v : Nat) : Heap := h.set p { h.get p with length := v }

/-- A walk over more blocks than there are addresses goes round for ever. -/
abbrev walkFuel : Nat := WORD

/-- The loop of `memget`. The outer `none` is a loop that never ends, the inner one `SYSERR`. -/
def memgetLoop (nbytes : Nat) : Nat → Option Nat → Nat → Option (Heap × Option Nat)
  | 0, _, _ => none
  | fuel + 1, prev, curr =>
      if curr = NULL then some (h, none)
      else if (h.block curr).length = nbytes then
        let h := h.setNext prev (h.block curr).next
        some (h.setLength none (sub32 h.memlist.length nbytes), some curr)
      else if (h.block curr).length > nbytes then
        let leftover := add32 curr nbytes
        let left : Memblock := ⟨(h.block curr).next, sub32 (h.block curr).length nbytes⟩
        let h := (h.setNext prev leftover).set (some leftover) left
        some (h.setLength none (sub32 h.memlist.length nbytes), some curr)
      else memgetLoop nbytes fuel (some curr) (h.block curr).next

def memget (nbytes : Nat) : Option (Heap × Option Nat) :=
  if nbytes = 0 then some (h, none)
  else h.memgetLoop (roundmb nbytes) walkFuel none h.memlist.next

def stkgetLoop (nbytes : Nat) :
    Nat → Option Nat → Nat → Option (Option Nat × Nat) → Option (Option (Option Nat × Nat))
  | 0, _, _, _ => none
  | fuel + 1, prev, next, fits =>
      if next = NULL then some fits
      else stkgetLoop nbytes fuel (some next) (h.block next).next
        (if (h.block next).length ≥ nbytes then some (prev, next) else fits)

def stkget (nbytes : Nat) : Option (Heap × Option Nat) :=
  if nbytes = 0 then some (h, none)
  else
    let nbytes := roundmb nbytes
    match h.stkgetLoop nbytes walkFuel none h.memlist.next none with
    | none => none
    | some none => some (h, none)
    | some (some (fitsprev, fits)) =>
        if nbytes = (h.block fits).length then
          let h := h.setNext fitsprev (h.block fits).next
          some (h.setLength none (sub32 h.memlist.length nbytes),
            some (sub32 (add32 fits nbytes) 4))
        else
          let h := h.setLength (some fits) (sub32 (h.block fits).length nbytes)
          let fits := add32 fits (h.block fits).length
          some (h.setLength none (sub32 h.memlist.length nbytes),
            some (sub32 (add32 fits nbytes) 4))

def memfreeLoop (block : Nat) : Nat → Option Nat → Nat → Option (Option Nat × Nat)
  | 0, _, _ => none
  | fuel + 1, prev, next =>
      if next ≠ NULL ∧ next < block then memfreeLoop block fuel (some next) (h.block next).next
      else some (prev, next)

/-- Both coalescing steps of `memfree`, once the block is known to overlap no free block. -/
def memfreeLink (block nbytes : Nat) (prev : Option Nat) (next top : Nat) : Heap :=
  let h := h.setLength none (add32 h.memlist.length nbytes)
  let (h, block) :=
    if top = block then (h.setLength prev (add32 (h.get prev).length nbytes), prev)
    else ((h.set (some block) ⟨next, nbytes⟩).setNext prev block, some block)
  if add32 (block.getD NULL) (h.get block).length = next then
    (h.setLength block (add32 (h.get block).length (h.block next).length)).setNext block
      (h.block next).next
  else h

def memfree (memptr nbytes : Nat) : Option (Heap × Int) :=
  if nbytes = 0 ∨ memptr < h.memheap ∨ memptr > h.maxaddr then some (h, SYSERR)
  else
    let nbytes := roundmb nbytes
    match h.memfreeLoop memptr walkFuel none h.memlist.next with
    | none => none
    | some (prev, next) =>
        let top := match prev with
          | none => NULL
          | some p => add32 p (h.block p).length
        if top > memptr ∨ (next ≠ NULL ∧ add32 memptr nbytes > next) then some (h, SYSERR)
        else some (h.memfreeLink memptr nbytes prev next top, OK)

def stkfree (p len : Nat) : Option (Heap × Int) :=
  h.memfree (add32 (sub32 p (roundmb len)) 4) (roundmb len)

end Heap

def heapInit (p : Platform) : Heap :=
  let memheap := roundmb p.memheap
  let maxaddr := truncmb p.maxaddr
  let length := sub32 maxaddr memheap
  { memheap, maxaddr, memlist := ⟨memheap, length⟩,
    block := Function.update (fun _ => ⟨0, 0⟩) memheap ⟨NULL, length⟩ }

end Xinu
