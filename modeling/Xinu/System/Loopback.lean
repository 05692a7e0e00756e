import Xinu.Lib.Bytes
import Xinu.Lib.Sem
import Xinu.Lib.Runs
import Xinu.System.Config
import Mathlib.Logic.Function.Basic

namespace Xinu
open Lib (Byte)

abbrev LOOP_BUFFER : Nat := 1024
abbrev EOF : Int := -2

structure Loopback where
  index : Nat
  -- `flags & LOOP_NONBLOCK`
  nonblock : Bool
  sem : Lib.Sem
  buffer : Nat → Byte
  -- readers that `signal` has made ready and that have not run yet
  woken : List Nat
  -- the indices that have been used into `buffer`
  used : List Int
  -- what `loopbackPutc` has accepted and what completed reads have returned
  accepted : List Byte
  delivered : List Byte
  -- a character has been stored before `buffer`, where `sem` stands; nothing is said about what follows
  overrun : Bool

namespace Loopback

/-- After `loopbackOpen`, which leaves `index` where it was. -/
def opened (index : Nat) : Loopback :=
  { index, nonblock := false, sem := ⟨0, []⟩, buffer := fun _ => 0, woken := [], used := []
    accepted := [], delivered := [], overrun := false }

def store (l : Loopback) (i : Int) (ch : Byte) : Loopback :=
  { l with
    buffer := if 0 ≤ i then Function.update l.buffer i.toNat ch else l.buffer
    used := l.used ++ [i]
    accepted := l.accepted ++ [ch]
    overrun := decide (i < 0) }

def loopbackPutc (l : Loopback) (ch : Byte) : Loopback × Int :=
  if LOOP_BUFFER ≤ l.sem.count then (l, SYSERR)
  else
    let l := l.store (Int.tmod (l.index + l.sem.count) LOOP_BUFFER) ch
    if l.overrun then (l, ch.toNat)
    else
      let (sem, released) := l.sem.signal
      ({ l with sem, woken := l.woken ++ released.toList }, ch.toNat)

def take (l : Loopback) : Loopback × Int :=
  let ch := l.buffer l.index
  ({ l with
    index := (l.index + 1) % LOOP_BUFFER
    used := l.used ++ [(l.index : Int)]
    delivered := l.delivered ++ [ch] }, ch.toNat)

def loopbackGetc (l : Loopback) (t : Nat) : Loopback × Option Int :=
  if l.nonblock ∧ l.sem.count ≤ 0 then (l, some EOF)
  else
    match l.sem.wait t with
    | (sem, true) => ({ l with sem }, none)
    | (sem, false) =>
        let (l, ch) := { l with sem }.take
        (l, some ch)

def resume (l : Loopback) (t : Nat) : Loopback × Int :=
  { l with woken := l.woken.erase t }.take

inductive Op
  | putc (ch : Byte)
  | getc (t : Nat)
  | resume (t : Nat)
  | control (nonblock : Bool)
  deriving DecidableEq, Repr

def step (op : Op) (l : Loopback) : Option Loopback :=
  if l.overrun then none
  else
    match op with
    | .putc ch => some (l.loopbackPutc ch).1
    | .getc t => if t ∈ l.sem.queue ++ l.woken then none else some (l.loopbackGetc t).1
    | .resume t => if t ∈ l.woken then some (l.resume t).1 else none
    | .control nonblock => some { l with nonblock }

end Loopback

end Xinu
