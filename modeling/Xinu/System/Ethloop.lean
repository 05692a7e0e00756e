import Xinu.Lib.Runs
import Xinu.System.Bufpool

/-!
# The Ethernet loopback device

`ethloopWrite` and `ethloopRead` on a device that is open and has no flag set. A thread runs with
interrupts disabled until it blocks or calls `restore`, and may be interrupted from then on.
-/

namespace Xinu
open Lib (Byte)

abbrev ELOOP_MTU : Nat := 1500
abbrev ELOOP_LINKHDRSIZE : Nat := 14
abbrev ELOOP_BUFSIZE : Nat := ELOOP_MTU + ELOOP_LINKHDRSIZE
abbrev ELOOP_NBUF : Nat := 100

namespace Ethloop

/-- A reader that has taken a packet: `len` is what it asked for, and the packet was the one with
number `nth`. -/
structure Taken where
  thread : Nat
  pkt : Option Nat
  pktlen : Int
  len : Nat
  nth : Nat
  deriving DecidableEq, Repr

structure Freeing where
  thread : Nat
  pkt : Nat
  pktlen : Int
  deriving DecidableEq, Repr

structure Copied where
  thread : Nat
  len : Nat
  nth : Nat
  bytes : List Byte
  deriving DecidableEq, Repr

end Ethloop

open Ethloop (Taken Freeing Copied)

structure Ethloop where
  pool : Bufpool
  index : Nat
  sem : Lib.Sem
  count : Int
  -- `NULL` is `none`
  buffer : Nat → Option Nat
  pktlen : Nat → Int
  -- the packet with which a thread waits in `bufget`, and the length with which it waits to read
  writing : Nat → List Byte
  reading : Nat → Nat
  -- readers that have been made ready and have not run yet
  woken : List Nat
  -- threads behind `restore`: writers that have still to signal, with what they return, and readers
  signalling : List (Nat × Int)
  copying : List Taken
  freeing : List Freeing
  releasing : List (Nat × Int)
  returned : Nat → Option Int
  -- the packets that have been put in the ring, how many have been taken out, and what reads got
  accepted : List (List Byte)
  taken : Nat
  copied : List Copied
  -- how often a packet of legal size was not written, a `buffree` failed and `NULL` was read
  failed : Nat
  rejected : Nat
  faults : Nat

namespace Ethloop

def opened (mem : Nat → Int → Byte) : Ethloop :=
  { pool := .bfpalloc ELOOP_NBUF mem, index := 0, sem := ⟨0, []⟩, count := 0, buffer := fun _ => none
    pktlen := fun _ => 0, writing := fun _ => [], reading := fun _ => 0, woken := [], signalling := []
    copying := [], freeing := [], releasing := [], returned := fun _ => none, accepted := [], taken := 0
    copied := [], failed := 0, rejected := 0, faults := 0 }

def ret (s : Ethloop) (t : Nat) (value : Int) : Ethloop :=
  { s with returned := Function.update s.returned t (some value) }

def buffree (s : Ethloop) (pkt : Nat) : Ethloop :=
  match s.pool.link pkt with
  | some pool => { s with pool := pool.signal }
  | none => { s with rejected := s.rejected + 1 }

def store (s : Ethloop) (pkt : Nat) (buf : List Byte) : Ethloop :=
  let index := (Int.tmod (s.count + s.index) ELOOP_NBUF).toNat
  { s with
    buffer := Function.update s.buffer index (some pkt)
    pktlen := Function.update s.pktlen index buf.length
    count := s.count + 1
    accepted := s.accepted ++ [buf] }

/-- What `ethloopWrite` does behind the `wait` of `bufget`, until `restore`. -/
def fill (s : Ethloop) (t : Nat) (buf : List Byte) : Ethloop :=
  let (pool, pkt) := s.pool.unlink
  let s := { s with pool := pool.memcpy pkt buf }
  if (ELOOP_NBUF : Int) ≤ s.count then ({ s.buffree pkt with failed := s.failed + 1 }).ret t SYSERR
  else
    let s := s.store pkt buf
    { s with signalling := s.signalling ++ [(t, (buf.length : Int))] }

def ethloopWrite (s : Ethloop) (t : Nat) (buf : List Byte) : Ethloop :=
  if buf.length < ELOOP_LINKHDRSIZE ∨ ELOOP_BUFSIZE < buf.length then s.ret t SYSERR
  else
    match s.pool.freebuf.wait t with
    | (freebuf, true) =>
        { s with pool := { s.pool with freebuf }, writing := Function.update s.writing t buf }
    | (freebuf, false) => { s with pool := { s.pool with freebuf } }.fill t buf

def resumeWrite (s : Ethloop) (t : Nat) : Ethloop :=
  { s with pool := { s.pool with woken := s.pool.woken.erase t } }.fill t (s.writing t)

def signal (s : Ethloop) (w : Nat × Int) : Ethloop :=
  let (sem, released) := s.sem.signal
  { s with sem, woken := s.woken ++ released.toList, signalling := s.signalling.erase w }.ret w.1 w.2

/-- What `ethloopRead` does behind `wait`, until `restore`. -/
def take (s : Ethloop) (t : Nat) (len : Nat) : Ethloop :=
  let pkt := s.buffer s.index
  let pktlen := s.pktlen s.index
  { s with
    buffer := Function.update s.buffer s.index none
    pktlen := Function.update s.pktlen s.index 0
    count := s.count - 1
    index := (s.index + 1) % ELOOP_NBUF
    taken := s.taken + 1
    copying := s.copying ++ [⟨t, pkt, if len < pktlen then len else pktlen, len, s.taken⟩] }

def ethloopRead (s : Ethloop) (t : Nat) (len : Nat) : Ethloop :=
  match s.sem.wait t with
  | (sem, true) => { s with sem, reading := Function.update s.reading t len }
  | (sem, false) => { s with sem }.take t len

def resumeRead (s : Ethloop) (t : Nat) : Ethloop :=
  { s with woken := s.woken.erase t }.take t (s.reading t)

def copy (s : Ethloop) (c : Taken) : Ethloop :=
  let s := { s with copying := s.copying.erase c }
  match c.pkt with
  | none => { s with faults := s.faults + 1 }
  | some pkt =>
      { s with
        freeing := s.freeing ++ [⟨c.thread, pkt, c.pktlen⟩]
        copied := s.copied ++ [⟨c.thread, c.len, c.nth, Lib.load (s.pool.mem pkt) 0 c.pktlen.toNat⟩] }

def free (s : Ethloop) (f : Freeing) : Ethloop :=
  let s := { s with freeing := s.freeing.erase f }
  match s.pool.link f.pkt with
  | some pool => { s with pool, releasing := s.releasing ++ [(f.thread, f.pktlen)] }
  | none => { s with rejected := s.rejected + 1 }.ret f.thread f.pktlen

def release (s : Ethloop) (r : Nat × Int) : Ethloop :=
  { s with pool := s.pool.signal, releasing := s.releasing.erase r }.ret r.1 r.2

def inside (s : Ethloop) : List Nat :=
  s.pool.freebuf.queue ++ s.pool.woken ++ s.sem.queue ++ s.woken ++ s.signalling.map Prod.fst ++
    s.copying.map Taken.thread ++ s.freeing.map Freeing.thread ++ s.releasing.map Prod.fst

inductive Op
  | write (t : Nat) (buf : List Byte)
  | resumeWrite (t : Nat)
  | signal (w : Nat × Int)
  | read (t : Nat) (len : Nat)
  | resumeRead (t : Nat)
  | copy (c : Taken)
  | free (f : Freeing)
  | release (r : Nat × Int)
  deriving DecidableEq, Repr

def step : Op → Ethloop → Option Ethloop
  | .write t buf, s => if t ∈ s.inside then none else some (s.ethloopWrite t buf)
  | .resumeWrite t, s => if t ∈ s.pool.woken then some (s.resumeWrite t) else none
  | .signal w, s => if w ∈ s.signalling then some (s.signal w) else none
  | .read t len, s => if t ∈ s.inside then none else some (s.ethloopRead t len)
  | .resumeRead t, s => if t ∈ s.woken then some (s.resumeRead t) else none
  | .copy c, s => if c ∈ s.copying then some (s.copy c) else none
  | .free f, s => if f ∈ s.freeing then some (s.free f) else none
  | .release r, s => if r ∈ s.releasing then some (s.release r) else none

end Ethloop

end Xinu
