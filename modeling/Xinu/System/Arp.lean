import Xinu.Lib.Runs
import Xinu.System.Ipv4

/-!
# ARP

The ARP table, the threads in `arpLookup` and their message slots. A section with interrupts disabled
is one step. Whether an ARP request can be sent is given.
-/

namespace Xinu
open Lib (Byte)

abbrev ARP_HWTYPE_ETHERNET : Nat := 1
abbrev ARP_NENTRY : Nat := 32
abbrev ARP_NTHRWAIT : Nat := 10
abbrev ARP_MAX_LOOKUP : Nat := 5
abbrev ARP_MSG_RESOLVED : Int := 1
abbrev ARP_TTL_UNRESOLVED : Nat := 5
abbrev ARP_TTL_RESOLVED : Nat := 300

namespace Arp

inductive State
  | free | unresolved | resolved
  deriving DecidableEq, Repr

structure Entry where
  state : State
  hwaddr : Netaddr
  praddr : Netaddr
  expires : Nat
  -- the first `count` of them
  waiting : List Nat
  deriving DecidableEq

def Entry.zero : Entry :=
  { state := .free, hwaddr := ⟨0, [], Netaddr.empty_fits⟩, praddr := ⟨0, [], Netaddr.empty_fits⟩, expires := 0, waiting := [] }

/-- Where a thread is in `arpLookup`: at the top of its loop, in `arpSendRqst`, at `recvclr`, at
`recvtime`, waiting there, and ready again after the timeout. -/
inductive Point
  | attempt | request | clear | receive | waiting | expired
  deriving DecidableEq, Repr

inductive Lookup
  -- no thread has the number (`THRFREE`)
  | free
  /-- `arpLookup` is not running, and has stored this address if it returned `OK`. -/
  | back (hwaddr : Option Netaddr)
  | inside (praddr : Netaddr) (lookups : Nat) (point : Point)
  deriving DecidableEq

structure ArpPkt where
  hwtype : Nat
  prtype : Nat
  hwalen : Nat
  pralen : Nat
  addrs : Nat → Byte

end Arp

open Arp

structure Arp where
  arptab : Nat → Entry
  clktime : Nat
  thread : Nat → Lookup
  msg : Nat → Option Int
  /-- What ARP packets have announced last, which the code does not keep. -/
  announced : Netaddr → Option Netaddr

namespace Arp

def start (clktime : Nat) : Arp :=
  { arptab := fun _ => Entry.zero, clktime, thread := fun _ => .back none, msg := fun _ => none
    announced := fun _ => none }

def setEntry (s : Arp) (i : Nat) (entry : Entry) : Arp :=
  { s with arptab := fun j => if j = i then entry else s.arptab j }

def setThread (s : Arp) (tid : Nat) (lookup : Lookup) : Arp :=
  { s with thread := fun t => if t = tid then lookup else s.thread t }

def deposit (slots : Nat → Option Int) (tid : Nat) (msg : Int) : Nat → Option Int :=
  fun t => if t = tid then some msg else slots t

/-! ## The table -/

/-- The loop of `arpNotify`, and whether it comes to its end. `send` fails for a thread that has ended or
has a message. -/
def notify (thread : Nat → Lookup) (msg : Int) : List Nat → (Nat → Option Int) → (Nat → Option Int) × Bool
  | [], slots => (slots, true)
  | tid :: rest, slots =>
      if thread tid = .free ∨ (slots tid).isSome then (slots, false)
      else notify thread msg rest (deposit slots tid msg)

def arpNotify (s : Arp) (i : Nat) (msg : Int) : Arp :=
  let (slots, all) := notify s.thread msg (s.arptab i).waiting s.msg
  let s := { s with msg := slots }
  if all then s.setEntry i { s.arptab i with waiting := [] } else s

def arpFree (s : Arp) (i : Nat) : Arp :=
  (if (s.arptab i).state = .unresolved then s.arpNotify i TIMEOUT else s).setEntry i Entry.zero

def getEntry (praddr : Netaddr) : List Nat → Arp → Option Nat × Arp
  | [], s => (none, s)
  | i :: rest, s =>
      if (s.arptab i).state = .free then getEntry praddr rest s
      else if (s.arptab i).expires < s.clktime then getEntry praddr rest (s.arpFree i)
      else if (s.arptab i).praddr = praddr then (some i, s)
      else getEntry praddr rest s

def arpGetEntry (s : Arp) (praddr : Netaddr) : Option Nat × Arp :=
  getEntry praddr (List.range ARP_NENTRY) s

def scan (arptab : Nat → Entry) : List Nat → Option Nat → Option Nat
  | [], minexpires => minexpires
  | i :: rest, minexpires =>
      if (arptab i).state = .free then some i
      else
        match minexpires with
        | none => scan arptab rest (some i)
        | some m => scan arptab rest (some (if (arptab i).expires < (arptab m).expires then i else m))

def arpAlloc (s : Arp) : Option (Nat × Arp) :=
  (scan s.arptab (List.range ARP_NENTRY) none).map fun i =>
    (i, s.setEntry i
      (if (s.arptab i).state = .free then { s.arptab i with state := .unresolved }
      else { Entry.zero with state := .unresolved }))

/-! ## `arpLookup` -/

def obtain (s : Arp) (praddr : Netaddr) : Option Nat × Arp :=
  match s.arpGetEntry praddr with
  | (some i, s) => (some i, s)
  | (none, s) =>
      match s.arpAlloc with
      | none => (none, s)
      | some (i, s) =>
          (some i, s.setEntry i
            { s.arptab i with
              state := .unresolved
              praddr
              expires := s.clktime + ARP_TTL_UNRESOLVED
              waiting := [] })

def attempt (s : Arp) (tid : Nat) (praddr : Netaddr) (lookups : Nat) : Arp :=
  if ARP_MAX_LOOKUP ≤ lookups then s.setThread tid (.back none)
  else
    match s.obtain praddr with
    | (none, s) => s.setThread tid (.back none)
    | (some i, s) =>
        let entry := s.arptab i
        if entry.state = .resolved then s.setThread tid (.back (some entry.hwaddr))
        else if ARP_NTHRWAIT ≤ entry.waiting.length then s.setThread tid (.back none)
        else
          (s.setEntry i { entry with waiting := entry.waiting ++ [tid] }).setThread tid
            (.inside praddr (lookups + 1) .request)

def received (s : Arp) (tid : Nat) (praddr : Netaddr) (lookups : Nat) (msg : Int) : Arp :=
  if msg = TIMEOUT ∨ msg = SYSERR then s.setThread tid (.back none)
  else s.setThread tid (.inside praddr lookups .attempt)

def clearSlot (s : Arp) (tid : Nat) : Arp :=
  { s with msg := fun t => if t = tid then none else s.msg t }

def recvtime (s : Arp) (tid : Nat) (praddr : Netaddr) (lookups : Nat) : Arp :=
  match s.msg tid with
  | some msg => (s.clearSlot tid).received tid praddr lookups msg
  | none => s.setThread tid (.inside praddr lookups .waiting)

def wake (s : Arp) (tid : Nat) (praddr : Netaddr) (lookups : Nat) : Arp :=
  match s.msg tid with
  | some msg => (s.clearSlot tid).received tid praddr lookups msg
  | none => s.received tid praddr lookups TIMEOUT

/-! ## `arpRecv` -/

def ArpPkt.valid (pkt : ArpPkt) : Bool :=
  pkt.hwtype = ARP_HWTYPE_ETHERNET ∧ pkt.hwalen = ETH_ADDR_LEN ∧ pkt.prtype = ETHER_TYPE_IPv4 ∧
    pkt.pralen = IPv4_ADDR_LEN

def ArpPkt.sha (pkt : ArpPkt) : Netaddr :=
  { type := pkt.hwtype, addr := (List.range ETH_ADDR_LEN).map pkt.addrs, bound := by simp }

def ArpPkt.spa (pkt : ArpPkt) : Netaddr :=
  { type := pkt.prtype
    addr := (List.range IPv4_ADDR_LEN).map fun i : Nat => pkt.addrs (ETH_ADDR_LEN + i)
    bound := by simp [IPv4_ADDR_LEN, NET_MAX_ALEN] }

def ArpPkt.dpa (pkt : ArpPkt) : Netaddr :=
  { type := pkt.prtype
    addr := (List.range IPv4_ADDR_LEN).map fun i : Nat => pkt.addrs (ETH_ADDR_LEN * 2 + IPv4_ADDR_LEN + i)
    bound := by simp [IPv4_ADDR_LEN, NET_MAX_ALEN] }

def announce (s : Arp) (pkt : ArpPkt) : Arp :=
  { s with announced := fun a => if a = pkt.spa then some pkt.sha else s.announced a }

def resolve (s : Arp) (i : Nat) (sha : Netaddr) : Arp :=
  let entry := { s.arptab i with hwaddr := sha, expires := s.clktime + ARP_TTL_RESOLVED }
  if entry.state = .unresolved then
    (s.setEntry i { entry with state := .resolved }).arpNotify i ARP_MSG_RESOLVED
  else s.setEntry i entry

def add (s : Arp) (sha spa : Netaddr) : Arp :=
  match s.arpAlloc with
  | none => s
  | some (i, s) =>
      s.setEntry i
        { s.arptab i with
          state := .resolved
          hwaddr := sha
          praddr := spa
          expires := s.clktime + ARP_TTL_RESOLVED }

def arpRecv (s : Arp) (ip : Netaddr) (pkt : ArpPkt) : Arp :=
  if ¬ pkt.valid then s
  else
    match s.arpGetEntry pkt.spa with
    | (some i, s) => (s.announce pkt).resolve i pkt.sha
    | (none, s) => if ip = pkt.dpa then (s.announce pkt).add pkt.sha pkt.spa else s.announce pkt

/-! ## Runs -/

inductive Op
  -- the steps of `arpLookup`
  | arpLookup (tid : Nat) (praddr : Netaddr)
  | attempt (tid : Nat)
  | arpSendRqst (tid : Nat) (sends : Bool)
  | recvclr (tid : Nat)
  | recvtime (tid : Nat)
  | timeout (tid : Nat)
  | wake (tid : Nat)
  -- a message from elsewhere
  | send (tid : Nat) (msg : Int)
  | kill (tid : Nat)
  | create (tid : Nat)
  | arpRecv (ip : Netaddr) (pkt : ArpPkt)
  | tick

def leave (s : Arp) (tid : Nat) (point : Point) (next : Netaddr → Nat → Arp) : Option Arp :=
  match s.thread tid with
  | .inside praddr lookups p => if p = point then some (next praddr lookups) else none
  | _ => none

def step : Op → Arp → Option Arp
  | .arpLookup tid praddr, s =>
      match s.thread tid with
      | .back _ => some (s.setThread tid (.inside praddr 0 .attempt))
      | _ => none
  | .attempt tid, s => s.leave tid .attempt (s.attempt tid)
  | .arpSendRqst tid sends, s =>
      s.leave tid .request fun praddr lookups =>
        s.setThread tid (if sends then .inside praddr lookups .clear else .back none)
  | .recvclr tid, s =>
      s.leave tid .clear fun praddr lookups => (s.clearSlot tid).setThread tid (.inside praddr lookups .receive)
  | .recvtime tid, s => s.leave tid .receive (s.recvtime tid)
  | .timeout tid, s =>
      if s.msg tid = none then
        s.leave tid .waiting fun praddr lookups => s.setThread tid (.inside praddr lookups .expired)
      else none
  | .wake tid, s =>
      match s.thread tid with
      | .inside praddr lookups .waiting =>
          if (s.msg tid).isSome then some (s.wake tid praddr lookups) else none
      | .inside praddr lookups .expired => some (s.wake tid praddr lookups)
      | _ => none
  | .send tid msg, s =>
      if s.thread tid = .free ∨ (s.msg tid).isSome then some s else some { s with msg := deposit s.msg tid msg }
  | .kill tid, s => some (s.setThread tid .free)
  | .create tid, s => if s.thread tid = .free then some ((s.clearSlot tid).setThread tid (.back none)) else none
  | .arpRecv ip pkt, s => some (s.arpRecv ip pkt)
  | .tick, s => some { s with clktime := s.clktime + 1 }

/-! ## The interrupt mask -/

/-- What the rounds of one `arpLookup` find: the table when a round begins, whether its request is sent, and
what `recvtime` returns. The functions in between leave the interrupts as they find them. -/
structure Rounds where
  table : Nat → Arp
  sends : Nat → Bool
  recvtime : Nat → Int

/-- The loop of `arpLookup` with the interrupt mask. `disable` leaves `off mask`, and `restore` sets what
`disable` has returned. -/
def lookupLoop {Mask : Type} (off : Mask → Mask) (rounds : Rounds) (praddr : Netaddr) :
    Nat → Nat → Mask → Mask × Int
  | 0, _, mask => (mask, SYSERR)
  | fuel + 1, lookups, mask =>
      let im := mask
      let mask := off mask
      match (rounds.table lookups).obtain praddr with
      | (none, _) => (im, SYSERR)
      | (some i, s) =>
          -- back without `restore`
          if (s.arptab i).state = .resolved then (mask, OK)
          else if ARP_NTHRWAIT ≤ (s.arptab i).waiting.length then (im, SYSERR)
          else
            let mask := im
            if rounds.sends lookups = false then (mask, SYSERR)
            else if rounds.recvtime lookups = TIMEOUT ∨ rounds.recvtime lookups = SYSERR then (mask, SYSERR)
            else lookupLoop off rounds praddr fuel (lookups + 1) mask

/-- The mask behind `arpLookup` and its result. No address is given if a pointer is null. -/
def lookupMask {Mask : Type} (off : Mask → Mask) (rounds : Rounds) (praddr : Option Netaddr) (mask : Mask) :
    Mask × Int :=
  match praddr with
  | none => (mask, SYSERR)
  | some praddr => lookupLoop off rounds praddr ARP_MAX_LOOKUP 0 mask

end Arp

end Xinu
