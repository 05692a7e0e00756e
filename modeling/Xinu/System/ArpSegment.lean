import Xinu.System.Arp
import Xinu.System.TcpInput

/-!
# ARP packets on an Ethernet

`arpSendRqst.c`, `arpRecv.c` on the bytes of a packet, `arpSendReply.c` and `arpDaemon.c`, and hosts on one Ethernet. What is
on the wire stays there, so that a frame may come late, several times, or never. The interface of an ARP entry is not kept: a
request goes out on any interface, for any address.
-/

namespace Xinu
open Lib (Byte load store)

abbrev ETHER_TYPE_ARP : Nat := 0x0806
abbrev ARP_OP_RQST : Nat := 1
abbrev ARP_OP_REPLY : Nat := 2
abbrev ARP_CONST_HDR_LEN : Nat := 8
abbrev ARP_NQUEUE : Nat := 32

def arpPkt (order : ByteOrder) (mem : Int → Byte) (arp : Int) : Arp.ArpPkt :=
  { hwtype := net2hs order (get16 order mem arp)
    prtype := net2hs order (get16 order mem (arp + 2))
    hwalen := (mem (arp + 4)).toNat
    pralen := (mem (arp + 5)).toNat
    addrs := fun i => mem (arp + ARP_CONST_HDR_LEN + i) }

def arpOp (order : ByteOrder) (mem : Int → Byte) (arp : Int) : Nat := net2hs order (get16 order mem (arp + 6))

def arpRqst (net : Net) (nif : Nat) (praddr : Netaddr) : Packet :=
  let netptr := net.netiftab nif
  let hwalen := netptr.hwaddr.addr.length
  let pralen := netptr.ip.addr.length
  let len := ARP_CONST_HDR_LEN + hwalen * 2 + pralen * 2
  let arp : Int := (NET_MAX_PKTLEN : Int) - len
  let addrs := arp + ARP_CONST_HDR_LEN
  let mem := put16 net.order (fun _ => 0) arp (hs2net net.order netptr.hwaddr.type)
  let mem := put16 net.order mem (arp + 2) (hs2net net.order netptr.ip.type)
  let mem := store mem (arp + 4) [BitVec.ofNat 8 hwalen]
  let mem := store mem (arp + 5) [BitVec.ofNat 8 pralen]
  let mem := put16 net.order mem (arp + 6) (hs2net net.order ARP_OP_RQST)
  let mem := store mem addrs netptr.hwaddr.addr
  let mem := store mem (addrs + hwalen) netptr.ip.addr
  let mem := store mem (addrs + 2 * hwalen + pralen) (praddr.addr.take pralen)
  { nif, len, nethdr := 0, curr := arp, mem }

def arpSendRqst (net : Net) (nif : Nat) (praddr : Netaddr) : Traffic × Int :=
  if ¬ net.getbuf then (.none, SYSERR)
  else
    let (_, sent, result) := netSend net (arpRqst net nif praddr) (some NETADDR_GLOBAL_ETH_BRC) praddr ETHER_TYPE_ARP
    (sent, result)

/-- The request, made the reply to it. -/
def arpReply (net : Net) (pkt : Packet) : Packet :=
  let netptr := net.netiftab pkt.nif
  let arp := pkt.curr
  let addrs := arp + ARP_CONST_HDR_LEN
  let hwalen := (pkt.mem (arp + 4)).toNat
  let pralen := (pkt.mem (arp + 5)).toNat
  let mem := put16 net.order pkt.mem (arp + 6) (hs2net net.order ARP_OP_REPLY)
  let mem := store mem (addrs + (hwalen + pralen : Nat)) (load mem addrs hwalen)
  let mem := store mem (addrs + (2 * hwalen + pralen : Nat)) (load mem (addrs + hwalen) pralen)
  let mem := store mem addrs (netptr.hwaddr.addr.take hwalen)
  let mem := store mem (addrs + hwalen) (netptr.ip.addr.take pralen)
  { pkt with mem }

/-- The target's hardware address. The packets for the daemon have one of six bytes. -/
def arpDst (order : ByteOrder) (pkt : Packet) : Netaddr :=
  let hwalen := (pkt.mem (pkt.curr + 4)).toNat
  let pralen := (pkt.mem (pkt.curr + 5)).toNat
  { type := net2hs order (get16 order pkt.mem pkt.curr)
    addr := (load pkt.mem (pkt.curr + ARP_CONST_HDR_LEN + (hwalen + pralen : Nat)) hwalen).take NET_MAX_ALEN
    bound := List.length_take_le .. }

def arpSendReply (net : Net) (pkt : Packet) : Traffic × Int :=
  let pkt := arpReply net pkt
  let (_, sent, result) := netSend net pkt (some (arpDst net.order pkt)) (net.netiftab pkt.nif).ip ETHER_TYPE_ARP
  (sent, result)

/-- The packet that `netRecv` hands to `arpRecv`, if it does. -/
def netRecvArp (net : Net) (nif : Nat) (frame : List Byte) : Option Packet :=
  let pkt := netRecv net nif frame.length (store (fun _ => 0) 0 frame)
  let dst : Netaddr := { type := ARP_HWTYPE_ETHERNET, addr := load pkt.mem 0 ETH_ADDR_LEN, bound := by simp [NET_MAX_ALEN] }
  if ETH_HDR_LEN > frame.length then none
  else if (dst = (net.netiftab nif).hwaddr ∨ dst = NETADDR_GLOBAL_ETH_BRC) ∧
      net2hs net.order (get16 net.order pkt.mem 12) = ETHER_TYPE_ARP then some pkt
  else none

structure Host where
  net : Net
  arp : Arp
  arpqueue : List Packet

namespace Host

def arpRecv (host : Host) (pkt : Packet) : Host :=
  let pkt : Packet := { pkt with nethdr := pkt.curr }
  let ip := (host.net.netiftab pkt.nif).ip
  let arp := arpPkt host.net.order pkt.mem pkt.curr
  let after := { host with arp := host.arp.arpRecv ip arp }
  let entry : Bool := match host.arp.arpGetEntry arp.spa with
    | (some _, _) => true
    | (none, s) => s.arpAlloc.isSome
  if arp.valid ∧ ip = arp.dpa ∧ entry ∧ arpOp host.net.order pkt.mem pkt.curr = ARP_OP_RQST ∧
      host.arpqueue.length < ARP_NQUEUE then
    { after with arpqueue := host.arpqueue ++ [pkt] }
  else after

def given (host : Host) (getbuf : Bool) (writes : Nat → Nat → Bool) : Net := { host.net with getbuf, writes }

end Host

structure ArpSegment where
  host : Nat → Host
  wire : List (List Byte)

namespace ArpSegment

def setHost (s : ArpSegment) (h : Nat) (host : Host) : ArpSegment :=
  { s with host := fun i => if i = h then host else s.host i }

def send (s : ArpSegment) (sent : Traffic) : ArpSegment := { s with wire := s.wire ++ sent.frames.map Prod.snd }

inductive Op
  -- a step of a host that is not about packets
  | arp (h : Nat) (op : Arp.Op)
  -- a thread in `arpLookup` sends its request; its entry is not freed in between (`entry->nif` would be null)
  | arpSendRqst (h tid nif : Nat) (praddr : Netaddr) (getbuf : Bool) (writes : Nat → Nat → Bool)
  -- a frame arrives, padded
  | arpRecv (h nif : Nat) (frame padding : List Byte)
  | arpDaemon (h : Nat) (writes : Nat → Nat → Bool)
  -- a frame that is not about ARP
  | other (frame : List Byte)

def aboutPackets : Arp.Op → Bool
  | .arpRecv .. => true
  | .arpSendRqst .. => true
  | _ => false

def step : Op → ArpSegment → Option ArpSegment
  | .arp h op, s =>
      if aboutPackets op then none
      else (Arp.step op (s.host h).arp).map fun arp => s.setHost h { s.host h with arp }
  | .arpSendRqst h tid nif praddr getbuf writes, s =>
      let (sent, result) := Xinu.arpSendRqst ((s.host h).given getbuf writes) nif praddr
      (Arp.step (.arpSendRqst tid (decide (result ≠ SYSERR))) (s.host h).arp).map fun arp =>
        (s.setHost h { s.host h with arp }).send sent
  | .arpRecv h nif frame padding, s =>
      if frame ∈ s.wire ∧ ((s.host h).net.netiftab nif).up then
        match netRecvArp (s.host h).net nif (frame ++ padding) with
        | some pkt => some (s.setHost h ((s.host h).arpRecv pkt))
        | none => some s
      else none
  | .arpDaemon h writes, s =>
      match (s.host h).arpqueue with
      | [] => none
      | pkt :: rest =>
          let (sent, _) := arpSendReply ((s.host h).given true writes) pkt
          some ((s.setHost h { s.host h with arpqueue := rest }).send sent)
  | .other frame, s =>
      if ETH_HDR_LEN ≤ frame.length ∧ net2hs .big (get16 .big (store (fun _ => 0) 0 frame) 12) ≠ ETHER_TYPE_ARP then
        some { s with wire := s.wire ++ [frame] }
      else none

/-- Behind `arpInit` on each host, with nothing on the wire. -/
def start (net : Nat → Net) (clktime : Nat → Nat) : ArpSegment :=
  { host := fun h => { net := net h, arp := Arp.start (clktime h), arpqueue := [] }, wire := [] }

end ArpSegment

end Xinu
