import Xinu.System.Memory
import Xinu.Lib.Bytes

/-!
# IPv4

`netChksum.c`, `netSend.c`, `ipv4Send.c`, `ipv4SendFrag.c`, `rtLookup.c`, `rtSend.c`, `ipv4RecvValid.c`,
`ipv4RecvDemux.c` and `ipv4Recv.c`. A packet buffer is memory with `pkt->data` at address 0. What
other machines answer to ARP requests, whether a device takes a frame and whether there is a buffer
are given. `NETEMU` is not set.
-/

namespace Xinu
open Lib (Byte load store)

inductive ByteOrder
  | little | big
  deriving DecidableEq, Repr

def get16 (order : ByteOrder) (mem : Int → Byte) (a : Int) : Nat :=
  match order with
  | .little => (mem a).toNat + 256 * (mem (a + 1)).toNat
  | .big => 256 * (mem a).toNat + (mem (a + 1)).toNat

def put16 (order : ByteOrder) (mem : Int → Byte) (a : Int) (v : Nat) : Int → Byte :=
  match order with
  | .little => store mem a [BitVec.ofNat 8 v, BitVec.ofNat 8 (v / 256)]
  | .big => store mem a [BitVec.ofNat 8 (v / 256), BitVec.ofNat 8 v]

def hs2net (order : ByteOrder) (x : Nat) : Nat :=
  match order with
  | .little => x / 256 % 256 + 256 * (x % 256)
  | .big => x

abbrev net2hs (order : ByteOrder) (x : Nat) : Nat := hs2net order x

/-! ## Checksum -/

/-- The sum of the words, before the 32 bits of `sum`. -/
def chksumAdd (order : ByteOrder) (mem : Int → Byte) : Int → Nat → Nat
  | _, 0 => 0
  | a, 1 => net2hs order ((mem a).toNat * 256)
  | a, len + 2 => get16 order mem a + chksumAdd order mem (a + 2) len

/-- `while (sum >> 16) sum = (sum >> 16) + (sum & 0xFFFF);`, which ends after two rounds. -/
def chksumFold : Nat → Nat → Nat
  | 0, sum => sum
  | fuel + 1, sum => if sum / 65536 = 0 then sum else chksumFold fuel (sum / 65536 + sum % 65536)

def netChksum (order : ByteOrder) (mem : Int → Byte) (a : Int) (len : Nat) : Nat :=
  65535 - chksumFold 3 (chksumAdd order mem a len % 2 ^ 32)

/-! ## Interfaces and packets -/

abbrev ETHER_TYPE_IPv4 : Nat := 0x0800
abbrev ETH_ADDR_LEN : Nat := 6
abbrev IPv4_ADDR_LEN : Nat := 4
abbrev ETH_HDR_LEN : Nat := 14
abbrev NET_MAX_ALEN : Nat := 6
abbrev NET_MAX_PKTLEN : Nat := 1598

/-- `len` is the length of `addr`. -/
structure Netaddr where
  type : Nat
  addr : List Byte
  bound : addr.length ≤ NET_MAX_ALEN := by decide
  deriving DecidableEq, Repr

namespace Netaddr

theorem empty_fits : 0 ≤ NET_MAX_ALEN := by decide
theorem ipv4_fits : 4 ≤ NET_MAX_ALEN := by decide
theorem ether_fits : 6 ≤ NET_MAX_ALEN := by decide

theorem replicate_fits (a : Netaddr) : (List.replicate a.addr.length (0 : Byte)).length ≤ NET_MAX_ALEN := by
  rw [List.length_replicate]
  exact a.bound

end Netaddr

def NETADDR_GLOBAL_ETH_BRC : Netaddr := { type := 1, addr := List.replicate ETH_ADDR_LEN 255 }

def netaddrmask (a mask : Netaddr) : Netaddr :=
  if a.type ≠ mask.type ∨ a.addr.length ≠ mask.addr.length then a
  else
    { type := a.type
      addr := List.zipWith (· &&& ·) a.addr mask.addr
      bound := by
        rw [List.length_zipWith]
        exact Nat.le_trans (Nat.min_le_left _ _) a.bound }

structure Netif where
  -- `state == NET_ALLOC`
  up : Bool
  mtu : Nat
  linkhdrlen : Nat
  ip : Netaddr
  ipbrc : Netaddr
  hwaddr : Netaddr
  -- what every driver answers to `NET_GET_LINKHDRLEN`
  ethernet : linkhdrlen = ETH_HDR_LEN := by decide

structure RtEntry where
  used : Bool
  masklen : Nat
  dst : Netaddr
  gateway : Netaddr
  mask : Netaddr
  nif : Nat

structure Packet where
  nif : Nat
  len : Nat
  nethdr : Int
  curr : Int
  mem : Int → Byte

structure Net where
  order : ByteOrder
  netiftab : Nat → Netif
  nnetif : Nat
  rttab : List RtEntry
  -- the result of `arpLookup`, and whether `write` takes a whole frame of this length
  arp : Nat → Netaddr → Option Netaddr
  writes : Nat → Nat → Bool
  getbuf : Bool

inductive Icmp
  | destUnreach (code : Nat)
  | timeExceeded (code : Nat)
  | redirect (code : Nat)
  deriving DecidableEq, Repr

namespace Icmp

def code : Icmp → Nat
  | destUnreach code | timeExceeded code | redirect code => code

end Icmp

abbrev ICMP_UNREACH : Nat := 3
abbrev ICMP_REDIRECT : Nat := 5
abbrev ICMP_TIMEEXCD : Nat := 11
abbrev ICMP_NET_UNR : Nat := 0
abbrev ICMP_HST_UNR : Nat := 1
abbrev ICMP_FOFF_DFSET : Nat := 4
abbrev ICMP_RNET : Nat := 0
abbrev ICMP_RHST : Nat := 1
abbrev ICMP_TTL_EXC : Nat := 0

def ipAddr (mem : Int → Byte) (a : Int) : Netaddr :=
  { type := ETHER_TYPE_IPv4, addr := load mem a 4, bound := by simp [NET_MAX_ALEN] }

/-- What a function hands to `netSend`, what goes out on which interface, and for which ICMP messages it calls
`icmpDestUnreach`. -/
structure Traffic where
  passed : List (List Byte)
  frames : List (Nat × List Byte)
  icmps : List Icmp

def Traffic.add (t : Traffic) (t' : Traffic) : Traffic :=
  ⟨t.passed ++ t'.passed, t.frames ++ t'.frames, t.icmps ++ t'.icmps⟩

def Traffic.none : Traffic := ⟨[], [], []⟩

namespace Packet

def bytes (pkt : Packet) : List Byte := load pkt.mem pkt.curr pkt.len

def pushHeader (pkt : Packet) (linkhdrlen : Nat) : Packet :=
  { pkt with curr := pkt.curr - linkhdrlen, len := pkt.len + linkhdrlen }

end Packet

def netSend (net : Net) (pkt : Packet) (hwaddr : Option Netaddr) (praddr : Netaddr) (type : Nat) :
    Packet × Traffic × Int :=
  let passed : Traffic := ⟨[pkt.bytes], [], []⟩
  let netptr := net.netiftab pkt.nif
  if ¬ netptr.up then (pkt, passed, SYSERR)
  else
    let pkt := pkt.pushHeader netptr.linkhdrlen
    let pkt := { pkt with mem := put16 net.order pkt.mem (pkt.curr + 12) (hs2net net.order type) }
    let pkt := { pkt with mem := store pkt.mem (pkt.curr + 6) netptr.hwaddr.addr }
    match hwaddr.or (net.arp pkt.nif praddr) with
    | none => (pkt, passed, SYSERR)
    | some hwaddr =>
        let pkt := { pkt with mem := store pkt.mem pkt.curr hwaddr.addr }
        if net.writes pkt.nif pkt.len then
          (pkt, { passed with frames := [(pkt.nif, pkt.bytes)] }, OK)
        else (pkt, passed, SYSERR)

/-! ## Fragments -/

abbrev IPv4_HDR_LEN : Nat := 20
abbrev IPv4_MIN_IHL : Nat := 5
abbrev IPv4_MAX_IHL : Nat := 15
abbrev IPv4_VERSION : Nat := 4
abbrev IPv4_FLAGS : Nat := 0xE000
abbrev IPv4_FROFF : Nat := 0x1FFF
abbrev IPv4_FLAG_MF : Nat := 0x2000
abbrev IPv4_FLAG_DF : Nat := 0x4000

def ipIhl (mem : Int → Byte) (ip : Int) : Nat := (mem ip).toNat % 16
def ipLen (order : ByteOrder) (mem : Int → Byte) (ip : Int) : Nat := net2hs order (get16 order mem (ip + 2))
def ipFlagsFroff (order : ByteOrder) (mem : Int → Byte) (ip : Int) : Nat :=
  net2hs order (get16 order mem (ip + 6))

def setChksum (order : ByteOrder) (mem : Int → Byte) (ip : Int) (len : Nat) : Int → Byte :=
  let mem := put16 order mem (ip + 10) 0
  put16 order mem (ip + 10) (netChksum order mem ip len)

def fragLoop (net : Net) (mtu : Nat) (nxthop : Netaddr) (src : Int → Byte) (lastFlag : Nat) (outip : Int) :
    Nat → Packet → Int → Nat → Nat → Traffic
  | 0, _, _, _, _ => .none
  | fuel + 1, outpkt, data, dRem, froff =>
      if dRem = 0 then .none
      else
        let dLen := (if (dRem + 7) / 8 * 8 > mtu + IPv4_HDR_LEN then (mtu - IPv4_HDR_LEN) / 8 * 8
          else dRem) % 2 ^ 16
        let mem := store outpkt.mem (outip + 20) (load src data dLen)
        let flags := if dLen = dRem then lastFlag &&& froff else IPv4_FLAG_MF &&& froff
        let mem := put16 net.order mem (outip + 6) (hs2net net.order flags)
        let mem := put16 net.order mem (outip + 2) (hs2net net.order (IPv4_HDR_LEN + dLen))
        let mem := setChksum net.order mem outip IPv4_HDR_LEN
        let outpkt := { outpkt with mem, len := ipLen net.order mem outip }
        let (outpkt, sent, _) := netSend net outpkt none nxthop ETHER_TYPE_IPv4
        sent.add (fragLoop net mtu nxthop src lastFlag outip fuel outpkt (data + dLen) (dRem - dLen)
          ((froff + dLen / 8) % 2 ^ 16))

def ipv4SendFrag (net : Net) (pkt : Packet) (nxthop : Netaddr) : Traffic × Int :=
  let ip := pkt.curr
  let netptr := net.netiftab pkt.nif
  if ipLen net.order pkt.mem ip ≤ netptr.mtu then
    let hwaddr := if netptr.ipbrc = nxthop then some NETADDR_GLOBAL_ETH_BRC else none
    let (_, sent, result) := netSend net pkt hwaddr nxthop ETHER_TYPE_IPv4
    (sent, result)
  else if ipFlagsFroff net.order pkt.mem ip &&& IPv4_FLAG_DF ≠ 0 then
    (⟨[], [], [.destUnreach ICMP_FOFF_DFSET]⟩, SYSERR)
  else
    let ihl := ipIhl pkt.mem ip * 4
    let dRem := ipLen net.order pkt.mem ip - ihl
    let froff := ipFlagsFroff net.order pkt.mem ip &&& IPv4_FROFF
    let lastFlag := ipFlagsFroff net.order pkt.mem ip &&& IPv4_FLAGS
    let dLen := (netptr.mtu - ihl) / 8 * 8 % 2 ^ 16
    let mem := put16 net.order pkt.mem (ip + 2) (hs2net net.order (ihl + dLen))
    let mem := put16 net.order mem (ip + 6) (hs2net net.order (IPv4_FLAG_MF &&& froff))
    let mem := setChksum net.order mem ip ihl
    let (pkt, first, _) := netSend net { pkt with mem, len := ihl + dLen } none nxthop ETHER_TYPE_IPv4
    if ¬ net.getbuf then (first, SYSERR)
    else
      let outip : Int := NET_MAX_PKTLEN - netptr.mtu
      let outpkt : Packet := ⟨pkt.nif, 0, 0, outip, store (fun _ => 0) outip (load pkt.mem ip IPv4_HDR_LEN)⟩
      let rest := fragLoop net netptr.mtu nxthop pkt.mem lastFlag outip (dRem - dLen) outpkt (ip + ihl + dLen)
        (dRem - dLen) ((froff + dLen / 8) % 2 ^ 16)
      (first.add rest, OK)

/-! ## Routes -/

/-- The best match so far, and one more entry of the table. -/
def rtBetter (addr : Netaddr) (best : Option RtEntry) (entry : RtEntry) : Option RtEntry :=
  if entry.used ∧ netaddrmask addr entry.mask = entry.dst then
    match best with
    | none => some entry
    | some rtptr => if rtptr.masklen < entry.masklen then some entry else best
  else best

def rtLookup (net : Net) (addr : Netaddr) : Option RtEntry := net.rttab.foldl (rtBetter addr) none

abbrev IPv4_TOS_ROUTINE : Nat := 0
abbrev IPv4_TTL : Nat := 64

def putAddr (mem : Int → Byte) (a : Int) (addr : Netaddr) : Int → Byte := store mem a (addr.addr.take IPv4_ADDR_LEN)

def ipv4Header (order : ByteOrder) (mem : Int → Byte) (ip : Int) (len proto : Nat) (src dst : Netaddr) : Int → Byte :=
  let mem := store mem ip [BitVec.ofNat 8 (IPv4_VERSION * 16 + IPv4_HDR_LEN / 4), BitVec.ofNat 8 IPv4_TOS_ROUTINE]
  let mem := put16 order mem (ip + 2) (hs2net order len)
  let mem := put16 order mem (ip + 4) 0
  let mem := put16 order mem (ip + 6) 0
  let mem := store mem (ip + 8) [BitVec.ofNat 8 IPv4_TTL, BitVec.ofNat 8 proto]
  let mem := putAddr mem (ip + 12) src
  let mem := putAddr mem (ip + 16) dst
  setChksum order mem ip IPv4_HDR_LEN

def ipv4Send (net : Net) (pkt : Packet) (src dst : Netaddr) (proto : Nat) : Traffic × Int :=
  if dst.type ≠ ETHER_TYPE_IPv4 then (.none, SYSERR)
  else
    match rtLookup net dst with
    | none => (.none, SYSERR)
    | some rtptr =>
        let nxthop := if rtptr.gateway.type = 0 then dst else rtptr.gateway
        let len := pkt.len + IPv4_HDR_LEN
        let ip := pkt.curr - IPv4_HDR_LEN
        let src := if src.type = 0 then (net.netiftab rtptr.nif).ip else src
        let mem := ipv4Header net.order pkt.mem ip len proto src dst
        ipv4SendFrag net { pkt with nif := rtptr.nif, len, curr := ip, mem } nxthop

/-! ## ICMP errors -/

abbrev IPv4_PROTO_ICMP : Nat := 1
abbrev ICMP_HEADER_LEN : Nat := 4
abbrev ICMP_DEF_DATALEN : Nat := 64

def icmpSend (net : Net) (pkt : Packet) (type code datalen : Nat) (src dst : Netaddr) : Traffic × Int :=
  let icmp := pkt.curr - ICMP_HEADER_LEN
  let mem := store pkt.mem icmp [BitVec.ofNat 8 type, BitVec.ofNat 8 code]
  let mem := put16 net.order mem (icmp + 2) 0
  let mem := put16 net.order mem (icmp + 2) (netChksum net.order mem icmp (datalen + ICMP_HEADER_LEN))
  ipv4Send net { pkt with curr := icmp, len := pkt.len + ICMP_HEADER_LEN, mem } src dst IPv4_PROTO_ICMP

/-- What `icmpDestUnreach`, `icmpTimeExceeded` and `icmpRedirect` have in common: four octets and the beginning of the
packet, for its source. -/
def icmpError (net : Net) (pkt : Packet) (type code : Nat) (octets : List Byte) : Traffic × Int :=
  if ¬ net.getbuf then (.none, SYSERR)
  else
    let ip := pkt.nethdr
    let len := ipIhl pkt.mem ip * 4 + ICMP_DEF_DATALEN
    let curr : Int := NET_MAX_PKTLEN - len
    let mem := store (fun _ => 0) curr (load pkt.mem ip len)
    let mem := store mem (curr - 4) octets
    icmpSend net ⟨0, len + 4, 0, curr - 4, mem⟩ type code (len + 4) { type := 0, addr := [] } (ipAddr pkt.mem (ip + 12))

def icmpDestUnreach (net : Net) (unreached : Packet) (code : Nat) : Traffic × Int :=
  icmpError net unreached ICMP_UNREACH code [0, 0, 0, 0]

def icmpTimeExceeded (net : Net) (unreached : Packet) (code : Nat) : Traffic × Int :=
  icmpError net unreached ICMP_TIMEEXCD code [0, 0, 0, 0]

def icmpRedirect (net : Net) (redir : Packet) (code : Nat) (route : RtEntry) : Traffic × Int :=
  icmpError net redir ICMP_REDIRECT code (route.gateway.addr.take IPv4_ADDR_LEN)

structure Report where
  message : Icmp
  frames : List (Nat × List Byte)
  result : Int

def Icmp.report (message : Icmp) (out : Traffic × Int) : Report := ⟨message, out.1.frames, out.2⟩

/-- The frames with a routed packet, and the ICMP messages about it. -/
structure Routing where
  frames : List (Nat × List Byte)
  reports : List Report

def rtSend (net : Net) (pkt : Packet) : Routing × Int :=
  let ip := pkt.nethdr
  let dst := ipAddr pkt.mem (ip + 16)
  match rtLookup net dst with
  | none => (⟨[], [(Icmp.destUnreach ICMP_NET_UNR).report (icmpDestUnreach net pkt ICMP_NET_UNR)]⟩, SYSERR)
  | some route =>
      let redirect : List Report :=
        if route.nif = pkt.nif then
          let code := if route.gateway.type = 0 then ICMP_RHST else ICMP_RNET
          [(Icmp.redirect code).report (icmpRedirect net pkt code route)]
        else []
      let mem := store pkt.mem (ip + 8) [pkt.mem (ip + 8) - 1]
      if mem (ip + 8) = 0 then
        let expired := (Icmp.timeExceeded ICMP_TTL_EXC).report (icmpTimeExceeded net { pkt with mem } ICMP_TTL_EXC)
        (⟨[], redirect ++ [expired]⟩, SYSERR)
      else
        let mem := setChksum net.order mem ip IPv4_HDR_LEN
        let nxthop := if route.gateway.type = 0 then dst else route.gateway
        let pkt := { pkt with mem, nif := route.nif }
        let (sent, result) := ipv4SendFrag net pkt nxthop
        let reports := redirect ++ sent.icmps.map fun m => m.report (icmpDestUnreach net pkt m.code)
        if result = SYSERR then
          let lost := (Icmp.destUnreach ICMP_HST_UNR).report (icmpDestUnreach net pkt ICMP_HST_UNR)
          (⟨sent.frames, reports ++ [lost]⟩, SYSERR)
        else (⟨sent.frames, reports⟩, OK)

/-! ## Input -/

def ipv4RecvValid (order : ByteOrder) (mem : Int → Byte) (ip : Int) : Bool :=
  let ihl := ipIhl mem ip
  (mem ip).toNat / 16 = IPv4_VERSION ∧ IPv4_MIN_IHL ≤ ihl ∧ ihl ≤ IPv4_MAX_IHL ∧
    -- the length is not converted to host order
    IPv4_MIN_IHL * 4 ≤ get16 order mem (ip + 2) ∧ netChksum order mem ip (ihl * 4) = 0

def ipv4RecvDemux (net : Net) (dst : Netaddr) : Bool :=
  (List.range net.nnetif).any fun i =>
    (net.netiftab i).up && (dst = (net.netiftab i).ip || dst = (net.netiftab i).ipbrc)

abbrev IPv4_PROTO_TCP : Nat := 6
abbrev IPv4_PROTO_UDP : Nat := 17

inductive Handed
  | dropped
  | rtRecv (pkt : Packet)
  | tcpRecv (pkt : Packet) (src dst : Netaddr)
  | udpRecv (pkt : Packet) (src dst : Netaddr)
  -- `icmpRecv` or `rawRecv`
  | other (proto : Nat)

def ipv4Recv (net : Net) (pkt : Packet) : Handed :=
  let ip := pkt.curr
  let pkt := { pkt with nethdr := ip }
  if ¬ ipv4RecvValid net.order pkt.mem ip then .dropped
  else
    let dst := ipAddr pkt.mem (ip + 16)
    let src := ipAddr pkt.mem (ip + 12)
    if ¬ ipv4RecvDemux net dst then .rtRecv pkt
    else if IPv4_FLAG_MF &&& ipFlagsFroff net.order pkt.mem ip ≠ 0 ∨
        ipFlagsFroff net.order pkt.mem ip &&& IPv4_FROFF ≠ 0 then .dropped
    else
      let iplen := ipLen net.order pkt.mem ip
      let linkhdrlen := (net.netiftab pkt.nif).linkhdrlen
      -- the difference is unsigned
      let pkt := if sub32 pkt.len linkhdrlen > iplen then
        { pkt with len := linkhdrlen + iplen } else pkt
      let pkt := { pkt with curr := pkt.curr + ipIhl pkt.mem ip * 4 }
      let proto := (pkt.mem (ip + 9)).toNat
      if proto = IPv4_PROTO_UDP then .udpRecv pkt src dst
      else if proto = IPv4_PROTO_TCP then .tcpRecv pkt src dst
      else .other proto

end Xinu
