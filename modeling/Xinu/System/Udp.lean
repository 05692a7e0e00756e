import Xinu.Lib.Runs
import Xinu.Lib.Sem
import Xinu.System.Ipv4

/-!
# UDP

`udpChksum.c`, `udpSend.c` and `udpWrite.c`, and `udpDemux.c`, `udpRecv.c` and `udpRead.c` on the table
of UDP devices. A device stays open. The buffers of its pool are counted, and a buffer is memory with the pseudo header at address 0.
The threads of the network daemon signal a reader with interrupts enabled, so other things can happen
between the packet's arrival in the ring and the signal.
-/

namespace Xinu
open Lib (Byte load store)

abbrev UDP_HDR_LEN : Nat := 8
abbrev UDP_MAX_PKTS : Nat := 100
abbrev UDP_MAX_DATALEN : Nat := 1024
abbrev UDP_PSEUDO_LEN : Nat := 12

/-- What `bfpalloc` makes of `NET_MAX_PKTLEN`. -/
abbrev UDP_BUF_LEN : Nat := (NET_MAX_PKTLEN + 3) / 4 * 4

/-! ## Packets -/

def pseudoHdr (order : ByteOrder) (mem : Int → Byte) (a : Int) (len : Nat) (src dst : Netaddr) : Int → Byte :=
  put16 order (store (putAddr (putAddr mem a src) (a + 4) dst) (a + 8) [0, BitVec.ofNat 8 IPv4_PROTO_UDP])
    (a + 10) len

/-- The bytes before the packet are put back afterwards. -/
def udpChksum (order : ByteOrder) (mem : Int → Byte) (curr : Int) (len : Nat) (src dst : Netaddr) : Nat :=
  netChksum order (pseudoHdr order mem (curr - UDP_PSEUDO_LEN) (hs2net order len) src dst)
    (curr - UDP_PSEUDO_LEN) (len + UDP_PSEUDO_LEN)

def udpChksumBuf (order : ByteOrder) (mem : Int → Byte) (curr : Int) (len : Nat) (src dst : Netaddr) :
    Nat × (Int → Byte) :=
  let pseu := curr - UDP_PSEUDO_LEN
  let temp := load mem pseu UDP_PSEUDO_LEN
  let mem := pseudoHdr order mem pseu (hs2net order len) src dst
  let sum := netChksum order mem pseu (len + UDP_PSEUDO_LEN)
  (sum, store mem pseu temp)

def udpSrcPort (order : ByteOrder) (mem : Int → Byte) (a : Int) : Nat := get16 order mem a
def udpDstPort (order : ByteOrder) (mem : Int → Byte) (a : Int) : Nat := get16 order mem (a + 2)
def udpLen (order : ByteOrder) (mem : Int → Byte) (a : Int) : Nat := get16 order mem (a + 4)
def udpChk (order : ByteOrder) (mem : Int → Byte) (a : Int) : Nat := get16 order mem (a + 6)

def hostHeader (order : ByteOrder) (mem : Int → Byte) (a : Int) : Int → Byte :=
  let mem := put16 order mem a (net2hs order (udpSrcPort order mem a))
  let mem := put16 order mem (a + 2) (net2hs order (udpDstPort order mem a))
  put16 order mem (a + 4) (net2hs order (udpLen order mem a))

/-! ## Devices -/

structure UdpReader where
  dev : Nat
  len : Nat
  deriving DecidableEq, Repr

inductive UdpState
  | free | alloc | opened
  deriving DecidableEq, Repr

structure Udp where
  state : UdpState
  inPool : Nat
  icount : Nat
  istart : Nat
  inb : Nat → (Int → Byte)
  isem : Lib.Sem
  localpt : Nat
  remotept : Nat
  localip : Netaddr
  -- of type 0 if there is none
  remoteip : Netaddr
  passive : Bool
  noblock : Bool
  bindfirst : Bool

/-! ## Output -/

def udpHeader (order : ByteOrder) (mem : Int → Byte) (a : Int) (srcPort dstPort len : Nat) : Int → Byte :=
  let mem := put16 order mem a (hs2net order srcPort)
  let mem := put16 order mem (a + 2) (hs2net order dstPort)
  let mem := put16 order mem (a + 4) (hs2net order len)
  put16 order mem (a + 6) 0

def udpStart (len : Nat) : Int := NET_MAX_PKTLEN - ((len + 3) / 4 * 4 : Nat)

def udpChksumSend (net : Net) (mem : Int → Byte) (len : Nat) (localip remoteip : Netaddr) : Traffic × Int :=
  let curr := udpStart len
  let mem := put16 net.order mem (curr + 6) (udpChksum net.order mem curr len localip remoteip)
  ipv4Send net { nif := 0, len, nethdr := 0, curr, mem } localip remoteip IPv4_PROTO_UDP

def udpSend (net : Net) (u : Udp) (datalen : Nat) (buf : List Byte) : Traffic × Int :=
  if ¬ net.getbuf then (.none, SYSERR)
  else if u.passive then
    let len := (datalen + 2 ^ 16 - UDP_PSEUDO_LEN) % 2 ^ 16
    let curr := udpStart len
    let mem := store (fun _ => 0) curr ((buf.drop UDP_PSEUDO_LEN).take len)
    let mem := udpHeader net.order mem curr (get16 net.order mem curr) (get16 net.order mem (curr + 2)) len
    let remoteip : Netaddr :=
      { type := u.localip.type
        addr := (buf.drop 4).take u.localip.addr.length
        bound := Nat.le_trans (List.length_take_le ..) u.localip.bound }
    if u.localip.addr ≠ buf.take u.localip.addr.length then (.none, SYSERR)
    else udpChksumSend net mem len u.localip remoteip
  else
    let len := (datalen + UDP_HDR_LEN) % 2 ^ 16
    let curr := udpStart len
    let mem := udpHeader net.order (fun _ => 0) curr u.localpt u.remotept len
    let mem := store mem (curr + UDP_HDR_LEN) (buf.take (len - UDP_HDR_LEN))
    udpChksumSend net mem len u.localip u.remoteip

/-- The loop of `udpWrite` with `count` bytes written and `buf` to go. -/
def udpWriteLoop (net : Net) (u : Udp) : Nat → Nat → List Byte → Traffic × Int
  | 0, count, _ => (.none, count)
  | fuel + 1, count, buf =>
      if buf.length = 0 then (.none, count)
      else
        let pktsize := if UDP_MAX_DATALEN ≤ buf.length then UDP_MAX_DATALEN else buf.length
        let (sent, result) := udpSend net u pktsize buf
        if result ≠ OK then (sent, if count = 0 then SYSERR else count)
        else
          let (rest, written) := udpWriteLoop net u fuel (count + pktsize) (buf.drop pktsize)
          (sent.add rest, written)

def udpWrite (net : Net) (u : Udp) (buf : List Byte) : Traffic × Int :=
  if u.passive then
    if UDP_PSEUDO_LEN + UDP_HDR_LEN + UDP_MAX_DATALEN < buf.length ∨ buf.length < UDP_PSEUDO_LEN + UDP_HDR_LEN then
      (.none, SYSERR)
    else
      let (sent, result) := udpSend net u buf.length buf
      (sent, if result = OK then buf.length else SYSERR)
  else if u.remotept = 0 ∨ u.remoteip.type = 0 then (.none, SYSERR)
  else udpWriteLoop net u buf.length 0 buf

/-! ## Input -/

structure Udps where
  order : ByteOrder
  nudp : Nat
  udptab : Nat → Udp
  readers : Nat → Option UdpReader
  -- threads that have been released from `isem` and have not run yet
  woken : Nat → List Nat
  -- how often each device has still to be signalled
  unsignalled : Nat → Nat
  -- the packets that have come into the ring of each device, and those that have been read from it
  arrived : Nat → List (Int → Byte)
  taken : Nat → List (Int → Byte)
  -- what a thread's last call has returned, and the bytes it has got
  returned : Nat → Int
  data : Nat → List Byte

inductive Match
  | no | dest | part | full
  deriving DecidableEq, Repr

def Match.rank : Match → Nat
  | .no => 0
  | .dest => 1
  | .part => 2
  | .full => 3

def udpDemuxLoop (udptab : Nat → Udp) (dstpt srcpt : Nat) (dstip srcip : Netaddr) :
    Nat → Nat → Match → Option Nat → Option Nat
  | 0, _, _, found => found
  | fuel + 1, i, best, found =>
      let u := udptab i
      if u.state = .free then udpDemuxLoop udptab dstpt srcpt dstip srcip fuel (i + 1) best found
      else if u.localip ≠ dstip then udpDemuxLoop udptab dstpt srcpt dstip srcip fuel (i + 1) best found
      else if best.rank < Match.full.rank ∧ u.localpt = dstpt ∧ u.remotept = srcpt ∧ u.remoteip = srcip then
        some i
      else
        let (best, found) :=
          if best.rank < Match.part.rank ∧ u.localpt = dstpt ∧ u.remotept = srcpt ∧ u.remoteip.type = 0 then
            (.part, some i) else (best, found)
        let (best, found) :=
          if best.rank < Match.dest.rank ∧ u.localpt = dstpt ∧ u.remotept = 0 ∧ u.remoteip.type = 0 then
            (.dest, some i) else (best, found)
        udpDemuxLoop udptab dstpt srcpt dstip srcip fuel (i + 1) best found

def udpDemux (s : Udps) (dstpt srcpt : Nat) (dstip srcip : Netaddr) : Option Nat :=
  udpDemuxLoop s.udptab dstpt srcpt dstip srcip s.nudp 0 .no none

namespace Udps

def setUdp (s : Udps) (i : Nat) (u : Udp) : Udps := { s with udptab := Function.update s.udptab i u }

def udpTarget (s : Udps) (pkt : Packet) (src dst : Netaddr) : Option Nat :=
  if udpChk s.order pkt.mem pkt.curr ≠ 0 ∧
      udpChksum s.order pkt.mem pkt.curr (net2hs s.order (udpLen s.order pkt.mem pkt.curr)) src dst ≠ 0 then
    none
  else
    let mem := hostHeader s.order pkt.mem pkt.curr
    match udpDemux s (udpDstPort s.order mem pkt.curr) (udpSrcPort s.order mem pkt.curr) dst src with
    | none => none
    | some i => if UDP_MAX_PKTS ≤ (s.udptab i).icount then none else some i

/-- The buffer that holds the packet: after `bzero`, the pseudo header and `len` bytes. -/
def udpBuffer (order : ByteOrder) (mem : Int → Byte) (curr : Int) (src dst : Netaddr) : Int → Byte :=
  let len := udpLen order mem curr
  store (pseudoHdr order (fun _ => 0) 0 len src dst) UDP_PSEUDO_LEN (load mem curr len)

/-- `udpRecv`, up to the signal. It does not get further while `bufget` waits for a buffer. -/
def udpRecv (s : Udps) (pkt : Packet) (src dst : Netaddr) : Option (Udps × Int) :=
  match s.udpTarget pkt src dst with
  | none => some (s, SYSERR)
  | some i =>
      let mem := hostHeader s.order pkt.mem pkt.curr
      let u := s.udptab i
      let u :=
        if u.bindfirst then
          { u with remotept := udpSrcPort s.order mem pkt.curr, localip := dst, remoteip := src
                   bindfirst := false }
        else u
      if u.inPool = 0 then none
      else
        let tpkt := udpBuffer s.order mem pkt.curr src dst
        let u :=
          { u with
            inPool := u.inPool - 1
            inb := Function.update u.inb ((u.istart + u.icount) % UDP_MAX_PKTS) tpkt
            icount := u.icount + 1 }
        some ({ s.setUdp i u with
            unsignalled := Function.update s.unsignalled i (s.unsignalled i + 1)
            arrived := Function.update s.arrived i (s.arrived i ++ [tpkt]) }, OK)

def signal (s : Udps) (i : Nat) : Udps :=
  let (isem, released) := (s.udptab i).isem.signal
  { s.setUdp i { s.udptab i with isem } with
    unsignalled := Function.update s.unsignalled i (s.unsignalled i - 1)
    woken := Function.update s.woken i (s.woken i ++ released.toList) }

def returns (s : Udps) (t : Nat) (result : Int) (data : List Byte) : Udps :=
  { s with
    readers := Function.update s.readers t none
    returned := Function.update s.returned t result
    data := Function.update s.data t data }

/-- How much of a packet `udpRead` copies, and from where in the buffer. -/
def readExtent (order : ByteOrder) (passive : Bool) (buffer : Int → Byte) (len : Nat) : Nat × Int :=
  let udplen := udpLen order buffer UDP_PSEUDO_LEN
  let (count, data) : Nat × Int :=
    if passive then (udplen + UDP_PSEUDO_LEN, 0) else (sub32 udplen UDP_HDR_LEN, UDP_PSEUDO_LEN + UDP_HDR_LEN)
  (if len < count then len else count, data)

def udpTake (s : Udps) (t : Nat) (reader : UdpReader) : Udps :=
  let i := reader.dev
  let u := s.udptab i
  if u.state ≠ .opened then s.returns t SYSERR []
  else
    let buffer := u.inb u.istart
    let (count, data) := readExtent s.order u.passive buffer reader.len
    let u := { u with istart := (u.istart + 1) % UDP_MAX_PKTS, icount := u.icount - 1, inPool := u.inPool + 1 }
    ({ s.setUdp i u with taken := Function.update s.taken i (s.taken i ++ [buffer]) }).returns t count
      (load buffer data count)

def udpRead (s : Udps) (t i len : Nat) : Udps :=
  let u := s.udptab i
  if u.state ≠ .opened then s.returns t SYSERR []
  else if u.noblock ∧ u.icount < 1 then s.returns t 0 []
  else
    match u.isem.wait t with
    | (isem, true) =>
        { s.setUdp i { u with isem } with readers := Function.update s.readers t (some ⟨i, len⟩) }
    | (isem, false) => (s.setUdp i { u with isem }).udpTake t ⟨i, len⟩

def resume (s : Udps) (t : Nat) : Udps :=
  match s.readers t with
  | none => s
  | some reader =>
      { s with woken := Function.update s.woken reader.dev ((s.woken reader.dev).erase t) }.udpTake t reader

/-! ## Runs -/

inductive Op
  | recv (pkt : Packet) (src dst : Netaddr)
  | signal (i : Nat)
  | read (t i len : Nat)
  | resume (t : Nat)

def step : Op → Udps → Option Udps
  | .recv pkt src dst, s => (s.udpRecv pkt src dst).map Prod.fst
  | .signal i, s => if 0 < s.unsignalled i then some (s.signal i) else none
  | .read t i len, s => if s.readers t = none then some (s.udpRead t i len) else none
  | .resume t, s => if ∃ reader, s.readers t = some reader ∧ t ∈ s.woken reader.dev then some (s.resume t) else none

end Udps

end Xinu
