import Xinu.System.Tcp

/-!
# TCP output

The packet that `tcpSend.c` builds in a buffer from `netGetbuf.c` and hands to `ipv4Send`. Address 0 is
the first octet of the buffer's `data`; the fields of `struct packet` lie before it.
-/

namespace Xinu.Tcp
open Lib (Byte store)

abbrev TCP_CTRL_SYN : Nat := 2
abbrev TCP_CTRL_FIN : Nat := 1
abbrev TCP_OPT_MSS_SIZE : Nat := 6

abbrev PACKET_SIZE : Nat := 24
abbrev PACKET_DATA : Nat := 22

def octets2offset (x : Nat) : Nat := x / 4 * 16

/-- The buffer held `held` before `bzero`. -/
def netGetbuf (held : Int → Byte) : Packet :=
  { nif := 0, len := 0, nethdr := 0, curr := NET_MAX_PKTLEN
    mem := store held (-PACKET_DATA) (List.replicate (PACKET_SIZE + NET_MAX_PKTLEN) 0) }

def putSeq (mem : Int → Byte) (a : Int) (v : Nat) : Int → Byte :=
  store mem a [BitVec.ofNat 8 (v / 2 ^ 24), BitVec.ofNat 8 (v / 2 ^ 16), BitVec.ofNat 8 (v / 2 ^ 8),
    BitVec.ofNat 8 v]

def putMss (order : ByteOrder) (mem : Int → Byte) (data : Int) (rcvmss : Nat) : (Int → Byte) × Int :=
  let mem := store mem data [BitVec.ofNat 8 TCP_OPT_MSS, BitVec.ofNat 8 TCP_OPT_MSS_LEN]
  let mem := put16 order mem (data + 2) (hs2net order ((rcvmss + TCP_HDR_LEN) % 2 ^ 16))
  -- `data` moves on by the length of the whole option, and the loop that pads does not run
  let data := data + 2 + TCP_OPT_MSS_LEN
  let mem := store mem data (List.replicate (TCP_OPT_MSS_LEN % 4 - 1) 1)
  let data := data + (TCP_OPT_MSS_LEN % 4 - 1 : Nat)
  (store mem data [BitVec.ofNat 8 TCP_OPT_END], data + 1)

def putHeader (order : ByteOrder) (mem : Int → Byte) (tcp : Int)
    (srcpt dstpt seqnum acknum offset ctrl window : Nat) : Int → Byte :=
  let mem := put16 order mem tcp (hs2net order srcpt)
  let mem := put16 order mem (tcp + 2) (hs2net order dstpt)
  let mem := putSeq mem (tcp + 4) seqnum
  let mem := putSeq mem (tcp + 8) acknum
  let mem := store mem (tcp + 12) [BitVec.ofNat 8 offset, BitVec.ofNat 8 ctrl]
  let mem := put16 order mem (tcp + 14) (hs2net order window)
  put16 order mem (tcp + 18) (hs2net order (get16 order mem (tcp + 18)))

/-- Building the segment of `tcplen` octets in a buffer, with `msslen` octets of options. -/
def buildSegment (order : ByteOrder) (sock : Socket) (t : Tcb)
    (ctrl seqnum acknum datastart datalen msslen tcplen : Nat) (pkt : Packet) : Packet :=
  let tcp := pkt.curr - ((tcplen + 7) / 8 * 8 : Nat)
  let window := (tcpSendWindow t).1
  let options := tcp + TCP_HDR_LEN
  let (mem, data) := if msslen = 0 then (pkt.mem, options) else putMss order pkt.mem options t.rcvmss
  let mem := store mem data ((List.range datalen).map fun i => t.out ((datastart + i) % TCP_OBLEN))
  let mem := putHeader order mem tcp sock.localpt sock.remotept seqnum acknum
    (octets2offset (TCP_HDR_LEN + msslen)) ctrl window
  let mem := put16 order mem (tcp + 16) (tcpChksum order mem tcp tcplen sock.localip sock.remoteip)
  { pkt with len := tcplen, curr := tcp, mem }

def tcpSendPkt (order : ByteOrder) (held : Int → Byte) (sock : Socket) (t : Tcb)
    (ctrl seqnum acknum datastart datalen : Nat) : Option Packet :=
  let syn := ctrl &&& TCP_CTRL_SYN ≠ 0
  let fin := ctrl &&& TCP_CTRL_FIN ≠ 0
  let datalen := if syn then (datalen + 2 ^ 16 - 1) % 2 ^ 16 else datalen
  let msslen := if syn then (3 + TCP_OPT_MSS_SIZE) / 4 * 4 else 0
  let datalen := if fin then (datalen + 2 ^ 16 - 1) % 2 ^ 16 else datalen
  let tcplen := (TCP_HDR_LEN + datalen + msslen) % 2 ^ 16
  if NET_MAX_PKTLEN < tcplen then none
  else some (buildSegment order sock t ctrl seqnum acknum datastart datalen msslen tcplen (netGetbuf held))

end Xinu.Tcp
