import Xinu.System.Ipv4

/-!
# TCP input

`tcpRecv.c` up to the switch on the connection state, with `tcpChksum.c`, `tcpDemux.c` and
`tcpRecvOpts.c`, and what `netRecv.c` hands to `ipv4Recv`. `tcpRecvOpts` says which addresses it
reads.
-/

namespace Xinu
open Lib (Byte load store)

abbrev TCP_HDR_LEN : Nat := 20
abbrev TCP_PSEUDO_LEN : Nat := 12
abbrev TCP_OPT_END : Nat := 0
abbrev TCP_OPT_MSS : Nat := 2
abbrev TCP_OPT_MSS_LEN : Nat := 4

def offset2octets (x : Nat) : Nat := x / 16 * 4

/-- The packet of `netRecv`: a frame at the start of the buffer, with the link-level header behind. -/
def netRecv (net : Net) (nif len : Nat) (mem : Int → Byte) : Packet :=
  { nif, len, nethdr := 0, curr := (net.netiftab nif).linkhdrlen, mem }

/-- `pkt->len - (pkt->curr - pkt->linkhdr)`, in 16 bits. -/
def tcplen (pkt : Packet) : Nat := (((pkt.len : Int) - pkt.curr) % 2 ^ 16).toNat

def tcpSeglen (len offset : Nat) : Nat := (((len : Int) - offset2octets offset) % 2 ^ 16).toNat

def tcpChksum (order : ByteOrder) (mem : Int → Byte) (tcp : Int) (len : Nat) (src dst : Netaddr) : Nat :=
  let pseu := tcp - TCP_PSEUDO_LEN
  let mem := store mem pseu (src.addr.take 4)
  let mem := store mem (pseu + 4) (dst.addr.take 4)
  let mem := store mem (pseu + 8) [0, BitVec.ofNat 8 IPv4_PROTO_TCP]
  let mem := put16 order mem (pseu + 10) (hs2net order len)
  netChksum order mem pseu (len + TCP_PSEUDO_LEN)

def tcpChksumBuf (order : ByteOrder) (mem : Int → Byte) (tcp : Int) (len : Nat) (src dst : Netaddr) :
    Nat × (Int → Byte) :=
  let pseu := tcp - TCP_PSEUDO_LEN
  let buf := load mem pseu TCP_PSEUDO_LEN
  let mem := store mem pseu (src.addr.take 4)
  let mem := store mem (pseu + 4) (dst.addr.take 4)
  let mem := store mem (pseu + 8) [0, BitVec.ofNat 8 IPv4_PROTO_TCP]
  let mem := put16 order mem (pseu + 10) (hs2net order len)
  let sum := netChksum order mem pseu (len + TCP_PSEUDO_LEN)
  (sum, store mem pseu buf)

structure Socket where
  -- `state != TCP_CLOSED`
  isOpen : Bool
  localpt : Nat
  remotept : Nat
  localip : Netaddr
  remoteip : Netaddr

/-- How well a socket matches: fully, by its ports, or by its own port. -/
def matchLevel (dstpt srcpt : Nat) (dstip srcip : Netaddr) (level : Nat) (tcb : Socket) : Nat :=
  if ¬ tcb.isOpen then level
  else
    let level := if level < 3 ∧ tcb.localpt = dstpt ∧ tcb.remotept = srcpt ∧ tcb.localip = dstip ∧
      tcb.remoteip = srcip then 3 else level
    let level := if level < 2 ∧ tcb.localpt = dstpt ∧ tcb.remotept = srcpt ∧ tcb.localip = dstip ∧
      tcb.remoteip.type = 0 then 2 else level
    if level < 1 ∧ tcb.localpt = dstpt ∧ tcb.remotept = 0 ∧ tcb.localip = dstip ∧
      tcb.remoteip.type = 0 then 1 else level

def tcpDemuxFrom (dstpt srcpt : Nat) (dstip srcip : Netaddr) :
    Nat → Nat → Option Nat → List Socket → Option Nat
  | _, _, best, [] => best
  | i, level, best, tcb :: rest =>
      let level' := matchLevel dstpt srcpt dstip srcip level tcb
      tcpDemuxFrom dstpt srcpt dstip srcip (i + 1) level' (if level < level' then some i else best) rest

def tcpDemux (tcptab : List Socket) (dstpt srcpt : Nat) (dstip srcip : Netaddr) : Option Nat :=
  tcpDemuxFrom dstpt srcpt dstip srcip 0 0 none tcptab

/-- The loop of `tcpRecvOpts`: the segment size it leaves and the addresses it reads. -/
def optsLoop (mem : Int → Byte) (endopt : Int) : Nat → Int → Nat → Nat × List Int
  | 0, _, sndmss => (sndmss, [])
  | fuel + 1, options, sndmss =>
      if (mem options).toNat ≠ TCP_OPT_END ∧ options < endopt then
        if (mem options).toNat = TCP_OPT_MSS then
          -- the size is read with its low byte first
          let size := (mem (options + 2)).toNat + 256 * (mem (options + 3)).toNat
          let (sndmss, reads) := optsLoop mem endopt fuel (options + 4) ((size + 2 ^ 16 - TCP_HDR_LEN) % 2 ^ 16)
          (sndmss, options :: (options + 2) :: (options + 3) :: reads)
        else
          let (sndmss, reads) := optsLoop mem endopt fuel (options + 1) sndmss
          (sndmss, options :: reads)
      else (sndmss, [options])

def tcpRecvOpts (mem : Int → Byte) (tcp : Int) (offset sndmss : Nat) : Nat × List Int :=
  if offset2octets offset = TCP_HDR_LEN then (sndmss, [])
  else
    let options := tcp + TCP_HDR_LEN
    let endopt := options + ((offset2octets offset : Int) - TCP_HDR_LEN)
    optsLoop mem endopt (offset2octets offset + 1) options sndmss

inductive Taken
  | badChecksum
  -- `tcpSendRst`
  | noSocket
  | socket (i : Nat)
  deriving DecidableEq, Repr

def tcpRecv (order : ByteOrder) (tcptab : List Socket) (pkt : Packet) (src dst : Netaddr) : Taken :=
  if tcpChksum order pkt.mem pkt.curr (tcplen pkt) src dst ≠ 0 then .badChecksum
  else
    let srcpt := net2hs order (get16 order pkt.mem pkt.curr)
    let dstpt := net2hs order (get16 order pkt.mem (pkt.curr + 2))
    match tcpDemux tcptab dstpt srcpt dst src with
    | none => .noSocket
    | some i => .socket i

end Xinu
