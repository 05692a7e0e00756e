import Xinu.Lib.Bytes
import Xinu.Lib.Runs
import Xinu.System.Config

/-!
# TFTP

`tftpGet` and its thread `tftpRecvPackets`, with `send`, `receive` and `recvtime` between them. A
`Tftp` is both threads, their message slots, the packet buffer that they share and the UDP device that
the receive thread reads from: its ring, its remote end and its flag `UDP_FLAG_BINDFIRST`. The device
for the first request is bound to port 69 of the server. What `recvDataFunc` returns and whether a
write to the network succeeds are given.
-/

namespace Xinu
open Lib (Byte)

abbrev TFTP_OPCODE_DATA : Nat := 3
abbrev TFTP_OPCODE_ERROR : Nat := 5
abbrev TFTP_BLOCK_TIMEOUT : Nat := 10
abbrev TFTP_INIT_BLOCK_TIMEOUT : Nat := 1
abbrev TFTP_INIT_BLOCK_MAX_RETRIES : Nat := 10
abbrev TFTP_BLOCK_SIZE : Nat := 512
abbrev TFTP_MAX_PACKET_LEN : Nat := 516
abbrev TFTP_RING_PKTS : Nat := 100
abbrev UDP_PORT_TFTP : Nat := 69

namespace Tftp

structure Endpoint where
  ip : Nat
  port : Nat
  deriving DecidableEq, Repr

structure Datagram where
  source : Endpoint
  payload : List Byte
  deriving DecidableEq, Repr

/-- Where `tftpGet` is: at the top of its loop, between its go-ahead and `recvtime`, waiting there,
ready again after the timeout, behind it, or back. -/
inductive Parent
  | loop | sent | waiting | expired
  | got (retval : Int)
  | done (retval : Int)
  deriving DecidableEq, Repr

/-- Where `tftpRecvPackets` is: at `receive`, waiting there, in `read`, or behind it. -/
inductive Child
  | receive | blocked | reading
  | readDone (result : Int)
  deriving DecidableEq, Repr

end Tftp

open Tftp

structure Tftp where
  serverIp : Nat
  -- `tftpGet`
  pc : Parent
  numRreqsSent : Nat
  blockRecvTries : Nat
  nextBlockNumber : Nat
  blockMaxEndTime : Nat
  -- `send_udpdev == recv_udpdev`
  bound : Bool
  msg : Option Int
  -- `tftpRecvPackets`
  child : Child
  childMsg : Option Int
  -- the buffer, and the datagram that was read into it last
  pkt : Nat → Byte
  last : Option Datagram
  -- the device
  ring : List Datagram
  remote : Option Endpoint
  bindfirst : Bool
  clktime : Nat
  -- what has been passed to `recvDataFunc`, and the block numbers that have been acknowledged
  passed : List (List Byte)
  acks : List Nat

namespace Tftp

def start (serverIp clktime : Nat) : Tftp :=
  { serverIp, pc := .loop, numRreqsSent := 1, blockRecvTries := 0, nextBlockNumber := 1
    blockMaxEndTime := 0, bound := false, msg := none, child := .receive, childMsg := none
    pkt := fun _ => 0, last := none, ring := [], remote := none, bindfirst := true, clktime
    passed := [], acks := [] }

def deposit (slot : Option Int) (msg : Int) : Option Int := slot.or (some msg)

/-! ## `tftpGet` -/

def maxEndTime (s : Tftp) : Nat :=
  if s.blockRecvTries = 0 then
    s.clktime + (if s.nextBlockNumber = 1 then TFTP_INIT_BLOCK_TIMEOUT else TFTP_BLOCK_TIMEOUT)
  else s.blockMaxEndTime

def loopTop (s : Tftp) : Tftp :=
  let s := { s with blockMaxEndTime := s.maxEndTime }
  if s.clktime ≤ s.blockMaxEndTime then
    { s with blockRecvTries := s.blockRecvTries + 1, childMsg := deposit s.childMsg 0, pc := .sent }
  else { s with pc := .got TIMEOUT }

def recvtime (s : Tftp) : Tftp :=
  match s.msg with
  | some m => { s with msg := none, pc := .got m }
  | none => { s with pc := .waiting }

def wake (s : Tftp) : Tftp :=
  match s.msg with
  | some m => { s with msg := none, pc := .got m }
  | none => { s with pc := .got TIMEOUT }

def opcode (s : Tftp) : Nat := 256 * (s.pkt 0).toNat + (s.pkt 1).toNat
def recvBlockNumber (s : Tftp) : Nat := 256 * (s.pkt 2).toNat + (s.pkt 3).toNat
def wrongSource (s : Tftp) : Bool := s.remote.map Endpoint.ip ≠ some s.serverIp

/-- `(ushort)next_block_number - 1` is an `int`. -/
def unexpected (s : Tftp) : Bool :=
  s.recvBlockNumber ≠ s.nextBlockNumber % 2 ^ 16 ∧
    (s.nextBlockNumber = 1 ∨ (s.recvBlockNumber : Int) ≠ (s.nextBlockNumber % 2 ^ 16 : Nat) - 1)

def timedOut (s : Tftp) (sends : Bool) : Tftp :=
  if s.nextBlockNumber = 1 ∧ s.numRreqsSent < TFTP_INIT_BLOCK_MAX_RETRIES then
    if ¬ sends then { s with pc := .done SYSERR }
    else { s with blockRecvTries := 0, numRreqsSent := s.numRreqsSent + 1, pc := .loop }
  else { s with pc := .done SYSERR }

def reject (s : Tftp) (len : Int) : Tftp :=
  if ¬ s.wrongSource ∧ 2 ≤ len ∧ s.opcode = TFTP_OPCODE_ERROR then { s with pc := .done SYSERR }
  else if s.wrongSource ∧ s.nextBlockNumber = 1 then
    { s with remote := none, bindfirst := true, pc := .loop }
  else { s with pc := .loop }

def acknowledge (s : Tftp) (nbytes : Nat) (sends : Bool) : Tftp :=
  let s := if sends then { s with acks := s.acks ++ [s.recvBlockNumber] } else s
  if nbytes < TFTP_BLOCK_SIZE then { s with pc := .done OK }
  else if ¬ sends then { s with pc := .done SYSERR }
  else { s with pc := .loop }

def bindPort (s : Tftp) : Tftp := if s.nextBlockNumber = 1 then { s with bound := true } else s

def accept (s : Tftp) (len : Int) (callback : Int) (sends : Bool) : Tftp :=
  if s.recvBlockNumber = s.nextBlockNumber % 2 ^ 16 then
    let nbytes := (len - 4).toNat
    let s := { s with passed := s.passed ++ [(List.range nbytes).map fun i => s.pkt (4 + i)] }
    if callback ≠ OK then { s with pc := .done callback }
    else
      { s with nextBlockNumber := (s.nextBlockNumber + 1) % 2 ^ 32, blockRecvTries := 0 }.acknowledge
        nbytes sends
  else s.acknowledge TFTP_BLOCK_SIZE sends

def received (s : Tftp) (len : Int) (callback : Int) (sends : Bool) : Tftp :=
  if s.wrongSource ∨ len < 4 ∨ s.opcode ≠ TFTP_OPCODE_DATA ∨ s.unexpected then s.reject len
  else s.bindPort.accept len callback sends

def process (s : Tftp) (retval : Int) (callback : Int) (sends : Bool) : Tftp :=
  if retval = TIMEOUT then s.timedOut sends
  else if retval = SYSERR then { s with pc := .done SYSERR }
  else s.received retval callback sends

/-! ## `tftpRecvPackets` -/

def receive (s : Tftp) : Tftp :=
  match s.childMsg with
  | some _ => { s with childMsg := none, child := .reading }
  | none => { s with child := .blocked }

def read (s : Tftp) (d : Datagram) (rest : List Datagram) : Tftp :=
  let count := min d.payload.length TFTP_MAX_PACKET_LEN
  { s with
    pkt := fun i => if i < count then d.payload.getD i 0 else s.pkt i
    last := some d
    ring := rest
    child := .readDone count }

def sendResult (s : Tftp) (result : Int) : Tftp :=
  { s with msg := deposit s.msg result, child := .receive }

/-! ## The device -/

/-- A datagram for the client's port arrives. The device for the request takes those from port 69
of the server. -/
def arrive (s : Tftp) (d : Datagram) : Tftp :=
  if d.source = ⟨s.serverIp, UDP_PORT_TFTP⟩ then s
  else if s.remote.isSome ∧ s.remote ≠ some d.source then s
  else if TFTP_RING_PKTS ≤ s.ring.length then s
  else
    let s := if s.bindfirst then { s with remote := some d.source, bindfirst := false } else s
    { s with ring := s.ring ++ [d] }

/-! ## Runs -/

inductive Op
  -- `tftpGet`
  | loopTop | recvtime | timeout | wake
  | process (callback : Int) (sends : Bool)
  -- `tftpRecvPackets`
  | receive | read | sendResult
  -- the network, and time
  | arrive (d : Datagram)
  | tick
  deriving DecidableEq, Repr

def running (s : Tftp) : Bool :=
  match s.pc with
  | .done _ => false
  | _ => true

def step : Op → Tftp → Option Tftp
  | .loopTop, s => if s.pc = .loop then some s.loopTop else none
  | .recvtime, s => if s.pc = .sent then some s.recvtime else none
  | .timeout, s => if s.pc = .waiting ∧ s.msg = none then some { s with pc := .expired } else none
  | .wake, s =>
      if s.pc = .waiting ∧ s.msg ≠ none ∨ s.pc = .expired then some s.wake else none
  | .process callback sends, s =>
      match s.pc with
      | .got retval => some (s.process retval callback sends)
      | _ => none
  | .receive, s =>
      if s.running ∧ (s.child = .receive ∨ s.child = .blocked ∧ s.childMsg ≠ none) then some s.receive
      else none
  | .read, s =>
      match s.child, s.ring with
      | .reading, d :: rest => if s.running then some (s.read d rest) else none
      | _, _ => none
  | .sendResult, s =>
      match s.child with
      | .readDone result => if s.running then some (s.sendResult result) else none
      | _ => none
  | .arrive d, s => if s.running then some (s.arrive d) else none
  | .tick, s => some { s with clktime := s.clktime + 1 }

end Tftp

end Xinu
