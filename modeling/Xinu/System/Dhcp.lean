import Xinu.Lib.Runs
import Xinu.System.Udp

/-!
# The DHCP client

`dhcpClient`, `dhcpRecvReply` with its thread, and `dhcpSendRequest`. Frames are what `read` returns.
The random transaction id, the hardware address, and whether a frame is sent and the thread created
are given.
-/

namespace Xinu
open Lib (Byte)

abbrev UDP_PORT_DHCPS : Nat := 67
abbrev UDP_PORT_DHCPC : Nat := 68
abbrev DHCP_OP_REPLY : Nat := 2
abbrev DHCP_HDR_LEN : Nat := 240
abbrev DHCPDISCOVER : Nat := 1
abbrev DHCPOFFER : Nat := 2
abbrev DHCPREQUEST : Nat := 3
abbrev DHCPACK : Nat := 5
abbrev DHCPNAK : Nat := 6
abbrev DHCP_OPT_END : Nat := 255
abbrev DHCP_OPT_SUBNET : Nat := 1
abbrev DHCP_OPT_GATEWAY : Nat := 3
abbrev DHCP_OPT_MSGTYPE : Nat := 53
abbrev DHCP_OPT_SERVER : Nat := 54

namespace Dhcp

inductive State
  | init | selecting | requesting | bound
  deriving DecidableEq, Repr

/-- `struct dhcpData`. The addresses of the output are bytes in the order of the packet, and empty
until they are set. -/
structure Data where
  ip : List Byte
  gateway : List Byte
  mask : List Byte
  bootfile : List Byte
  nextServer : List Byte
  state : State
  cxid : Nat
  starttime : Nat
  recvStatus : Int
  discoverSecs : Nat
  offeredIpv4Addr : Nat
  clientIpv4Addr : Nat
  serverIpv4Addr : Nat
  clientHwAddr : List Byte
  serverHwAddr : List Byte
  deriving DecidableEq, Repr

def Data.zero : Data :=
  { ip := [], gateway := [], mask := [], bootfile := [], nextServer := [], state := .init, cxid := 0
    starttime := 0, recvStatus := 0, discoverSecs := 0, offeredIpv4Addr := 0, clientIpv4Addr := 0
    serverIpv4Addr := 0, clientHwAddr := List.replicate ETH_ADDR_LEN 0
    serverHwAddr := List.replicate ETH_ADDR_LEN 0 }

/-- A packet that the client sends: the fields and options of it that are not constant. -/
structure Message where
  msgtype : Nat
  xid : Nat
  secs : Nat
  ciaddr : Nat
  chaddr : List Byte
  -- `DHCP_OPT_REQUEST` and `DHCP_OPT_SERVER`
  request : Option Nat
  server : Option Nat
  deriving DecidableEq, Repr

/-- Where `dhcpClient` is: at the top of its loop, in `recvtime`, behind `dhcpRecvReply`, or back. -/
inductive Point
  | loop | receiving
  | received (retval : Int)
  | back (retval : Int)
  deriving DecidableEq, Repr

/-! ## Frames -/

abbrev DHCP_AT : Nat := ETH_HDR_LEN + IPv4_HDR_LEN + UDP_HDR_LEN
abbrev OPTS_AT : Nat := DHCP_AT + DHCP_HDR_LEN

def u8 (frame : List Byte) (i : Nat) : Nat := (frame.getD i 0).toNat
def u16 (frame : List Byte) (i : Nat) : Nat := 256 * u8 frame i + u8 frame (i + 1)
def u32 (frame : List Byte) (i : Nat) : Nat := 65536 * u16 frame i + u16 frame (i + 2)
def bytes (frame : List Byte) (i n : Nat) : List Byte := (frame.drop i).take n

def xid (frame : List Byte) : Nat := u32 frame (DHCP_AT + 4)
def yiaddr (frame : List Byte) : List Byte := bytes frame (DHCP_AT + 16) 4
def siaddr (frame : List Byte) : Nat := u32 frame (DHCP_AT + 20)

/-- A DHCP reply in an IPv4 packet from the port of servers to that of clients. -/
def isReply (frame : List Byte) : Bool :=
  OPTS_AT ≤ frame.length ∧ u16 frame 12 = ETHER_TYPE_IPv4 ∧ u8 frame (ETH_HDR_LEN + 9) = IPv4_PROTO_UDP ∧
    u16 frame (ETH_HDR_LEN + IPv4_HDR_LEN + 2) = UDP_PORT_DHCPC ∧
    u16 frame (ETH_HDR_LEN + IPv4_HDR_LEN) = UDP_PORT_DHCPS ∧ u8 frame DHCP_AT = DHCP_OP_REPLY

/-! ## Options -/

structure Options where
  found_msg : Option Nat
  mask : Option (List Byte)
  gateway : Option (List Byte)
  serverIpv4Addr : Nat

def Options.none : Options := { found_msg := .none, mask := .none, gateway := .none, serverIpv4Addr := 0 }

def State.awaits (state : State) (msg : Nat) : Bool :=
  state = .selecting ∧ msg = DHCPOFFER ∨ state = .requesting ∧ (msg = DHCPACK ∨ msg = DHCPNAK)

def Options.take (state : State) (o : Options) (opt : Nat) (data : List Byte) : Options :=
  if opt = DHCP_OPT_MSGTYPE then
    if 1 ≤ data.length ∧ state.awaits (u8 data 0) then { o with found_msg := some (u8 data 0) } else o
  else if opt = DHCP_OPT_SUBNET then
    if IPv4_ADDR_LEN ≤ data.length then { o with mask := some (bytes data 0 IPv4_ADDR_LEN) } else o
  else if opt = DHCP_OPT_GATEWAY then
    if IPv4_ADDR_LEN ≤ data.length then { o with gateway := some (bytes data 0 IPv4_ADDR_LEN) } else o
  else if opt = DHCP_OPT_SERVER then
    if IPv4_ADDR_LEN ≤ data.length then { o with serverIpv4Addr := u32 data 0 } else o
  else o

/-- The loop over the options, of at most as many rounds as there are bytes. -/
def options (state : State) : Nat → List Byte → Options → Option Options
  | 0, _, _ => .none
  | _ + 1, [], _ => .none
  | n + 1, opt :: rest, o =>
      if opt.toNat = DHCP_OPT_END then some o
      else
        match rest with
        | [] => .none
        | len :: rest =>
            if rest.length ≤ len.toNat then .none
            else options state n (rest.drop len.toNat) (o.take state opt.toNat (rest.take len.toNat))

def dataReads (opt len opts : Nat) : List Nat :=
  if opt = DHCP_OPT_MSGTYPE then (if 1 ≤ len then [opts] else [])
  else if opt = DHCP_OPT_SUBNET ∨ opt = DHCP_OPT_GATEWAY ∨ opt = DHCP_OPT_SERVER then
    if IPv4_ADDR_LEN ≤ len then [opts, opts + 1, opts + 2, opts + 3] else []
  else []

def optionsAt (state : State) (frame : List Byte) : Nat → Nat → Options → Option Options × List Nat
  | 0, _, _ => (.none, [])
  | n + 1, opts, o =>
      if frame.length ≤ opts then (.none, [])
      else if u8 frame opts = DHCP_OPT_END then (some o, [opts])
      else if frame.length ≤ opts + 1 then (.none, [opts])
      else
        let len := u8 frame (opts + 1)
        if frame.length ≤ opts + 2 + len then (.none, [opts, opts + 1])
        else
          let after := optionsAt state frame n (opts + 2 + len) (o.take state (u8 frame opts) (bytes frame (opts + 2) len))
          (after.1, opts :: (opts + 1) :: dataReads (u8 frame opts) len (opts + 2) ++ after.2)

/-! ## Replies -/

structure Reply where
  msg : Nat
  options : Options
  server : Nat

def Data.reply (data : Data) (frame : List Byte) : Option Reply :=
  if ¬ isReply frame ∨ data.cxid ≠ xid frame then none
  else
    match options data.state (frame.length - OPTS_AT) (frame.drop OPTS_AT) Options.none with
    | none => none
    | some o =>
        match o.found_msg with
        | none => none
        | some msg =>
            if msg = DHCPACK ∧ o.mask = .none then none
            else
              let server := if o.serverIpv4Addr = 0 then siaddr frame else o.serverIpv4Addr
              if server = 0 then none
              else if msg ≠ DHCPOFFER ∧ server ≠ data.serverIpv4Addr then none
              else some { msg, options := o, server }

/-- What it then writes, in this order. It can be killed in between. -/
def Reply.writes (reply : Reply) (frame : List Byte) : List (Data → Data) :=
  if reply.msg = DHCPOFFER then
    [fun data => { data with serverIpv4Addr := reply.server },
      fun data => { data with offeredIpv4Addr := u32 frame (DHCP_AT + 16) },
      fun data => { data with serverHwAddr := bytes frame 6 ETH_ADDR_LEN },
      fun data => { data with recvStatus := OK }]
  else if reply.msg = DHCPNAK then [fun data => { data with recvStatus := SYSERR }]
  else
    [fun data => { data with ip := yiaddr frame },
      fun data => { data with clientIpv4Addr := u32 frame (DHCP_AT + 16) },
      fun data => { data with mask := reply.options.mask.getD data.mask },
      fun data => { data with gateway := reply.options.gateway.getD data.gateway },
      fun data => if siaddr frame ≠ 0 then { data with nextServer := bytes frame (DHCP_AT + 20) 4 } else data,
      fun data =>
        if u8 frame (DHCP_AT + 108) ≠ 0 then { data with bootfile := bytes frame (DHCP_AT + 108) 127 } else data,
      fun data => { data with recvStatus := OK }]

def Data.write (data : Data) (writes : List (Data → Data)) : Data := writes.foldl (fun data f => f data) data

end Dhcp

open Dhcp

structure Dhcp where
  data : Dhcp.Data
  pc : Dhcp.Point
  starttime : Nat
  timeout : Nat
  clktime : Nat
  -- what has been sent, and the frames that have been read
  sent : List Message
  frames : List (List Byte)

namespace Dhcp

def start (timeout clktime : Nat) : Dhcp :=
  { data := Data.zero, pc := .loop, starttime := clktime, timeout, clktime, sent := [], frames := [] }

/-! ## `dhcpSendRequest` -/

def message (s : Dhcp) : Option Message :=
  let data := s.data
  match data.state with
  | .init =>
      some { msgtype := DHCPDISCOVER, xid := data.cxid, secs := (s.clktime - data.starttime) % 2 ^ 16,
             ciaddr := data.clientIpv4Addr, chaddr := data.clientHwAddr, request := none, server := none }
  | .selecting =>
      some { msgtype := DHCPREQUEST, xid := data.cxid, secs := data.discoverSecs,
             ciaddr := data.clientIpv4Addr, chaddr := data.clientHwAddr
             request := some data.offeredIpv4Addr, server := some data.serverIpv4Addr }
  | _ => none

def dhcpSendRequest (s : Dhcp) (sends : Bool) : Dhcp × Int :=
  match s.message with
  | none => (s, SYSERR)
  | some m =>
      let s := if s.data.state = .init then { s with data := { s.data with discoverSecs := m.secs } } else s
      if sends then ({ s with sent := s.sent ++ [m] }, OK) else (s, SYSERR)

/-! ## `dhcpClient` -/

def setState (s : Dhcp) (state : State) (pc : Point) : Dhcp := { s with data := { s.data with state }, pc }

def discover (s : Dhcp) (hwaddr : Option (List Byte)) (xid : Nat) (sends : Bool) : Dhcp :=
  let s :=
    { s with
      data := { s.data with cxid := xid, starttime := s.clktime, clientIpv4Addr := 0, serverIpv4Addr := 0 } }
  match hwaddr with
  | none => { s with pc := .back SYSERR }
  | some hwaddr =>
      let s :=
        { s with
          data := { s.data with clientHwAddr := hwaddr, serverHwAddr := List.replicate ETH_ADDR_LEN 0 } }
      let (s, retval) := s.dhcpSendRequest sends
      if retval = OK then s.setState .selecting .loop else { s with pc := .back SYSERR }

/-- From the top of the loop to `recvtime`, or to the end of the iteration. -/
def iterate (s : Dhcp) (hwaddr : Option (List Byte)) (xid : Nat) (sends creates : Bool) : Dhcp :=
  if s.clktime ≤ s.starttime + s.timeout then
    match s.data.state with
    | .init => s.discover hwaddr xid sends
    | .selecting | .requesting => { s with pc := if creates then .receiving else .received SYSERR }
    | .bound => s
  else { s with pc := .back TIMEOUT }

def handle (s : Dhcp) (retval : Int) (sends : Bool) : Dhcp :=
  match s.data.state with
  | .selecting =>
      if retval ≠ OK then s.setState .init .loop
      else
        let (s, retval) := s.dhcpSendRequest sends
        s.setState (if retval = OK then .requesting else .init) .loop
  | .requesting =>
      if retval = OK then s.setState .bound (.back OK) else s.setState .init .loop
  | _ => { s with pc := .loop }

/-! ## `dhcpRecvReply` -/

/-- The thread reads a frame. It ends if the frame is for it. -/
def receive (s : Dhcp) (frame : List Byte) : Dhcp :=
  let s := { s with frames := s.frames ++ [frame] }
  match s.data.reply frame with
  | none => s
  | some reply =>
      let data := s.data.write (reply.writes frame)
      { s with data, pc := .received data.recvStatus }

/-- The thread is killed after the timeout, when it has made some of the writes for a frame. -/
def interrupt (s : Dhcp) (frame : List Byte) (n : Nat) : Dhcp :=
  let s := { s with frames := s.frames ++ [frame], pc := .received TIMEOUT }
  match s.data.reply frame with
  | none => s
  | some reply => { s with data := s.data.write ((reply.writes frame).take n) }

/-! ## Runs -/

inductive Op
  | iterate (hwaddr : Option (List Byte)) (xid : Nat) (sends creates : Bool)
  | handle (sends : Bool)
  | receive (frame : List Byte)
  -- `read` fails
  | fail
  | timeout
  | interrupt (frame : List Byte) (n : Nat)
  | tick
  deriving DecidableEq

def step : Op → Dhcp → Option Dhcp
  | .iterate hwaddr xid sends creates, s =>
      if s.pc = .loop then some (s.iterate hwaddr xid sends creates) else none
  | .handle sends, s =>
      match s.pc with
      | .received retval => some (s.handle retval sends)
      | _ => none
  | .receive frame, s => if s.pc = .receiving then some (s.receive frame) else none
  | .fail, s =>
      if s.pc = .receiving then some { s with data := { s.data with recvStatus := SYSERR }, pc := .received SYSERR }
      else none
  | .timeout, s => if s.pc = .receiving then some { s with pc := .received TIMEOUT } else none
  | .interrupt frame n, s => if s.pc = .receiving then some (s.interrupt frame n) else none
  | .tick, s => some { s with clktime := s.clktime + 1 }

end Dhcp

end Xinu
