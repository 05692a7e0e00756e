import Xinu.System.TcpInput
import Xinu.System.TcpTimer

/-!
# TCP connections

The functions of `device/tcp` on one transmission control block. A connection is its TCB, the timer
queue and what has been done so far: the segments sent, the octets stored in the input buffer and
handed to readers, and those taken from writers. `tcpRead` and `tcpWrite` are one pass of their loops.
Whether `netGetbuf` finds a buffer is given. `TCP_FAKEACK` and `TCP_GRACIOUSACK` are not set.
-/

namespace Xinu.Tcp
open Lib (Byte)

/-! ## Sequence numbers -/

abbrev TCP_MAXSEQ : Nat := 0xFFFFFFFF

/-- `((int)(a) - (int)(b)) < 0`, which wraps. -/
def seqlt (a b : Nat) : Bool := 2 ^ 31 ≤ (a + 2 ^ 32 - b) % 2 ^ 32
def seqlte (a b : Nat) : Bool := (a + 2 ^ 32 - b) % 2 ^ 32 = 0 ∨ 2 ^ 31 ≤ (a + 2 ^ 32 - b) % 2 ^ 32
def seqadd (a b : Nat) : Nat := (a + b) % 2 ^ 32 % TCP_MAXSEQ

def tcpSeqdiff (first second : Nat) : Nat :=
  if first < TCP_MAXSEQ / 2 ∧ TCP_MAXSEQ / 2 < second then (TCP_MAXSEQ - first + second) % 2 ^ 32
  else if second < TCP_MAXSEQ / 2 ∧ TCP_MAXSEQ / 2 < first then (TCP_MAXSEQ - first + second) % 2 ^ 32
  else (first + 2 ^ 32 - second) % 2 ^ 32

/-! ## Data -/

abbrev TCP_IBLEN : Nat := 16384
abbrev TCP_OBLEN : Nat := 16384
abbrev TCP_INIT_MSS : Nat := 1440 + TCP_HDR_LEN
abbrev TCP_INIT_WND : Nat := TCP_INIT_MSS
abbrev TCP_MAX_WND : Nat := 65535
abbrev TCP_PASSIVE : Nat := 0
abbrev TCP_ACTIVE : Nat := 1
abbrev TCP_TWOMSL : Int := 5 * 1000
abbrev TCP_PST_INITTIME : Int := 3 * 1000
abbrev TCP_PST_MAXTIME : Int := 64 * 1000
abbrev TCP_RXT_MAXCOUNT : Nat := 10
abbrev TCP_RXT_INITTIME : Int := 500
abbrev TCP_RXT_MINTIME : Int := 100
abbrev TCP_RXT_MAXTIME : Int := 32 * 1000
abbrev TCP_ERR_RESET : Int := -2
abbrev TCP_ERR_CLOSING : Int := -4
abbrev TCP_ERR_NOCONN : Int := -5
abbrev TCP_ERR_NOSPEC : Int := -6

inductive State
  | closed | listen | synsent | synrecv | estab | finwt1 | finwt2 | closewt | closing | lastack | timewt
  deriving DecidableEq, Repr

structure Tcb where
  state : State
  -- `opentype == TCP_PASSIVE`
  passive : Bool
  -- the local and the foreign socket are specified
  localSet : Bool
  foreignSet : Bool
  openclose : Int
  rcvnxt : Nat
  rcvwnd : Nat
  rcvfin : Nat
  rcvmss : Nat
  -- `rcvflg`
  rcvSyn : Bool
  rcvFin : Bool
  readers : Int
  istart : Nat
  icount : Nat
  inxt : Nat
  inb : Nat → Byte
  imark : Nat → Bool
  ibytes : Nat
  snduna : Nat
  sndnxt : Nat
  sndwnd : Nat
  sndcwn : Nat
  sndsst : Nat
  sndwl1 : Nat
  sndwl2 : Nat
  iss : Nat
  sndfin : Nat
  sndmss : Nat
  -- `sndflg`
  sndSyn : Bool
  sndFin : Bool
  sndAck : Bool
  sndData : Bool
  sndRst : Bool
  persist : Bool
  sndrtt : Int
  sndrtd : Int
  rxttime : Int
  rxtcount : Nat
  psttime : Int
  writers : Int
  ostart : Nat
  ocount : Nat
  out : Nat → Byte
  obytes : Nat

def Tcb.zero : Tcb :=
  { state := .closed, passive := true, localSet := false, foreignSet := false, openclose := 0
    rcvnxt := 0, rcvwnd := 0, rcvfin := 0, rcvmss := 0, rcvSyn := false, rcvFin := false
    readers := 0, istart := 0, icount := 0, inxt := 0, inb := fun _ => 0, imark := fun _ => false
    ibytes := 0, snduna := 0, sndnxt := 0, sndwnd := 0, sndcwn := 0, sndsst := 0, sndwl1 := 0
    sndwl2 := 0, iss := 0, sndfin := 0, sndmss := 0, sndSyn := false, sndFin := false
    sndAck := false, sndData := false, sndRst := false, persist := false, sndrtt := 0, sndrtd := 0
    rxttime := 0, rxtcount := 0, psttime := 0, writers := 0, ostart := 0, ocount := 0
    out := fun _ => 0, obytes := 0 }

/-- A segment that arrives: `len` octets of data from `data 0` on. `mss` is what its options leave in
`sndmss`. -/
structure Segment where
  seqnum : Nat
  acknum : Nat
  window : Nat
  syn : Bool
  ack : Bool
  fin : Bool
  rst : Bool
  len : Nat
  data : Int → Byte
  mss : Option Nat
  -- in the domain of the header fields
  seqnum_lt : seqnum < 2 ^ 32 := by decide
  acknum_lt : acknum < 2 ^ 32 := by decide
  window_lt : window < 2 ^ 16 := by decide
  len_lt : len + TCP_HDR_LEN < 2 ^ 16 := by decide
  mss_lt : mss.getD 0 < 2 ^ 16 := by decide

structure Sent where
  syn : Bool
  ack : Bool
  fin : Bool
  seqnum : Nat
  acknum : Nat
  window : Nat
  data : List Byte
  deriving DecidableEq, Repr

structure Env where
  ntcp : Nat
  -- the index of the TCB
  tcb : Nat
  -- whether the nth packet finds a buffer
  getbuf : Nat → Bool

structure Conn where
  tcb : Tcb
  timers : Timers
  packets : Nat
  sent : List Sent
  -- sequence number and place of each octet put in the input buffer
  stored : List (Nat × Nat)
  handed : List Byte
  written : List Byte

namespace Conn

def set (c : Conn) (tcb : Tcb) : Conn := { c with tcb }

def sched (env : Env) (c : Conn) (time : Int) (type : Nat) : Conn :=
  { c with timers := (c.timers.tcpTimerSched env.ntcp time env.tcb type).1 }

def purge (env : Env) (c : Conn) (type : Nat) : Conn :=
  { c with timers := (c.timers.tcpTimerPurge env.ntcp env.tcb type).1 }

end Conn

def tcpTimerRemain (env : Env) (c : Conn) (type : Nat) : Int :=
  c.timers.remainFor env.tcb type (Timers.walkLimit env.ntcp) (c.timers.tab TCP_EVT_HEAD).next 0

/-! ## Sending -/

def tcpSendWindow (t : Tcb) : Nat × Tcb :=
  let window := (TCP_IBLEN + 2 ^ 32 - t.icount) % 2 ^ 16
  match t.state with
  | .closed => (0, t)
  | .listen | .synsent | .synrecv => (window, { t with rcvwnd := seqadd t.rcvnxt window })
  | _ =>
      let unused := tcpSeqdiff t.rcvwnd t.rcvnxt % 2 ^ 16
      let window := if window * 4 < TCP_IBLEN ∨ window < t.rcvmss then 0 else window
      if unused < window then (window, { t with rcvwnd := seqadd t.rcvnxt window }) else (unused, t)

/-- `datalen` counts the SYN and the FIN. -/
def tcpSend (env : Env) (c : Conn) (syn ack fin : Bool) (seqnum acknum datastart datalen : Nat) :
    Conn × Int :=
  let datalen := (datalen + 2 ^ 16 - syn.toNat - fin.toNat) % 2 ^ 16
  let msslen := if syn then 8 else 0
  if NET_MAX_PKTLEN < (TCP_HDR_LEN + datalen + msslen) % 2 ^ 16 then (c, SYSERR)
  else if ¬ env.getbuf c.packets then ({ c with packets := c.packets + 1 }, SYSERR)
  else
    let (window, t) := tcpSendWindow c.tcb
    let data := (List.range datalen).map fun i => t.out ((datastart + i) % TCP_OBLEN)
    let segment : Sent := ⟨syn, ack, fin, seqnum, acknum, window, data⟩
    ({ c with tcb := t, packets := c.packets + 1, sent := c.sent ++ [segment] }, OK)

def tcpSendAck (env : Env) (c : Conn) : Conn :=
  let c := c.set { c.tcb with sndAck := false }
  (tcpSend env c false true false c.tcb.sndnxt c.tcb.rcvnxt 0 0).1

def tcpSendSyn (env : Env) (c : Conn) : Conn × Int :=
  let ack := c.tcb.sndAck
  let c := c.set { c.tcb with sndAck := false }
  match tcpSend env c true ack false c.tcb.sndnxt c.tcb.rcvnxt 0 1 with
  | (c, result) =>
      if result = SYSERR then (c, SYSERR)
      else
        let c := c.set { c.tcb with sndnxt := (c.tcb.sndnxt + 1) % 2 ^ 32, sndSyn := true }
        ({ c with timers := (c.timers.tcpTimerSched env.ntcp c.tcb.rxttime env.tcb TCP_EVT_RXT).1 },
          (c.timers.tcpTimerSched env.ntcp c.tcb.rxttime env.tcb TCP_EVT_RXT).2)

/-- Send as many maximum size segments as possible: what is left to send and the window used. -/
def sendFull (env : Env) : Nat → Conn → Nat → Nat → Conn × Nat × Nat
  | 0, c, tosend, wndused => (c, tosend, wndused)
  | fuel + 1, c, tosend, wndused =>
      if c.tcb.sndmss < tosend then
        let c := (tcpSend env c false true false c.tcb.sndnxt c.tcb.rcvnxt
          ((c.tcb.ostart + wndused) % TCP_OBLEN) c.tcb.sndmss).1
        let mss := c.tcb.sndmss
        let c := c.set { c.tcb with sndnxt := seqadd c.tcb.sndnxt mss }
        sendFull env fuel c (tosend - mss) (wndused + mss)
      else (c, tosend, wndused)

def tcpSendData (env : Env) (c : Conn) : Conn :=
  let t := c.tcb
  if t.sndmss = 0 then c
  else if t.sndFin ∧ seqlt t.sndfin t.sndnxt then c
  else if 0 < t.rxtcount ∨ t.persist then c
  else if t.sndwnd = 0 then
    (c.set { t with persist := true, psttime := TCP_PST_INITTIME }).sched env TCP_PST_INITTIME TCP_EVT_PERSIST
  else if seqlte (seqadd t.snduna t.sndwnd) t.sndnxt then c
  else
    let pending := t.ocount + t.sndFin.toNat
    let wndused := tcpSeqdiff t.sndnxt t.snduna
    if pending = wndused then
      if seqlt t.snduna t.sndnxt ∧ tcpTimerRemain env c TCP_EVT_RXT ≤ 0 then
        c.sched env t.rxttime TCP_EVT_RXT
      else c
    else
      let tosend := if t.sndwnd < pending then sub32 t.sndwnd wndused else sub32 pending wndused
      let fin := if t.sndwnd < pending then false else t.sndFin
      let (c, rest, wndused) := sendFull env tosend c tosend wndused
      let c := (tcpSend env c false true fin c.tcb.sndnxt c.tcb.rcvnxt
        ((c.tcb.ostart + wndused) % TCP_OBLEN) rest).1
      let c := c.set { c.tcb with sndnxt := seqadd c.tcb.sndnxt rest }
      let c := if tcpTimerRemain env c TCP_EVT_RXT ≤ 0 then c.sched env c.tcb.rxttime TCP_EVT_RXT else c
      let c := if 0 < tosend then c.set { c.tcb with sndAck := false } else c
      c.set { c.tcb with sndData := false }

/-! ## Closing -/

/-- `bzero` clears the TCB; its timer events go with it. -/
def tcpFree (env : Env) (c : Conn) : Conn :=
  if c.tcb.state = .closed then c else (c.purge env 0).set Tcb.zero

def signalWaiting (count : Int) : Int := if count < 0 then 0 else count

def tcpClose (env : Env) (c : Conn) : Conn :=
  let t := c.tcb
  let closing : Tcb :=
    { t with sndfin := seqadd t.snduna t.ocount, sndFin := true }
  let sendData := fun c : Conn => if c.tcb.sndData then tcpSendData env c else c
  match t.state with
  | .closed => c
  | .listen | .synsent => sendData (tcpFree env c)
  | .synrecv =>
      if t.ocount = 0 then sendData (c.set { closing with sndData := true, state := .finwt1 })
      else sendData (c.set closing)
  | .estab => sendData (c.set { closing with sndData := true, state := .finwt1 })
  | .closewt => sendData (c.set { closing with sndData := true, state := .lastack })
  | .finwt1 | .finwt2 | .closing | .lastack | .timewt => c

/-! ## Receiving -/

/-- What it changes in a segment that it does not accept is not looked at again. -/
def tcpRecvValid (t : Tcb) (seg : Segment) : Bool :=
  let seglen := (seg.len + seg.syn.toNat + seg.fin.toNat) % 2 ^ 16
  let availwnd := tcpSeqdiff t.rcvwnd t.rcvnxt
  let inside := fun seq => seqlte t.rcvnxt seq && seqlt seq t.rcvwnd
  if seglen = 0 then
    if availwnd = 0 then seg.seqnum = t.rcvnxt else inside seg.seqnum
  else if availwnd = 0 then false
  else inside seg.seqnum || inside (seqadd seg.seqnum (seglen - 1))

def measure (t : Tcb) (rtt : Int) : Tcb :=
  if rtt ≠ SYSERR ∧ t.rxtcount = 0 then
    let sndrtt := if t.sndrtt = 0 then int32 (rtt * 8) else t.sndrtt
    let delta := int32 (rtt - sndrtt / 8)
    let sndrtt := int32 (sndrtt + delta)
    let sndrtd := int32 (t.sndrtd + (int32 delta.natAbs - t.sndrtd / 4))
    { t with sndrtt, sndrtd, rxttime := max TCP_RXT_MINTIME (int32 (sndrtt / 4 + sndrtd) / 2) }
  else t

/-- A division by zero is undefined. -/
def tcpRecvRtt (env : Env) (c : Conn) : Conn :=
  let (timers, rtt) := c.timers.tcpTimerPurge env.ntcp env.tcb TCP_EVT_RXT
  let t := measure c.tcb rtt
  let sndcwn :=
    if t.sndcwn < t.sndsst then t.sndcwn + t.sndmss else t.sndcwn + t.sndmss * t.sndmss / t.sndcwn
  { c with timers, tcb := { t with sndcwn := sndcwn % 2 ^ 32 } }

def tcpRecvAcked (env : Env) (c : Conn) (seg : Segment) : Conn :=
  let t := c.tcb
  if seqlt t.snduna seg.acknum ∧ seqlte seg.acknum t.sndnxt then
    let amt := tcpSeqdiff seg.acknum t.snduna
    let amt := if t.sndSyn ∧ t.snduna = t.iss then sub32 amt 1 else amt
    let amt := if t.sndFin ∧ seqlt t.sndfin seg.acknum then sub32 amt 1 else amt
    let ocount := sub32 t.ocount amt
    let t :=
      { t with
        ostart := (t.ostart + amt) % 2 ^ 32 % TCP_OBLEN
        ocount
        obytes := t.obytes + amt
        writers := if ocount < TCP_OBLEN then t.writers + 1 else t.writers
        snduna := seg.acknum
        rxtcount := 0 }
    let c := tcpRecvRtt env (c.set t)
    let c := if seqlt c.tcb.snduna c.tcb.sndnxt then c.sched env c.tcb.rxttime TCP_EVT_RXT else c
    c.set { c.tcb with sndData := true }
  else c

def tcpRecvWindow (env : Env) (c : Conn) (seg : Segment) : Conn :=
  let t := c.tcb
  if seqlt t.sndwl1 seg.seqnum ∨ (t.sndwl1 = seg.seqnum ∧ seqlte t.sndwl2 seg.acknum) then
    let oldend := seqadd t.sndwl2 t.sndwnd
    let newend := seqadd seg.acknum seg.window
    let t := { t with sndwnd := seg.window, sndwl1 := seg.seqnum, sndwl2 := seg.acknum }
    if ¬ seqlte newend oldend then
      let c := (c.set t).purge env TCP_EVT_PERSIST
      c.set { c.tcb with persist := false, sndData := true }
    else c.set t
  else c

def tcpRecvAck (env : Env) (c : Conn) (seg : Segment) : Conn :=
  let c := tcpRecvWindow env (tcpRecvAcked env c seg) seg
  if seqlt c.tcb.sndnxt seg.acknum then c.set { c.tcb with sndAck := true } else c

def storeOctets (data : Int → Byte) (start : Nat) (t : Tcb) : Nat → Tcb
  | 0 => t
  | n + 1 =>
      let t := storeOctets data start t n
      let index := (start + n) % TCP_IBLEN
      { t with
        inb := Function.update t.inb index (data n)
        imark := Function.update t.imark index true }

def advanceLoop : Nat → Tcb → Tcb × Bool
  | 0, t => (t, false)
  | fuel + 1, t =>
      if t.icount < TCP_IBLEN ∧ t.imark t.inxt then
        let t :=
          { t with
            icount := t.icount + 1
            ibytes := t.ibytes + 1
            inxt := (t.inxt + 1) % TCP_IBLEN
            rcvnxt := seqadd t.rcvnxt 1 }
        if t.rcvFin ∧ t.rcvnxt = t.rcvfin then (t, true) else advanceLoop fuel t
      else (t, false)

def appendOctets (t : Tcb) (seglen : Nat) : Tcb :=
  { t with
    icount := t.icount + seglen
    ibytes := t.ibytes + seglen
    inxt := (t.inxt + seglen) % TCP_IBLEN
    rcvnxt := seqadd t.rcvnxt seglen }

def signalReaders (t : Tcb) : Tcb := { t with readers := if t.readers < 1 then t.readers + 1 else t.readers, sndAck := true }

def signed32 (offset : Nat) : Int := if offset < 2 ^ 31 then offset else (offset : Int) - 2 ^ 32

/-- The data of a segment: the connection, whether there is a FIN to process, and the length that is
left. -/
def tcpRecvOctets (c : Conn) (seg : Segment) : Conn × Bool × Nat :=
  let t := c.tcb
  let old := seqlt seg.seqnum t.rcvnxt
  let offset := if old then tcpSeqdiff t.rcvnxt seg.seqnum else tcpSeqdiff seg.seqnum t.rcvnxt
  let skip := if old then signed32 offset else 0
  let seglen := if old then (seg.len + 2 ^ 32 - offset) % 2 ^ 16 else seg.len
  let start := if old then t.inxt else (t.inxt + offset) % 2 ^ 32 % TCP_IBLEN
  let window := sub32 (tcpSeqdiff t.rcvwnd t.rcvnxt) offset
  let fin := if window < seglen then false else seg.fin
  let seglen := if window < seglen then window else seglen
  let t := storeOctets (fun i => seg.data (skip + i)) start t seglen
  let stored := (List.range seglen).map fun i : Nat =>
    (((seg.seqnum : Int) + skip + i).toNat, (start + i) % TCP_IBLEN)
  let c := { c with stored := c.stored ++ stored }
  if start = t.inxt then
    let advanced := advanceLoop TCP_IBLEN (appendOctets t seglen)
    (c.set (signalReaders advanced.1), fin || advanced.2, seglen)
  else (c.set t, fin, seglen)

def tcpRecvFin (env : Env) (c : Conn) : Conn :=
  let c := c.set { c.tcb with readers := signalWaiting c.tcb.readers }
  let t := c.tcb
  let rcvnxt := seqadd t.rcvnxt 1
  let c := match t.state with
    | .synrecv | .estab => c.set { t with rcvnxt, state := .closewt }
    | .finwt1 =>
        if seqlt t.sndfin t.snduna then
          let c := ((c.set { t with rcvnxt }).sched env TCP_TWOMSL TCP_EVT_TIMEWT).purge env 0
          c.set { c.tcb with state := .timewt }
        else c.set { t with rcvnxt, state := .closing }
    | .finwt2 => ((c.set { t with rcvnxt }).purge env 0).sched env TCP_TWOMSL TCP_EVT_TIMEWT
    | .timewt => (c.purge env 0).sched env TCP_TWOMSL TCP_EVT_TIMEWT
    | _ => c
  c.set { c.tcb with sndAck := true }

def tcpRecvText (c : Conn) (seg : Segment) : Conn × Bool × Nat :=
  if 0 < seg.len then
    match c.tcb.state with
    | .estab | .finwt1 | .finwt2 => tcpRecvOctets c seg
    -- data behind the FIN, or before the connection is open
    | _ => (c, seg.fin, seg.len)
  else (c, seg.fin, 0)

def tcpRecvEnd (env : Env) (c : Conn) (seg : Segment) (seglen : Nat) : Conn :=
  let c := if c.tcb.rcvFin then c
    else c.set { c.tcb with rcvfin := seqadd seg.seqnum seglen, rcvFin := true }
  if c.tcb.rcvnxt = c.tcb.rcvfin then tcpRecvFin env c else c

def tcpRecvData (env : Env) (c : Conn) (seg : Segment) : Conn :=
  let (c, fin, seglen) := tcpRecvText c seg
  let c := if fin then tcpRecvEnd env c seg seglen else c
  let c := if c.tcb.sndData then tcpSendData env c else c
  if c.tcb.sndAck then tcpSendAck env c else c

/-- The ACK of a segment: whether it is to be processed further, or what to return. -/
def tcpRecvOtherAck (env : Env) (c : Conn) (seg : Segment) : Conn × Option Int :=
  let t := c.tcb
  match t.state with
  | .synrecv =>
      if seqlte t.snduna seg.acknum ∧ seqlte seg.acknum t.sndnxt then
        (tcpRecvAck env (c.set { t with state := .estab, openclose := t.openclose + 1 }) seg, none)
      else (c.set { t with sndRst := true }, some OK)
  | .closewt | .estab => (tcpRecvAck env c seg, none)
  | .finwt1 =>
      let c := tcpRecvAck env c seg
      if seqlte c.tcb.sndfin c.tcb.snduna then
        (c.set { c.tcb with openclose := c.tcb.openclose + 1, state := .finwt2 }, none)
      else (c, none)
  | .finwt2 =>
      let c := tcpRecvAck env c seg
      if tcpTimerRemain env c TCP_EVT_RXT ≤ 0 then
        (c.set { c.tcb with openclose := c.tcb.openclose + 1 }, none)
      else (c, none)
  | .closing =>
      let c := tcpRecvAck env c seg
      if seqlte c.tcb.sndfin c.tcb.snduna then
        let c := c.set { c.tcb with openclose := c.tcb.openclose + 1, state := .finwt2 }
        (c.sched env TCP_TWOMSL TCP_EVT_TIMEWT, none)
      else (c, none)
  | .lastack =>
      if seqlte t.sndfin t.snduna then
        (c.set { t with openclose := t.openclose + 1 }, some TCP_ERR_RESET)
      else (c, none)
  | .timewt => ((c.purge env 0).sched env TCP_TWOMSL TCP_EVT_TIMEWT, none)
  | _ => (c, none)

def tcpRecvOther (env : Env) (c : Conn) (seg : Segment) : Conn × Int :=
  if ¬ tcpRecvValid c.tcb seg then
    if seg.rst then (c, OK) else (tcpSendAck env c, OK)
  else if seg.rst then
    if c.tcb.state = .synrecv then
      let c := (c.set { c.tcb with rxtcount := 0 }).purge env TCP_EVT_RXT
      if c.tcb.passive then (c.set { c.tcb with state := .listen }, OK) else (c, TCP_ERR_RESET)
    else (c, TCP_ERR_RESET)
  else if seg.syn then (c.set { c.tcb with sndRst := true }, TCP_ERR_RESET)
  else if ¬ seg.ack then (c, OK)
  else
    match tcpRecvOtherAck env c seg with
    | (c, some result) => (c, result)
    | (c, none) => (tcpRecvData env c seg, OK)

def tcpRecvListen (env : Env) (c : Conn) (seg : Segment) : Conn × Int :=
  if seg.rst then (c, OK)
  else if seg.ack then (c.set { c.tcb with sndRst := true }, OK)
  else if seg.syn then
    let c := c.set
      { c.tcb with
        rcvnxt := seqadd seg.seqnum 1
        rcvwnd := seqadd seg.seqnum TCP_INIT_WND
        rcvSyn := true
        sndAck := true
        foreignSet := true
        sndwnd := seg.window
        sndwl1 := seg.seqnum }
    let c := (tcpSendSyn env c).1
    let c := if c.tcb.sndAck then tcpSendAck env c else c
    (tcpRecvData env (c.set { c.tcb with state := .synrecv }) seg, OK)
  else (c, OK)

def tcpRecvSynsent (env : Env) (c : Conn) (seg : Segment) : Conn × Int :=
  let t := c.tcb
  if seg.ack ∧ (seqlte seg.acknum t.iss ∨ seqlt t.sndnxt seg.acknum) then
    (if seg.rst then c else c.set { t with sndRst := true }, OK)
  else
    let ackAccept := seg.ack && seqlte t.snduna seg.acknum && seqlte seg.acknum t.sndnxt
    if seg.rst then (c, if ackAccept then TCP_ERR_RESET else OK)
    else if seg.syn then
      let t :=
        { t with
          sndwnd := seg.window
          sndwl1 := seg.seqnum
          rcvnxt := seqadd seg.seqnum 1
          rcvwnd := seqadd seg.seqnum TCP_INIT_WND
          rcvSyn := true
          sndAck := true
          snduna := if ackAccept then seg.acknum else t.snduna
          sndwl2 := if ackAccept then seg.acknum else t.sndwl2
          rxtcount := 0 }
      let c := (c.set t).purge env TCP_EVT_RXT
      let c := if seqlt t.snduna t.sndnxt then c.sched env t.rxttime TCP_EVT_RXT else c
      if seqlt t.iss t.snduna then
        (tcpRecvData env
          (c.set { c.tcb with state := .estab, openclose := c.tcb.openclose + 1, sndData := true }) seg, OK)
      else
        let c := c.set { c.tcb with state := .synrecv }
        let c := (tcpSend env c true true false c.tcb.iss c.tcb.rcvnxt 0 1).1
        (tcpRecvData env c seg, OK)
    else (c, OK)

def tcpRecvState (env : Env) (c : Conn) (seg : Segment) : Conn × Int :=
  let c := match seg.mss with
    | none => c
    | some sndmss => c.set { c.tcb with sndmss }
  match c.tcb.state with
  | .listen => tcpRecvListen env c seg
  | .synsent => tcpRecvSynsent env c seg
  | _ => tcpRecvOther env c seg

def tcpRecv (env : Env) (c : Conn) (seg : Segment) : Conn :=
  if c.tcb.state = .closed then c
  else
    match tcpRecvState env c seg with
    | (c, result) => if result = TCP_ERR_RESET then tcpFree env c else c

/-! ## Reading and writing -/

def readCheck (t : Tcb) : Int :=
  match t.state with
  | .closed => TCP_ERR_NOCONN
  | .closewt => if 0 < t.icount then OK else TCP_ERR_CLOSING
  | .closing | .lastack | .timewt => TCP_ERR_CLOSING
  | _ => OK

def readLoop : Nat → Tcb → Tcb × List Byte
  | 0, t => (t, [])
  | len + 1, t =>
      if t.icount = 0 then (t, [])
      else
        let octet := t.inb t.istart
        let (t, octets) := readLoop len
          { t with
            imark := Function.update t.imark t.istart false
            istart := (t.istart + 1) % TCP_IBLEN
            icount := t.icount - 1 }
        (t, octet :: octets)

/-- One pass of `tcpRead`, for at most `len` octets. -/
def tcpRead (c : Conn) (len : Nat) : Conn :=
  if readCheck c.tcb ≠ OK then c
  else
    let (t, octets) := readLoop len c.tcb
    let t := { t with readers := if 0 < t.icount ∧ t.readers < 1 then t.readers + 1 else t.readers }
    { c with tcb := t, handed := c.handed ++ octets }

def tcpOpenActive (env : Env) (c : Conn) : Conn × Int :=
  if ¬ c.tcb.foreignSet ∨ ¬ c.tcb.localSet then (c, TCP_ERR_NOSPEC)
  else
    match tcpSendSyn env c with
    | (c, result) =>
        if result = SYSERR then (c, SYSERR) else (c.set { c.tcb with state := .synsent }, OK)

/-- The fields that `tcpSetup` sets, with counts for the semaphores. -/
def setupTcb (t : Tcb) (iss : Nat) : Tcb :=
  { t with
    openclose := 0
    istart := 0, inxt := 0, icount := 0, ibytes := 0, readers := 0
    ostart := 0, ocount := 0, obytes := 0, writers := 1
    iss, snduna := iss, sndnxt := iss, sndwl2 := iss, sndmss := TCP_INIT_MSS
    sndSyn := false, sndFin := false, sndAck := false, sndData := false, sndRst := false, persist := false
    sndcwn := TCP_INIT_MSS, sndsst := TCP_MAX_WND, rxttime := TCP_RXT_INITTIME, rxtcount := 0
    psttime := TCP_PST_INITTIME
    rcvmss := TCP_INIT_MSS - TCP_HDR_LEN, rcvSyn := false, rcvFin := false }

structure Opening where
  mode : Nat
  localSet : Bool
  foreignSet : Bool
  iss : Nat
  -- whether there are semaphores
  sems : Bool
  iss_lt : iss < 2 ^ 32 := by decide

def tcpOpen (env : Env) (c : Conn) (o : Opening) : Conn :=
  if c.tcb.state ≠ .closed ∧ c.tcb.state ≠ .listen then c
  else
    let t :=
      { c.tcb with passive := decide (o.mode = TCP_PASSIVE), localSet := o.localSet, foreignSet := o.foreignSet }
    let c := c.set (setupTcb t o.iss)
    if o.sems = false then tcpFree env c
    else if o.mode = TCP_PASSIVE then c.set { c.tcb with state := .listen }
    else if o.mode = TCP_ACTIVE then
      match tcpOpenActive env c with
      | (c, result) => if result = SYSERR then tcpFree env c else c
    else tcpFree env c

def writeCheck (env : Env) (c : Conn) : Conn × Int :=
  match c.tcb.state with
  | .closed => (c, TCP_ERR_NOCONN)
  | .listen =>
      if c.tcb.foreignSet then
        let c := c.set { c.tcb with state := .synsent }
        match tcpOpenActive env c with
        | (c, result) =>
            if result ≠ OK then (c, SYSERR)
            else if c.tcb.sndSyn then ((tcpSendSyn env c).1, TCP_ERR_NOSPEC) else (c, TCP_ERR_NOSPEC)
      else (c, TCP_ERR_NOSPEC)
  | .finwt1 | .finwt2 | .closing | .lastack | .timewt => (c, TCP_ERR_CLOSING)
  | .synsent | .synrecv | .estab | .closewt => (c, OK)

def writeLoop : List Byte → Tcb → Tcb × List Byte
  | [], t => (t, [])
  | ch :: buffer, t =>
      if TCP_OBLEN ≤ t.ocount then (t, [])
      else
        let (t, octets) := writeLoop buffer
          { t with
            out := Function.update t.out ((t.ostart + t.ocount) % TCP_OBLEN) ch
            ocount := t.ocount + 1 }
        (t, ch :: octets)

/-- One pass of `tcpWrite`, with what there is left to write. -/
def tcpWrite (env : Env) (c : Conn) (buffer : List Byte) : Conn :=
  match writeCheck env c with
  | (c, check) =>
      if check ≠ OK then c.set { c.tcb with writers := c.tcb.writers + 1 }
      else
        let (t, octets) := writeLoop buffer c.tcb
        let t := { t with writers := if t.ocount < TCP_OBLEN then t.writers + 1 else t.writers }
        let c := { c with tcb := t, written := c.written ++ octets }
        if t.state = .estab ∨ t.state = .closewt then tcpSendData env c else c

/-! ## Timer events -/

def rxtTime (rxttime : Int) (rxtcount : Nat) : Int := min TCP_RXT_MAXTIME (int32 (rxttime * 2 ^ rxtcount))

def tcpSendRxt (env : Env) (c : Conn) : Conn :=
  let t := c.tcb
  if ¬ seqlt t.snduna t.sndnxt ∨ t.persist then c
  else
    let first := t.rxtcount = 0
    let c := c.set { t with rxtcount := t.rxtcount + 1 }
    if TCP_RXT_MAXCOUNT < c.tcb.rxtcount then tcpFree env c
    else
      let c := c.sched env (rxtTime t.rxttime c.tcb.rxtcount) TCP_EVT_RXT
      let t := c.tcb
      if t.sndSyn ∧ t.snduna = t.iss then
        (tcpSend env c true t.rcvSyn false t.snduna t.rcvnxt 0 1).1
      else
        let pending := tcpSeqdiff t.sndnxt t.snduna
        let fin := t.sndFin && seqlte t.snduna t.sndfin && seqlt t.sndfin t.sndnxt
        let tosend := if t.sndmss < pending then t.sndmss else pending
        let fin := if t.sndmss < pending then false else fin
        let c := (tcpSend env c false true fin t.snduna t.rcvnxt t.ostart tosend).1
        let t := c.tcb
        let sndsst := if first then t.sndcwn else t.sndsst
        let sndsst := if t.sndwnd < sndsst then t.sndwnd / 2 else sndsst / 2
        c.set { t with sndsst := max t.sndmss sndsst, sndcwn := t.sndmss }

def tcpSendPersist (env : Env) (c : Conn) : Conn :=
  let t := c.tcb
  if t.ocount = 0 then c.set { t with persist := false }
  else
    let psttime := min TCP_PST_MAXTIME (t.psttime * 2)
    let c := (c.set { t with psttime }).sched env psttime TCP_EVT_PERSIST
    let tosend := if t.sndmss < t.ocount then t.sndmss else t.ocount
    (tcpSend env c false true false t.snduna t.rcvnxt t.ostart tosend).1

def tcpTimerTrigger (env : Env) (c : Conn) (type : Nat) : Conn :=
  if type = TCP_EVT_TIMEWT then tcpFree env c
  else if type = TCP_EVT_RXT then tcpSendRxt env c
  else if type = TCP_EVT_PERSIST then tcpSendPersist env c
  else c

/-! ## Runs -/

def Conn.zero : Conn :=
  { tcb := .zero, timers := .init, packets := 0, sent := [], stored := [], handed := [], written := [] }

inductive Op
  | opens (o : Opening)
  | segment (seg : Segment)
  | read (len : Nat)
  | write (buffer : List Byte)
  | close
  | trigger (type : Nat)
  -- time passes, and other connections use the timer queue
  | elsewhere (timers : Timers)

def step (env : Env) : Op → Conn → Option Conn
  | .opens o, c => some (tcpOpen env c o)
  | .segment seg, c => some (tcpRecv env c seg)
  | .read len, c => some (tcpRead c len)
  | .write buffer, c => some (tcpWrite env c buffer)
  | .close, c => some (tcpClose env c)
  | .trigger type, c => some (tcpTimerTrigger env c type)
  | .elsewhere timers, c => some { c with timers }

end Xinu.Tcp
