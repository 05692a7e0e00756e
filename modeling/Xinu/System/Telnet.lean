import Xinu.System.Tty

/-!
# The input side of a telnet device

`telnetRead` by one thread, on what the `getc` of the underlying device returns. The device is open and takes
all that is written to it.
-/

namespace Xinu
open Lib (Byte)

abbrev TELNET_IBLEN : Nat := 80
abbrev TELNET_OBLEN : Nat := 80

abbrev TELNET_SB : Byte := 250
abbrev TELNET_WILL : Byte := 251
abbrev TELNET_WONT : Byte := 252
abbrev TELNET_DO : Byte := 253
abbrev TELNET_DONT : Byte := 254
abbrev TELNET_IAC : Byte := 255
abbrev TELNET_IP : Byte := 244

abbrev TELNET_ECHO : Byte := 1
abbrev TELNET_SUPPRESS_GA : Byte := 3

namespace Telnet

inductive EchoState
  | start | sent_do | sent_will | self_echoes | other_echoes | no_echo
  deriving DecidableEq, Repr

/-- Where the peer is in what it sends: between commands, behind `IAC`, before an option, or in a
subnegotiation. -/
inductive Place
  | text | iac | option | sub | subIac
  deriving DecidableEq, Repr

/-- Whether a byte that the peer sends is part of a command, and where it is behind it. -/
def Place.next : Place → Byte → Bool × Place
  | text, ch => if ch = TELNET_IAC then (true, iac) else (false, text)
  | iac, ch =>
      if ch = TELNET_WILL ∨ ch = TELNET_WONT ∨ ch = TELNET_DO ∨ ch = TELNET_DONT then (true, option)
      else if ch = TELNET_SB then (true, sub)
      else (true, text)
  | option, _ => (true, text)
  | sub, ch => (true, if ch = TELNET_IAC then subIac else sub)
  -- `IAC SE` ends a subnegotiation
  | subIac, ch => (true, if ch = 240 then text else sub)

structure Char where
  ch : Byte
  command : Bool
  deriving DecidableEq, Repr

end Telnet

open Telnet (EchoState Place)

structure Telnet where
  -- `phw` is set
  phw : Bool
  flag_echo : Bool
  flag_suppress_ga : Bool
  echoState : EchoState
  ieof : Bool
  idelim : Bool
  -- `in`
  buffer : Nat → Telnet.Char
  icount : Nat
  istart : Nat
  isem : Nat
  -- the characters of `out` in front of `ostart`
  out : List Byte
  -- the name of the current thread begins with `"SHELL"`
  shell : Bool
  -- what `getc` returns from now on, with `none` for `SYSERR`, and where the peer is
  input : List (Option Byte)
  place : Place
  -- what the underlying device has been given
  sent : List Byte
  -- the peer has said last that it will suppress go-aheads; nothing reads it
  peerSga : Bool

namespace Telnet

def telnetFlush (t : Telnet) : Telnet := { t with sent := t.sent ++ t.out, out := [] }

def telnetPutc (ch : Byte) (t : Telnet) : Telnet :=
  let t := if TELNET_OBLEN - 1 ≤ t.out.length then telnetFlush t else t
  if ch = 10 then telnetFlush { t with out := t.out ++ [13, 10] }
  else if ch = TELNET_IAC then { t with out := t.out ++ [ch, ch] }
  else { t with out := t.out ++ [ch] }

def telnetEcho (ch : Byte) (t : Telnet) : Telnet :=
  if ch = 8 ∨ ch = 247 ∨ ch = 127 then telnetFlush (telnetPutc 8 (telnetPutc 32 (telnetPutc 8 t)))
  else if ch = 13 then telnetFlush (telnetPutc 10 (telnetPutc 13 t))
  else if ch = 10 then t
  else if ¬ isprint ch then t
  else telnetFlush (telnetPutc ch t)

def telnetSendOption (command option : Byte) (t : Telnet) : Telnet :=
  { t with sent := t.sent ++ [TELNET_IAC, command, option] }

def telnetEchoNegotiate (command : Byte) (t : Telnet) : Telnet :=
  match t.echoState with
  | .sent_do =>
      if command = TELNET_WILL then { t with echoState := .other_echoes, flag_echo := false }
      else if command = TELNET_WONT then { telnetSendOption TELNET_WILL TELNET_ECHO t with echoState := .sent_will }
      else if command = TELNET_DO then telnetSendOption TELNET_WONT TELNET_ECHO t
      else t
  | .sent_will =>
      if command = TELNET_DO then { t with echoState := .self_echoes, flag_echo := true }
      else if command = TELNET_DONT then { t with echoState := .no_echo, flag_echo := false }
      else if command = TELNET_WILL then telnetSendOption TELNET_DONT TELNET_ECHO t
      else t
  | .self_echoes =>
      if command = TELNET_DONT then
        { telnetSendOption TELNET_WONT TELNET_ECHO t with echoState := .no_echo, flag_echo := false }
      else if command = TELNET_WILL then telnetSendOption TELNET_DONT TELNET_ECHO t
      else t
  | .other_echoes =>
      if command = TELNET_WONT then
        { telnetSendOption TELNET_WILL TELNET_ECHO (telnetSendOption TELNET_DONT TELNET_ECHO t) with
          echoState := .sent_will }
      else if command = TELNET_DO then telnetSendOption TELNET_WONT TELNET_ECHO t
      else t
  | .no_echo =>
      if command = TELNET_DO then
        { telnetSendOption TELNET_WILL TELNET_ECHO t with echoState := .self_echoes, flag_echo := true }
      else if command = TELNET_WILL then telnetSendOption TELNET_DONT TELNET_ECHO t
      else t
  | .start => t

/-- How a round ends: with the next one (and `willSga`), by returning `SYSERR`, because the thread kills itself,
or not yet, because the underlying device has nothing. -/
inductive Round
  | next (t : Telnet) (willSga : Bool)
  | failed (t : Telnet)
  | killed (t : Telnet)
  | blocked

def getc (t : Telnet) (k : Char → Telnet → Round) : Round :=
  match t.input with
  | [] => .blocked
  | none :: input => .failed { t with input }
  | some ch :: input =>
      let (command, place) := t.place.next ch
      k ⟨ch, command⟩ { t with input, place }

def put (c : Char) (t : Telnet) : Telnet :=
  { t with buffer := Function.update t.buffer ((t.icount + t.istart) % TELNET_IBLEN) c, icount := t.icount + 1 }

def NUL : Char := ⟨0, false⟩

def carriageReturn (c : Char) (t : Telnet) : Telnet :=
  if c.ch = 0 ∨ c.ch = 10 then telnetEcho c.ch (telnetEcho c.ch { put c t with idelim := true })
  else telnetEcho c.ch (put c (put NUL t))

/-- The loop of `TELNET_EL`, where `index` is the one of the character that is tested. -/
def eraseLine : Nat → Nat → Telnet → Telnet
  | 0, _, t => t
  | icount + 1, index, t =>
      if (t.buffer (index % TELNET_IBLEN)).ch = 10 then t
      else
        let index := icount + t.istart
        eraseLine icount index { t with icount, buffer := Function.update t.buffer (index % TELNET_IBLEN) NUL }

/-- `"\r\n*****connections still open*****\r\n"` as far as it is written. -/
def amthere : List Byte :=
  [13, 10, 42, 42, 42, 42, 42, 99, 111, 110, 110, 101, 99, 116, 105, 111, 110, 115, 32, 115, 116, 105, 108, 108,
    32, 111, 112, 101, 110, 42, 42, 42, 42, 42, 13, 10]

def will (willSga : Bool) (ch : Byte) (t : Telnet) : Round :=
  if ch = TELNET_SUPPRESS_GA then
    let t := { t with peerSga := true }
    if willSga then .next t willSga else .next (telnetSendOption TELNET_WILL ch t) true
  else if ch = TELNET_ECHO then .next (telnetEchoNegotiate TELNET_WILL t) willSga
  else .next (telnetSendOption TELNET_DONT ch t) willSga

def wont (ch : Byte) (t : Telnet) : Telnet :=
  if ch = TELNET_ECHO then telnetEchoNegotiate TELNET_WONT t
  else if ch = TELNET_SUPPRESS_GA then { t with peerSga := false }
  else t

def doOption (ch : Byte) (t : Telnet) : Telnet :=
  if ch = TELNET_SUPPRESS_GA then { telnetSendOption TELNET_WILL ch t with flag_suppress_ga := true }
  else if ch = TELNET_ECHO then telnetEchoNegotiate TELNET_DO t
  else telnetSendOption TELNET_WONT ch t

def dont (ch : Byte) (t : Telnet) : Telnet :=
  if ch = TELNET_ECHO then telnetEchoNegotiate TELNET_DONT t else t

def command (willSga : Bool) (ch : Byte) (t : Telnet) : Round :=
  if ch = TELNET_WILL then getc t fun c t => will willSga c.ch t
  else if ch = TELNET_WONT then getc t fun c t => .next (wont c.ch t) willSga
  else if ch = TELNET_DO then getc t fun c t => .next (doOption c.ch t) willSga
  else if ch = TELNET_DONT then getc t fun c t => .next (dont c.ch t) willSga
  else if ch = TELNET_IP then if t.shell then .next t willSga else .killed t
  -- abort output
  else if ch = 245 then .next (telnetFlush t) willSga
  -- are you there
  else if ch = 246 then .next { t with sent := t.sent ++ amthere } willSga
  -- erase character
  else if ch = 247 then .next { t with icount := t.icount - 1 } willSga
  -- erase line
  else if ch = 248 then .next (eraseLine t.icount (t.icount + t.istart) t) willSga
  -- the others do nothing
  else .next t willSga

/-- The switch on a character. It is echoed whatever `TELNET_FLAG_ECHO` is. -/
def dispatch (willSga : Bool) (c : Char) (t : Telnet) : Round :=
  if c.ch = 13 then
    getc (telnetFlush (telnetEcho c.ch (put c t))) fun c t => .next (carriageReturn c t) willSga
  -- delete and backspace
  else if c.ch = 127 ∨ c.ch = 8 then
    .next (if 1 ≤ t.icount then telnetEcho c.ch { t with icount := t.icount - 1 } else t) willSga
  else if c.ch = 10 then .next (telnetEcho c.ch { put c t with idelim := true }) willSga
  -- end of file
  else if c.ch = 4 then .next { t with ieof := true, idelim := true } willSga
  else if c.ch = TELNET_IAC then getc t fun c t => command willSga c.ch t
  else .next (telnetEcho c.ch (if isprint c.ch then put c t else t)) willSga

def receive (willSga : Bool) (t : Telnet) : Round := getc t (dispatch willSga)

def drain : Nat → Telnet → List Char × Telnet
  | 0, t => ([], t)
  | n + 1, t =>
      if 0 < t.icount then
        let c := t.buffer t.istart
        let (chars, t) := drain n { t with icount := t.icount - 1, istart := (t.istart + 1) % TELNET_IBLEN }
        (c :: chars, t)
      else ([], t)

inductive Result
  | data (chars : List Char)
  | eof
  | error
  deriving DecidableEq, Repr

/-- Where the thread is that reads: it has not called, is in the input loop of a call with that `len` and
`willSga`, or waits for `isem`. -/
inductive Phase
  | idle
  | filling (len : Nat) (willSga : Bool)
  | waiting
  deriving DecidableEq, Repr

structure Reader where
  telnet : Telnet
  phase : Phase
  returned : List Result

def deliver (len : Nat) (t : Telnet) (returned : List Result) : Reader :=
  let (chars, t) := drain len { t with isem := t.isem + 1 }
  { telnet := if t.icount = 0 then { t with idelim := false } else t, phase := .idle
    returned := returned ++ [.data chars] }

inductive Action
  | call (len : Nat)
  | receive
  | finish
  deriving DecidableEq, Repr

def start (len : Nat) (t : Telnet) (returned : List Result) : Reader :=
  if ¬ t.phw then ⟨t, .idle, returned ++ [.error]⟩
  else if t.ieof then ⟨{ t with ieof := false }, .idle, returned ++ [.eof]⟩
  else if t.isem = 0 then ⟨t, .waiting, returned⟩
  else if t.icount = 0 then ⟨{ t with isem := t.isem - 1 }, .filling len false, returned⟩
  else deliver len { t with isem := t.isem - 1 } returned

def step (action : Action) (r : Reader) : Option Reader :=
  match r.phase, action with
  | .idle, .call len => some (start len r.telnet r.returned)
  | .filling len willSga, .receive =>
      if r.telnet.icount < TELNET_IBLEN ∧ ¬ r.telnet.idelim then
        match receive willSga r.telnet with
        | .next telnet willSga => some { r with telnet, phase := .filling len willSga }
        | .failed telnet => some ⟨telnet, .idle, r.returned ++ [.error]⟩
        | .killed telnet => some { r with telnet, phase := .idle }
        | .blocked => none
      else none
  | .filling len _, .finish =>
      if r.telnet.icount < TELNET_IBLEN ∧ ¬ r.telnet.idelim then none else some (deliver len r.telnet r.returned)
  | _, _ => none

def opened (shell : Bool) (input : List (Option Byte)) : Reader where
  telnet :=
    { phw := true, flag_echo := false, flag_suppress_ga := false, echoState := .sent_will, ieof := false, idelim := false
      buffer := fun _ => NUL, icount := 0, istart := 0, isem := 1, out := [], shell, input, place := .text, sent := [],
      peerSga := false }
  phase := .idle
  returned := []

end Telnet

end Xinu
