import Xinu.Lib.Bytes
import Xinu.Lib.Sem
import Xinu.Lib.Runs
import Xinu.System.Config
import Mathlib.Logic.Function.Basic

/-!
# The output side of a UART

`uartWrite` and what the NS16550 interrupt handler does when the transmitter is empty. A thread runs
with interrupts disabled until it blocks in `wait` or returns. `UART_FIFO_LEN` is a constant of the
platform.
-/

namespace Xinu
open Lib (Byte)

abbrev UART_OBLEN : Nat := 1024

namespace Uart

structure Octet where
  writer : Nat
  byte : Byte
  deriving DecidableEq, Repr

/-- A thread in `uartWrite`: what is left of its buffer, from the byte on that it tries to write. -/
structure Frame where
  rest : List Byte
  count : Nat
  deriving DecidableEq, Repr

end Uart

open Uart (Octet)

structure Uart where
  -- `csr` is set
  ready : Bool
  -- `oflags & UART_OFLAG_NOBLOCK`
  noblock : Bool
  osema : Lib.Sem
  ostart : Nat
  ocount : Nat
  out : Nat → Octet
  oidle : Bool
  cout : Nat
  oirq : Nat
  frames : Nat → Option Uart.Frame
  -- threads that `signaln` has made ready and that have not run yet
  woken : List Nat
  -- what each call has returned last
  returned : Nat → Int
  -- all bytes of the buffers that a thread has passed to `uartWrite`
  given : Nat → List Byte
  -- what has been written to the hardware
  sent : List Octet

namespace Uart

def init : Uart :=
  { ready := true, noblock := false, osema := ⟨UART_OBLEN, []⟩, ostart := 0, ocount := 0
    out := fun _ => ⟨0, 0⟩, oidle := true, cout := 0, oirq := 0, frames := fun _ => none, woken := []
    returned := fun _ => 0, given := fun _ => [], sent := [] }

def putc (u : Uart) (t : Nat) (ch : Byte) : Uart :=
  { u with sent := u.sent ++ [⟨t, ch⟩], oidle := false, cout := u.cout + 1 }

def store (u : Uart) (t : Nat) (ch : Byte) : Uart :=
  { u with
    out := Function.update u.out ((u.ostart + u.ocount) % UART_OBLEN) ⟨t, ch⟩
    ocount := u.ocount + 1 }

def finish (u : Uart) (t : Nat) (count : Int) : Uart :=
  { u with
    frames := Function.update u.frames t none
    returned := Function.update u.returned t count }

def writeLoop (t : Nat) : List Byte → Nat → Uart → Uart
  | [], count, u => u.finish t count
  | ch :: rest, count, u =>
      if u.oidle then writeLoop t rest (count + 1) (u.putc t ch)
      else if u.noblock ∧ u.ocount = UART_OBLEN then u.finish t count
      else
        match u.osema.wait t with
        | (osema, true) => { u with osema, frames := Function.update u.frames t (some ⟨ch :: rest, count⟩) }
        | (osema, false) => writeLoop t rest (count + 1) ({ u with osema }.store t ch)

def uartWrite (u : Uart) (t : Nat) (buf : List Byte) : Uart :=
  let u := { u with given := Function.update u.given t (u.given t ++ buf) }
  if ¬ u.ready then u.finish t SYSERR else writeLoop t buf 0 u

def resume (u : Uart) (t : Nat) : Uart :=
  let u := { u with woken := u.woken.erase t }
  match u.frames t with
  | some ⟨ch :: rest, count⟩ => writeLoop t rest (count + 1) (u.store t ch)
  | _ => u

def takeOut (u : Uart) : Uart :=
  { u with
    ocount := u.ocount - 1
    sent := u.sent ++ [u.out u.ostart]
    ostart := (u.ostart + 1) % UART_OBLEN }

/-- `do … while ((count < UART_FIFO_LEN) && (uartptr->ocount > 0))`, with the rounds that are left
after the first one. -/
def handOver : Nat → Uart → Uart × Nat
  | 0, u => (u.takeOut, 1)
  | n + 1, u =>
      let u := u.takeOut
      if 0 < u.ocount then
        let (u, count) := handOver n u
        (u, count + 1)
      else (u, 1)

/-- `signaln` on `osema`, with rescheduling deferred. -/
def signaln : Nat → Uart → Uart
  | 0, u => u
  | n + 1, u =>
      let (osema, released) := u.osema.signal
      signaln n { u with osema, woken := u.woken ++ released.toList }

/-- `uartInterrupt` in the case `UART_IIR_THRE`. `thre` is the bit `UART_LSR_THRE`. -/
def uartInterrupt (fifoLen : Nat) (u : Uart) (thre : Bool) : Uart :=
  if ¬ thre then u
  else
    let u := { u with oirq := u.oirq + 1 }
    if 0 < u.ocount then
      let (u, count) := handOver (fifoLen - 1) u
      signaln count { u with cout := u.cout + count }
    else { u with oidle := true }

inductive Op
  | write (t : Nat) (buf : List Byte)
  | resume (t : Nat)
  | interrupt (thre : Bool)
  deriving DecidableEq, Repr

def step (fifoLen : Nat) : Op → Uart → Option Uart
  | .write t buf, u => if u.frames t = none then some (u.uartWrite t buf) else none
  | .resume t, u => if t ∈ u.woken then some (u.resume t) else none
  | .interrupt thre, u => some (uartInterrupt fifoLen u thre)

end Uart

end Xinu
