import Xinu.Lib.Bytes
import Xinu.Lib.Runs
import Xinu.System.Config
import Mathlib.Logic.Function.Basic

/-!
# The input side of a tty

`ttyRead` by one thread, on what the `getc` of the hardware device returns. Echo goes to the output
side and is left out.
-/

namespace Xinu
open Lib (Byte)

abbrev TTY_IBLEN : Nat := 1024

def isprint (ch : Byte) : Bool := (9 ≤ ch ∧ ch ≤ 13) ∨ (32 ≤ ch ∧ ch < 127)

namespace Tty

structure Iflags where
  raw : Bool
  inlcr : Bool
  igncr : Bool
  icrnl : Bool
  deriving DecidableEq, Repr

/-- A character of the hardware device is read, or that many characters (or one `EOF`) are returned. -/
inductive Event
  | typed (ch : Byte)
  | taken (n : Nat)
  deriving DecidableEq, Repr

inductive Item
  | char (ch : Byte)
  | eof
  deriving DecidableEq, Repr

inductive Result
  | data (bytes : List Byte)
  | eof
  | error
  | blocked
  deriving DecidableEq, Repr

end Tty

open Tty (Iflags Item Result)

structure Tty where
  -- `phw` is set
  phw : Bool
  iflags : Iflags
  ieof : Bool
  idelim : Bool
  -- `in`
  buffer : Nat → Byte
  istart : Nat
  icount : Nat
  -- what has happened, and what all calls have returned, in cooked mode
  hist : List Tty.Event
  returned : List Item

namespace Tty

def put (t : Tty) (ch : Byte) : Tty :=
  { t with
    buffer := Function.update t.buffer ((t.istart + t.icount) % TTY_IBLEN) ch
    icount := t.icount + 1 }

def cook (t : Tty) (ch : Byte) : Tty :=
  -- backspace or delete
  if ch = 8 ∨ ch = 0x7F then
    if t.icount < 1 then t else { t with icount := t.icount - 1 }
  -- newline
  else if ch = 10 then { t.put (if t.iflags.inlcr then 13 else ch) with idelim := true }
  -- carriage return
  else if ch = 13 then
    if t.iflags.igncr then t
    else { t.put (if t.iflags.icrnl then 10 else ch) with idelim := true }
  -- end of file
  else if ch = 4 then { t with ieof := true, idelim := true }
  else if ¬ isprint ch then t
  else t.put ch

def readLoop : List (Option Byte) → Tty → Tty × List (Option Byte) × Option Result
  | [], t => if t.icount < TTY_IBLEN ∧ ¬ t.idelim then (t, [], some .blocked) else (t, [], none)
  | ch :: rest, t =>
      if t.icount < TTY_IBLEN ∧ ¬ t.idelim then
        match ch with
        | none => (t, rest, some .error)
        | some ch => readLoop rest (cook { t with hist := t.hist ++ [.typed ch] } ch)
      else (t, ch :: rest, none)

def drain : Nat → Tty → Tty × List Byte
  | 0, t => (t, [])
  | n + 1, t =>
      if 0 < t.icount then
        let ch := t.buffer t.istart
        let (t, bytes) := drain n { t with icount := t.icount - 1, istart := (t.istart + 1) % TTY_IBLEN }
        (t, ch :: bytes)
      else (t, [])

def rawLoop : Nat → List (Option Byte) → List Byte → List (Option Byte) × Result
  | 0, input, bytes => (input, .data bytes)
  | _ + 1, [], _ => ([], .blocked)
  | _ + 1, none :: rest, _ => (rest, .error)
  | n + 1, some ch :: rest, bytes => rawLoop n rest (bytes ++ [ch])

def eof (t : Tty) : Tty :=
  { t with ieof := false, hist := t.hist ++ [.taken 1], returned := t.returned ++ [.eof] }

def ttyRead (t : Tty) (input : List (Option Byte)) (len : Nat) : Tty × List (Option Byte) × Result :=
  if ¬ t.phw then (t, input, .error)
  else if t.ieof then (t.eof, input, .eof)
  else if t.iflags.raw then
    let (t, bytes) := t.drain len
    let (input, result) := rawLoop (len - bytes.length) input bytes
    (t, input, result)
  else
    match readLoop input t with
    | (t, input, some stop) => (t, input, stop)
    | (t, input, none) =>
        let (t, bytes) := t.drain len
        let t := if t.icount = 0 then { t with idelim := false } else t
        if bytes = [] ∧ t.ieof then (t.eof, input, .eof)
        else
          ({ t with hist := t.hist ++ [.taken bytes.length], returned := t.returned ++ bytes.map .char },
            input, .data bytes)

structure Console where
  tty : Tty
  input : List (Option Byte)
  blocked : Bool

/-- After `ttyOpen`, with any flags. -/
def opened (iflags : Iflags) (input : List (Option Byte)) : Console :=
  { tty := { phw := true, iflags, ieof := false, idelim := false, buffer := fun _ => 0, istart := 0
             icount := 0, hist := [], returned := [] }
    input, blocked := false }

def step (len : Nat) (c : Console) : Option Console :=
  if c.blocked then none
  else
    let (tty, input, result) := c.tty.ttyRead c.input len
    some { tty, input, blocked := result = .blocked }

end Tty

end Xinu
