import Xinu.Lib.Chunked
import Xinu.System.Printf

namespace Xinu
open Lib

abbrev HTTP_WBLEN : Nat := 1024
abbrev HTTP_MAX_CHUNK : Nat := 5

/-- The control flags. -/
inductive Http.Flag
  | conclose | rqstend | chunked | waitonshell | awaitingrqst | endreadoutput | cleansed | clearwout | flushwout
  deriving DecidableEq, Repr

structure Http where
  alloc : Bool
  phw : Bool
  /-- The bytes of the intermediate buffer, of which there are `wcount`. -/
  wout : List Byte
  flags : Http.Flag → Bool
  closeall : Nat
  sent : List Byte

namespace Http

def httpControl (set : Bool) (flag : Flag) (web : Http) : Http :=
  if web.alloc then { web with flags := Function.update web.flags flag set } else web

def SHELL_PROMPT : List Byte := [chr 'x', chr 's', chr 'h']

def strstr : List Byte → List Byte → Option Nat
  | [], _ => none
  | c :: haystack, needle =>
      if c = 0 then none
      else if needle <+: c :: haystack then some 0
      else (strstr haystack needle).map (· + 1)

def cleanLoop : Nat → List Byte → Nat → Bool → List Byte × Bool
  | 0, buf, _, discovered => (buf, discovered)
  | fuel + 1, buf, start, discovered =>
      match strstr (buf.drop start) SHELL_PROMPT with
      | none => (buf, discovered)
      | some i =>
          let found := start + i
          let start := found + SHELL_PROMPT.length
          if buf.getD start 0 = chr '@' ∨ buf.getD start 0 = chr '$' then
            match strstr (buf.drop start) [chr ' '] with
            | none => cleanLoop fuel buf start discovered
            -- what follows the prompt moves to where the prompt is
            | some j => cleanLoop fuel (buf.take found ++ buf.drop (start + j)) start true
          else cleanLoop fuel buf start discovered

def cleanPrompts (web : Http) : Http :=
  if 4 < web.wout.length ∧ ¬ web.flags .cleansed then
    let (buf, discovered) := cleanLoop web.wout.length web.wout 0 false
    let web := httpControl true .cleansed { web with wout := buf }
    if discovered ∧ web.flags .waitonshell then httpControl false .waitonshell web else web
  else web

/-- `sprintf(webptr->out, "%x\r\n", n)`, as far as `strnlen` looks. -/
def chunkInfo (n : Nat) : List Byte :=
  (Printf.sprintf ([chr '%', chr 'x'] ++ crlf) [.int (BitVec.ofNat 32 n)]).1.take HTTP_MAX_CHUNK

def send (bytes : List Byte) (web : Http) : Http := { web with sent := web.sent ++ bytes }

def whenChunked (web : Http) (bytes : List Byte) : List Byte := if web.flags .chunked then bytes else []

def writeIntermediate (web : Http) : Http :=
  send (whenChunked web (chunkInfo web.wout.length) ++ (web.wout ++ whenChunked web crlf)) { web with wout := [] }

/-- Write a buffer that cannot fit in the intermediate buffer, from which no prompts are cleaned. -/
def writeImmediately (buffer : List Byte) (web : Http) : Http :=
  send (whenChunked web (chunkInfo buffer.length) ++ (buffer ++ whenChunked web crlf)) web

def place (buffer : List Byte) (web : Http) : Http :=
  cleanPrompts (httpControl false .cleansed { web with wout := web.wout ++ buffer })

def endpage : List Byte :=
  [60, 47, 112, 114, 101, 62, 60, 47, 116, 100, 62, 60, 47, 116, 114, 62, 60, 47, 116, 97, 98, 108, 101,
    62, 60, 33, 101, 110, 100, 32, 99, 111, 110, 116, 101, 110, 116, 62, 60, 47, 66, 79, 68, 89, 62,
    60, 47, 72, 84, 77, 76, 62]

def endOfPage (web : Http) : List Byte :=
  let d := [chr '%', chr 'x']
  let s := [chr '%', chr 's']
  if web.flags .chunked then
    (Printf.sprintf (d ++ (crlf ++ (s ++ (crlf ++ (d ++ (crlf ++ crlf))))))
      [.int (BitVec.ofNat 32 (endpage.length + 2)), .str (some endpage), .int 0]).1
  else (Printf.sprintf (s ++ (crlf ++ crlf)) [.str (some endpage)]).1

def endPage (web : Http) : Http :=
  let web :=
    if web.wout ≠ [] then
      send (whenChunked web (chunkInfo web.wout.length) ++ (web.wout ++ crlf)) { web with wout := [] }
    else web
  let web := send (endOfPage web) web
  let web := httpControl true .conclose (httpControl true .awaitingrqst { web with wout := [] })
  { web with closeall := web.closeall + 1 }

def httpWrite (buffer : List Byte) (web : Http) : Int × Http :=
  let len := buffer.length
  if ¬ web.phw then (SYSERR, web)
  else if web.flags .awaitingrqst then (0, web)
  else if web.flags .clearwout then (0, httpControl true .cleansed { web with wout := [] })
  else
    let (count, web) : Nat × Http :=
      if web.wout ≠ [] ∧ (web.flags .flushwout ∨ HTTP_WBLEN < (web.wout.length + len) % 2 ^ 32) then
        (len, writeIntermediate web)
      else (0, web)
    let (count, web) := if HTTP_WBLEN < len then (len, writeImmediately buffer web) else (count, web)
    let (count, web) := if 0 < len ∧ len ≤ HTTP_WBLEN then (len, place buffer web) else (count, web)
    (count, if ¬ web.flags .waitonshell ∧ web.flags .endreadoutput then endPage web else web)

end Http

end Xinu
