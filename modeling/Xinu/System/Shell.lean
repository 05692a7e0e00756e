import Xinu.Lib.Bytes
import Xinu.System.Config

namespace Xinu
open Lib (Byte)

abbrev SHELL_MAXTOK : Nat := 32

def isEndOfLine (c : Byte) : Prop := c = 0 ∨ c = 13 ∨ c = 10
def isQuote (c : Byte) : Prop := c = 34 ∨ c = 39
def isOtherSpecial (c : Byte) : Prop := c = 60 ∨ c = 62 ∨ c = 38
def isWhitespace (c : Byte) : Prop := c = 32 ∨ c = 9

instance (c : Byte) : Decidable (isEndOfLine c) := inferInstanceAs (Decidable (_ ∨ _))
instance (c : Byte) : Decidable (isQuote c) := inferInstanceAs (Decidable (_ ∨ _))
instance (c : Byte) : Decidable (isOtherSpecial c) := inferInstanceAs (Decidable (_ ∨ _))
instance (c : Byte) : Decidable (isWhitespace c) := inferInstanceAs (Decidable (_ ∨ _))

def isPlain (c : Byte) : Prop := ¬ isEndOfLine c ∧ ¬ isQuote c ∧ ¬ isOtherSpecial c ∧ ¬ isWhitespace c

instance (c : Byte) : Decidable (isPlain c) := inferInstanceAs (Decidable (_ ∧ _))

structure Lexer where
  i : Nat
  ntok : Nat
  -- what has been written to `tokbuf`, and the offsets in `tok`
  tokbuf : List Byte
  tok : List Nat

namespace Lexer

def copy (line : Nat → Byte) (s : Lexer) : Lexer := { s with i := s.i + 1, tokbuf := s.tokbuf ++ [line s.i] }

def skipLoop (line : Nat → Byte) (linelen : Nat) : Nat → Nat → Nat
  | 0, i => i
  | fuel + 1, i => if isWhitespace (line i) ∧ i < linelen then skipLoop line linelen fuel (i + 1) else i

def copyLoop (goes : Byte → Prop) [DecidablePred goes] (line : Nat → Byte) (linelen : Nat) : Nat → Lexer → Lexer
  | 0, s => s
  | fuel + 1, s => if goes (line s.i) ∧ s.i < linelen then copyLoop goes line linelen fuel (s.copy line) else s

def startToken (s : Lexer) : Lexer := { s with tok := s.tok ++ [s.tokbuf.length] }
def finishToken (s : Lexer) : Lexer := { s with ntok := s.ntok + 1, tokbuf := s.tokbuf ++ [0] }

def result (s : Lexer) (value : Int) : Option (Int × List Byte × List Nat) := some (value, s.tokbuf, s.tok)

def loop (line : Nat → Byte) (linelen : Nat) : Nat → Lexer → Option (Int × List Byte × List Nat)
  | 0, _ => none
  | fuel + 1, s =>
      if ¬ (s.i < linelen ∧ s.ntok < SHELL_MAXTOK) then s.result s.ntok
      else
        let s := { s with i := skipLoop line linelen linelen s.i }
        if isEndOfLine (line s.i) ∨ s.i ≥ linelen then s.result s.ntok
        else
          let s := s.startToken
          if isQuote (line s.i) then
            let quote := line s.i
            let s := copyLoop (fun c => quote ≠ c ∧ ¬ isEndOfLine c) line linelen linelen (s.copy line)
            if quote = line s.i then loop line linelen fuel (s.copy line).finishToken else s.result SYSERR
          else
            let s := s.copy line
            if isOtherSpecial (line (s.i - 1)) then loop line linelen fuel s.finishToken
            else
              let s := copyLoop isPlain line linelen linelen s
              if s.i ≥ linelen then s.result SYSERR else loop line linelen fuel s.finishToken

end Lexer

/-- What is returned, and what has been written to `tokbuf` and to `tok`. -/
def lexan (line : Nat → Byte) (linelen : Nat) : Option (Int × List Byte × List Nat) :=
  Lexer.loop line linelen (linelen + 1) ⟨0, 0, [], []⟩

end Xinu
