import Xinu.System.Printf

namespace Xinu
open Lib (Byte)

def isspace (c : Byte) : Bool := (9 ≤ c ∧ c ≤ 13) ∨ c = 32
def isdigit (c : Byte) : Bool := 48 ≤ c ∧ c ≤ 57
def isupper (c : Byte) : Bool := 65 ≤ c ∧ c ≤ 90
def tolower (c : Byte) : Byte := if isupper c then c + 32 else c

namespace Scanf

abbrev UNLIMITED_LENGTH : Nat := 2 ^ 32 - 1
abbrev EOF : Int := -2

inductive Size
  | short
  | regular
  | long
  deriving DecidableEq, Repr

inductive Stored
  | number (size : Size) (n : BitVec 32)
  | bytes (s : List Byte)
  deriving DecidableEq, Repr

/-- What scanning one conversion gives: what is stored for it, if it matches, and the rest of the input. -/
structure Scan where
  matched : Option Stored
  rest : List Byte
  eof : Bool
  deriving DecidableEq, Repr

/-- The switch on the base, with the fall-through from hexadecimal to decimal to octal digits. -/
def digit (base : Nat) (c : Byte) : Option Nat :=
  let c := tolower c
  if base = 16 ∧ chr 'a' ≤ c ∧ c ≤ chr 'f' then some (0xA + (c.toNat - 97))
  else if (base = 16 ∨ base = 10) ∧ chr '8' ≤ c ∧ c ≤ chr '9' then some (c.toNat - 48)
  else if (base = 16 ∨ base = 10 ∨ base = 8) ∧ chr '0' ≤ c ∧ c ≤ chr '7' then some (c.toNat - 48)
  else none

def digitLoop (base maxlen : Nat) : List Byte → BitVec 32 → Nat → BitVec 32 × Nat × List Byte × Bool
  | [], n, len => (n, len, [], true)
  | c :: rest, n, len =>
      match digit base c with
      | none => (n, len, c :: rest, false)
      | some d =>
          let n := n * BitVec.ofNat 32 base + BitVec.ofNat 32 d
          if maxlen ≤ len + 1 then (n, len + 1, rest, false) else digitLoop base maxlen rest n (len + 1)

def scanNumber (base maxlen : Nat) (size : Size) (input : List Byte) : Scan :=
  let negative := input.head? = some (chr '-')
  let had_sign := input.head? = some (chr '-') ∨ input.head? = some (chr '+')
  let (n, len, rest, eof) :=
    if had_sign then digitLoop base maxlen input.tail 0 1 else digitLoop base maxlen input 0 0
  if len ≠ 0 ∧ ¬ (had_sign ∧ len = 1) then ⟨some (.number size (if negative then -n else n)), rest, eof⟩
  else ⟨none, rest, eof⟩

def stringLoop (stops : Byte → Bool) (maxlen : Nat) : List Byte → List Byte → List Byte × List Byte × Bool
  | [], s => (s, [], decide (s.length < maxlen))
  | c :: rest, s =>
      if maxlen ≤ s.length then (s, c :: rest, false)
      else if stops c then (s, c :: rest, false)
      else stringLoop stops maxlen rest (s ++ [c])

def scanString (type : Byte) (maxlen : Nat) (stopchar : Byte → Bool) (input : List Byte) : Scan :=
  let maxlen := if type = chr 'c' ∧ maxlen = UNLIMITED_LENGTH then 1 else maxlen
  let stops := fun c => (type = chr '[' ∧ stopchar c) ∨ (type = chr 's' ∧ isspace c)
  let (s, rest, eof) := stringLoop (fun c => decide (stops c)) maxlen input []
  if s.length ≠ 0 ∧ ¬ (type = chr 'c' ∧ s.length < maxlen) then ⟨some (.bytes s), rest, eof⟩
  else ⟨none, rest, eof⟩

def scan_number_or_string (type : Byte) (maxlen : Nat) (size : Size) (stopchar : Byte → Bool)
    (input : List Byte) : Scan :=
  if type = chr 'c' ∨ type = chr '[' then scanString type maxlen stopchar input
  else
    let input := input.dropWhile isspace
    if input = [] then ⟨none, [], true⟩
    else if type = chr 's' then scanString type maxlen stopchar input
    else scanNumber (if type = chr 'o' then 8 else if type = chr 'x' then 16 else 10) maxlen size input

/-- `build_stopchar_tab` behind the `'^'`: the characters of the set, and the rest of the format. -/
def stopchars : List Byte → Bool → List Byte → List Byte × List Byte
  | [], _, set => (set, [])
  | c :: fmt, first, set =>
      if c = chr ']' ∧ ¬ first then (set, fmt) else stopchars fmt false (set ++ [c])

def build_stopchar_tab (fmt : List Byte) : (Byte → Bool) × List Byte :=
  if fmt.head? = some (chr '^') then
    let (set, rest) := stopchars fmt.tail true []
    (fun c => decide (c ∈ set), rest)
  else
    let (set, rest) := stopchars fmt true []
    (fun c => decide (c ∉ set), rest)

def length : List Byte → Nat → Nat × List Byte
  | [], n => (n, [])
  | c :: fmt, n =>
      if isdigit c then length fmt ((n * 10 + (c.toNat - 48)) % 2 ^ 32) else (n, c :: fmt)

def modifier (fmt : List Byte) : Size × List Byte :=
  if fmt.head? = some (chr 'l') then (.long, fmt.tail)
  else if fmt.head? = some (chr 'h') then (.short, fmt.tail)
  else (.regular, fmt)

/-- A conversion specification behind its `'%'`: whether the assignment is suppressed, what the scan
gives, and the rest of the format. The format ends too early for `none`. -/
def conversion (fmt : List Byte) (input : List Byte) : Option (Bool × Scan × List Byte) :=
  let suppress := fmt.head? = some (chr '*')
  let fmt := if suppress then fmt.tail else fmt
  let (maxlen, fmt) := length fmt 0
  let maxlen := if maxlen = 0 then UNLIMITED_LENGTH else maxlen
  let (size, fmt) := modifier fmt
  match fmt with
  | [] => none
  | c :: fmt =>
      if c = chr '[' then
        let (stopchar, fmt) := build_stopchar_tab fmt
        some (suppress, scan_number_or_string c maxlen size stopchar input, fmt)
      else
        let size := if isupper c then .long else size
        some (suppress, scan_number_or_string (tolower c) maxlen size (fun _ => false) input, fmt)

structure Result where
  ret : Int
  stored : List Stored
  deriving DecidableEq, Repr

def ended (stored : List Stored) : Result := ⟨if stored = [] then EOF else stored.length, stored⟩

/-- The loop of `_doscan`, each round of which takes one character of the format at least. -/
def doscanLoop : Nat → List Byte → List Byte → List Stored → Result
  | 0, _, _, stored => ⟨stored.length, stored⟩
  | _ + 1, [], _, stored => ⟨stored.length, stored⟩
  | fuel + 1, ch :: fmt, input, stored =>
      if ch = chr '%' ∧ fmt.head? ≠ some (chr '%') then
        match conversion fmt input with
        | none => ⟨stored.length, stored⟩
        | some (suppress, scan, rest) =>
            match suppress, scan.matched with
            | false, some value =>
                let stored := stored ++ [value]
                if scan.eof then ended stored else doscanLoop fuel rest scan.rest stored
            | false, none => if scan.eof then ended stored else ⟨stored.length, stored⟩
            -- a number that is not assigned counts as no match, and neither stops the scan
            | true, _ => if scan.eof then ended stored else doscanLoop fuel rest scan.rest stored
      else
        let fmt' := if ch = chr '%' then fmt else ch :: fmt
        match fmt' with
        | [] => ⟨stored.length, stored⟩
        | ch :: fmt =>
            if isspace ch then
              let input := input.dropWhile isspace
              if input = [] then ended stored else doscanLoop fuel (fmt.dropWhile isspace) input stored
            else
              match input with
              | [] => ended stored
              | c :: input => if c = ch then doscanLoop fuel fmt input stored else ⟨stored.length, stored⟩

def sscanf (str format : List Byte) : Result := doscanLoop format.length format str []

end Scanf

end Xinu
