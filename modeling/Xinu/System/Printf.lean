import Xinu.Lib.Bytes
import Xinu.System.Config

namespace Xinu
open Lib (Byte)

def chr (c : Char) : Byte := BitVec.ofNat 8 c.toNat

abbrev LONG_BITS : Nat := 32

namespace Printf

def int (x : Int) : Int := Int.bmod x (2 ^ 32)

/-- A variadic argument. `NULL` is `none`. -/
inductive Arg
  | int (w : BitVec 32)
  | str (s : Option (List Byte))
  deriving DecidableEq, Repr

def digits_lc : List Byte := [48, 49, 50, 51, 52, 53, 54, 55, 56, 57, 97, 98, 99, 100, 101, 102]

def digits_uc : List Byte := [48, 49, 50, 51, 52, 53, 54, 55, 56, 57, 65, 66, 67, 68, 69, 70]

def base_to_nbits (base : Nat) : Nat := [0, 0, 1, 0, 2, 0, 0, 0, 3, 0, 0, 0, 0, 0, 0, 0, 4].getD base 0

def divisionLoop (digits : List Byte) (base : Nat) : Nat → Nat → List Byte → List Byte
  | 0, _, temp => temp
  | fuel + 1, num, temp =>
      let temp := digits.getD (num % base) 0 :: temp
      let num := num / base
      if num = 0 then temp else divisionLoop digits base fuel num temp

def maskLoop (digits : List Byte) (shift : Nat) : Nat → Nat → List Byte → List Byte
  | 0, _, temp => temp
  | fuel + 1, num, temp =>
      let mask := (1 <<< shift) - 1
      let temp := digits.getD (num &&& mask) 0 :: temp
      let num := num >>> shift
      if num = 0 then temp else maskLoop digits shift fuel num temp

def ulong_to_string (num : Nat) (base : Nat) (alt_digits : Bool) : List Byte :=
  let digits := if alt_digits then digits_uc else digits_lc
  if base_to_nbits base = 0 then divisionLoop digits base LONG_BITS num []
  else maskLoop digits (base_to_nbits base) LONG_BITS num []

/-- There is no room left in `temp` for `none`. -/
def divisionTemp (digits : List Byte) (base : Nat) : Nat → Nat → List Byte → Option (List Byte)
  | 0, _, _ => none
  | room + 1, num, temp =>
      let temp := temp ++ [digits.getD (num % base) 0]
      let num := num / base
      if num = 0 then some temp else divisionTemp digits base room num temp

def maskTemp (digits : List Byte) (shift : Nat) : Nat → Nat → List Byte → Option (List Byte)
  | 0, _, _ => none
  | room + 1, num, temp =>
      let mask := (1 <<< shift) - 1
      let temp := temp ++ [digits.getD (num &&& mask) 0]
      let num := num >>> shift
      if num = 0 then some temp else maskTemp digits shift room num temp

def reverseTemp (temp : List Byte) : Nat → List Byte → List Byte
  | 0, str => str ++ [temp.getD 0 0]
  | i + 1, str => reverseTemp temp i (str ++ [temp.getD (i + 1) 0])

def ulong_to_buffers (ALWAYS_USE_DIVISION : Bool) (num : Nat) (base : Nat) (alt_digits : Bool) :
    Option (List Byte × List Byte) :=
  let digits := if alt_digits then digits_uc else digits_lc
  let temp :=
    if ALWAYS_USE_DIVISION ∨ base_to_nbits base = 0 then divisionTemp digits base LONG_BITS num [0]
    else maskTemp digits (base_to_nbits base) LONG_BITS num [0]
  temp.map fun temp => (temp, reverseTemp temp (temp.length - 1) [])

inductive Size
  | shortShort
  | short
  | regular
  | long
  deriving DecidableEq, Repr

def flags : List Byte → Bool → Byte → Bool × Byte × List Byte
  | [], leftjust, pad_char => (leftjust, pad_char, [])
  | ch :: fmt, leftjust, pad_char =>
      if ch = chr '-' then flags fmt true pad_char
      else if ch = chr '0' then flags fmt leftjust (chr '0')
      else (leftjust, pad_char, ch :: fmt)

def number : List Byte → Int → Int × List Byte
  | [], n => (n, [])
  | ch :: fmt, n =>
      if chr '0' ≤ ch ∧ ch ≤ chr '9' then number fmt (int (int (n * 10) + (ch.toNat - 48)))
      else (n, ch :: fmt)

def nextInt : List Arg → BitVec 32 × List Arg
  | .int w :: args => (w, args)
  | args => (0, args.tail)

def nextStr : List Arg → Option (List Byte) × List Arg
  | .str s :: args => (s, args)
  | args => (none, args.tail)

def width (fmt : List Byte) (args : List Arg) (leftjust : Bool) : Int × Bool × List Byte × List Arg :=
  if fmt.head? = some (chr '*') then
    let (w, args) := nextInt args
    if w.toInt < 0 then (int (-w.toInt), true, fmt.tail, args) else (w.toInt, leftjust, fmt.tail, args)
  else
    let (fmin, fmt) := number fmt 0
    (fmin, leftjust, fmt, args)

def precision (fmt : List Byte) (args : List Arg) : Int × List Byte × List Arg :=
  if fmt.head? = some (chr '.') then
    let fmt := fmt.tail
    if fmt.head? = some (chr '*') then
      let (w, args) := nextInt args
      (w.toInt, fmt.tail, args)
    else
      let (prec, fmt) := number fmt 0
      (prec, fmt, args)
  else (-1, fmt, args)

def modifier (fmt : List Byte) : Size × List Byte :=
  if fmt.head? = some (chr 'l') then (.long, fmt.tail)
  else if fmt.head? = some (chr 'h') then
    let fmt := fmt.tail
    if fmt.head? = some (chr 'h') then (.shortShort, fmt.tail) else (.short, fmt)
  else (.regular, fmt)

/-- What comes out for the characters `str` of a conversion, which is numeric if `base` is not 0. -/
def field (leftjust : Bool) (pad_char : Byte) (fmin prec : Int) (base : Nat) (sign : List Byte)
    (str : List Byte) : List Byte :=
  let len_str : Int := if 0 ≤ prec ∧ base = 0 ∧ prec < str.length then prec else str.length
  let num_zeroes : Int := if 0 ≤ prec ∧ base ≠ 0 ∧ len_str < prec then prec - len_str else 0
  let pad_char := if 0 ≤ prec ∧ base ≠ 0 then chr ' ' else pad_char
  let len_nonpadding := int (len_str + num_zeroes + sign.length)
  let len_padding := if len_nonpadding < fmin then int (fmin - len_nonpadding) else 0
  let (num_zeroes, len_padding) :=
    if ¬ leftjust ∧ pad_char = chr '0' then (len_padding, 0) else (num_zeroes, len_padding)
  let padding := List.replicate len_padding.toNat pad_char
  (if leftjust then [] else padding) ++ sign ++ List.replicate num_zeroes.toNat (chr '0') ++
    str.take len_str.toNat ++ (if leftjust then padding else [])

def unsigned (conv : Byte) : Option (Nat × Bool) :=
  if conv = chr 'u' then some (10, false)
  else if conv = chr 'o' then some (8, false)
  else if conv = chr 'x' then some (16, false)
  else if conv = chr 'X' then some (16, true)
  else if conv = chr 'b' then some (2, false)
  else none

def convert (conv : Byte) (args : List Arg) : Option (List Byte × Nat × List Byte) × List Arg :=
  if conv = chr 'c' then
    let (w, args) := nextInt args
    -- the character ends at its own `'\0'`
    (some ([w.truncate 8].takeWhile (· ≠ 0), 0, []), args)
  else if conv = chr 's' then
    let (s, args) := nextStr args
    (some (s.getD [40, 110, 117, 108, 108, 41], 0, []), args)
  else if conv = chr 'd' then
    let (larg, args) := nextInt args
    if larg.toInt < 0 then (some (ulong_to_string (-larg).toNat 10 false, 10, [chr '-']), args)
    else (some (ulong_to_string larg.toNat 10 false, 10, []), args)
  else
    match unsigned conv with
    | some (base, alt_digits) =>
        let (ularg, args) := nextInt args
        (some (ulong_to_string ularg.toNat base alt_digits, base, []), args)
    | none => (none, args)

/-- A conversion specification behind its `'%'`: what comes out, or `none` if it is unknown. -/
def conversion (fmt : List Byte) (args : List Arg) : Option (List Byte) × List Byte × List Arg :=
  let (leftjust, pad_char, fmt) := flags fmt false (chr ' ')
  let (fmin, leftjust, fmt, args) := width fmt args leftjust
  let pad_char := if leftjust then chr ' ' else pad_char
  let (prec, fmt, args) := precision fmt args
  let (_, fmt) := modifier fmt
  match fmt with
  | [] => (none, [], args)
  | conv :: fmt =>
      let (converted, args) := convert conv args
      (converted.map fun (str, base, sign) => field leftjust pad_char fmin prec base sign str, fmt, args)

/-- The loop of `_doprnt`, each round of which takes one character of the format at least. -/
def doprntLoop : Nat → List Byte → List Arg → List Byte → List Byte
  | 0, _, _, out => out
  | _ + 1, [], _, out => out
  | fuel + 1, ch :: fmt, args, out =>
      if ch = chr '%' then
        if fmt.head? = some (chr '%') then doprntLoop fuel fmt.tail args (out ++ [chr '%'])
        else
          match conversion fmt args with
          | (some bytes, rest, args) => doprntLoop fuel rest args (out ++ bytes)
          | (none, _, args) => doprntLoop fuel fmt args (out ++ [chr '%'])
      else doprntLoop fuel fmt args (out ++ [ch])

def doprnt (fmt : List Byte) (args : List Arg) : List Byte := doprntLoop fmt.length fmt args []

def sprintf (format : List Byte) (args : List Arg) : List Byte × Int :=
  let str := doprnt format args
  (str, int str.length)

end Printf

end Xinu
