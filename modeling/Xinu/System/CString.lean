import Xinu.Lib.Bytes

namespace Xinu
open Lib (Byte)

def after (s : Nat → Byte) : Nat → Byte := fun i => s (i + 1)

def strncmp (s1 s2 : Nat → Byte) : Nat → Int
  | 0 => 0
  | n + 1 =>
      if s1 0 = 0 ∨ s1 0 ≠ s2 0 then (s1 0).toNat - (s2 0).toNat
      else strncmp (after s1) (after s2) n

/-- What `strncpy` puts at the destination. -/
def strncpy (src : Nat → Byte) : Nat → List Byte
  | 0 => []
  | n + 1 => if src 0 = 0 then List.replicate (n + 1) 0 else src 0 :: strncpy (after src) n

def cstring (text : List Byte) : Nat → Byte := fun i => text.getD i 0

def pointer (mem : Int → Byte) (a : Int) : Nat → Byte := fun i : Nat => mem (a + i)

end Xinu
