import Mathlib.Algebra.GroupWithZero.Nat
import Xinu.Lib.Bytes

namespace Xinu.Lib

/-- The words of a range, the first byte of each the high one. A byte that is left over is the high
one of a word. -/
def words : List Byte → List Nat
  | [] => []
  | [high] => [256 * high.toNat]
  | high :: low :: rest => (256 * high.toNat + low.toNat) :: words rest

/-- Add two words, with the carry at the end around. -/
def onesAdd (v w : Nat) : Nat := (v + w) % 65536 + (v + w) / 65536

def onesSum (ws : List Nat) : Nat := ws.foldr onesAdd 0

variable {v w : Nat} {ws : List Nat}

theorem onesAdd_lt (fst : v < 65536) (snd : w < 65536) : onesAdd v w < 65536 := by
  rw [onesAdd]
  omega

theorem onesAdd_mod : onesAdd v w % 65535 = (v + w) % 65535 := by
  rw [onesAdd]
  omega

theorem onesAdd_eq_zero : onesAdd v w = 0 ↔ v + w = 0 := by
  rw [onesAdd]
  omega

theorem onesSum_lt (bound : ∀ w ∈ ws, w < 65536) : onesSum ws < 65536 := by
  induction ws with
  | nil => exact Nat.zero_lt_succ _
  | cons w ws ih =>
      have rest := ih fun v member => bound v (List.mem_cons_of_mem w member)
      exact onesAdd_lt (bound w List.mem_cons_self) rest

theorem onesSum_mod : onesSum ws % 65535 = ws.sum % 65535 := by
  induction ws with
  | nil => rfl
  | cons w ws ih =>
      calc
        onesSum (w :: ws) % 65535 = (w + onesSum ws) % 65535 := onesAdd_mod
        _ = (w + ws.sum) % 65535 := by rw [Nat.add_mod, ih, ← Nat.add_mod]
        _ = (w :: ws).sum % 65535 := by rw [List.sum_cons]

theorem onesSum_eq_zero : onesSum ws = 0 ↔ ws.sum = 0 := by
  induction ws with
  | nil => exact Iff.rfl
  | cons w ws ih =>
      have added : onesSum (w :: ws) = 0 ↔ w + onesSum ws = 0 := onesAdd_eq_zero
      rw [added, List.sum_cons]
      omega

theorem words_lt (bytes : List Byte) : ∀ w ∈ words bytes, w < 65536 := by
  induction bytes using words.induct with
  | case1 =>
      intro w member
      cases member
  | case2 high =>
      intro w member
      have byte := high.isLt
      rw [words, List.mem_singleton] at member
      omega
  | case3 high low rest ih =>
      intro w member
      have fst := high.isLt
      have snd := low.isLt
      rw [words, List.mem_cons] at member
      rcases member with same | member
      · omega
      · exact ih w member

theorem ones_unique (fst : v < 65536) (snd : w < 65536) (same : v % 65535 = w % 65535)
    (zero : v = 0 ↔ w = 0) : v = w := by
  omega

end Xinu.Lib
