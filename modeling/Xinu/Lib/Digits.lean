import Mathlib.Data.Nat.Digits.Lemmas

namespace Xinu.Lib

def numeral (b n : Nat) : List Nat := if n = 0 then [0] else (Nat.digits b n).reverse

def value (b n : Nat) (ds : List Nat) : Nat := ds.foldl (fun n d => n * b + d) n

section
variable {b n d : Nat} {ds ds' : List Nat}

@[simp] theorem value_nil : value b n [] = n := rfl

@[simp] theorem value_cons : value b n (d :: ds) = value b (n * b + d) ds := rfl

theorem value_append : value b n (ds ++ ds') = value b (value b n ds) ds' := List.foldl_append

theorem value_zeros (k : Nat) : value b 0 (List.replicate k 0) = 0 := by
  induction k with
  | zero => rfl
  | succ k ih =>
      rw [List.replicate_succ, value_cons, Nat.zero_mul]
      exact ih

theorem value_numeral (b n : Nat) : value b 0 (numeral b n) = n := by
  rw [numeral]
  split
  · simp_all
  · rw [value, List.foldl_reverse]
    conv_rhs => rw [← Nat.ofDigits_digits b n, Nat.ofDigits_eq_foldr]
    congr 1
    funext d n
    rw [Nat.cast_id, Nat.mul_comm, Nat.add_comm]

theorem numeral_small (small : n < b) : numeral b n = [n] := by
  rw [numeral]
  split
  · simp_all
  · rename_i positive
    rw [Nat.digits_of_lt b n positive small, List.reverse_singleton]

theorem numeral_step (base : 1 < b) (large : n / b ≠ 0) : numeral b n = numeral b (n / b) ++ [n % b] := by
  have positive : n ≠ 0 := by
    intro zero
    exact large (by rw [zero, Nat.zero_div])
  rw [numeral, numeral, if_neg positive, if_neg large,
    Nat.digits_eq_cons_digits_div base positive, List.reverse_cons]

theorem numeral_digit (base : 1 < b) (member : d ∈ numeral b n) : d < b := by
  rw [numeral] at member
  split at member
  · have := List.mem_singleton.mp member
    omega
  · exact Nat.digits_lt_base base (List.mem_reverse.mp member)

theorem numeral_ne (b n : Nat) : numeral b n ≠ [] := by
  rw [numeral]
  split
  · exact List.cons_ne_nil _ _
  · rename_i positive
    exact List.reverse_ne_nil_iff.mpr (Nat.digits_ne_nil_iff_ne_zero.mpr positive)

theorem length_numeral (base : 1 < b) {k : Nat} (nonempty : 0 < k) : (numeral b n).length ≤ k ↔ n < b ^ k := by
  rw [numeral]
  split
  · rename_i zero
    have : 0 < b ^ k := Nat.pow_pos (by omega)
    rw [List.length_singleton]
    omega
  · rw [List.length_reverse]
    exact Nat.digits_length_le_iff base n

end

end Xinu.Lib
