import Xinu.Proof.Printf

namespace Xinu.Printf
open Lib

section
variable {base num room : Nat}

theorem divisionTemp_numeral (large : 1 < base) (digits temp : List Byte) (bound : num < base ^ room) (positive : 0 < room) :
    divisionTemp digits base room num temp =
      some (temp ++ ((numeral base num).map fun d => digits.getD d 0).reverse) := by
  induction room generalizing num temp with
  | zero => omega
  | succ room ih =>
      rw [divisionTemp]
      by_cases last : num / base = 0
      · have small : num < base := (Nat.div_eq_zero_iff_lt (by omega)).mp last
        simp only [last, if_true, Nat.mod_eq_of_lt small, numeral_small small]
        rfl
      · have bound' : num / base < base ^ room := Nat.div_lt_of_lt_mul (by rwa [Nat.mul_comm, ← Nat.pow_succ])
        have positive' : 0 < room := by
          by_contra zero
          have : room = 0 := by omega
          rw [this, Nat.pow_zero] at bound'
          exact last (Nat.lt_one_iff.mp bound')
        simp only [last, if_false]
        rw [ih _ bound' positive', numeral_step large last, List.map_append, List.reverse_append, List.append_assoc]
        rfl

theorem maskTemp_division (digits temp : List Byte) (shift room num : Nat) :
    maskTemp digits shift room num temp = divisionTemp digits (2 ^ shift) room num temp := by
  induction room generalizing num temp with
  | zero => rfl
  | succ room ih =>
      simp only [maskTemp, divisionTemp, Nat.one_shiftLeft, Nat.and_two_pow_sub_one_eq_mod, Nat.shiftRight_eq_div_pow, ih]

theorem reverseTemp_eq (temp str : List Byte) (i : Nat) (inside : i < temp.length) :
    reverseTemp temp i str = str ++ (temp.take (i + 1)).reverse := by
  induction i generalizing str with
  | zero =>
      cases temp with
      | nil => exact nomatch inside
      | cons c temp => rfl
  | succ i ih =>
      rw [reverseTemp, ih _ (by omega), List.take_succ_eq_append_getElem inside, List.reverse_append, List.append_assoc,
        List.getD_eq_getElem _ _ inside]
      rfl

end

theorem ulong_to_buffers_division (ALWAYS_USE_DIVISION : Bool) (num : Nat) {base : Nat}
    (bases : base = 2 ∨ base = 8 ∨ base = 10 ∨ base = 16) (alt_digits : Bool) :
    ulong_to_buffers ALWAYS_USE_DIVISION num base alt_digits =
      (divisionTemp (digits alt_digits) base LONG_BITS num [0]).map fun temp =>
        (temp, reverseTemp temp (temp.length - 1) []) := by
  have two : base_to_nbits 2 = 1 := rfl
  have eight : base_to_nbits 8 = 3 := rfl
  have ten : base_to_nbits 10 = 0 := rfl
  have sixteen : base_to_nbits 16 = 4 := rfl
  cases ALWAYS_USE_DIVISION with
  | true => simp only [ulong_to_buffers, true_or, if_true, digits]
  | false =>
      rcases bases with rfl | rfl | rfl | rfl
      · simp only [ulong_to_buffers, two, Bool.false_eq_true, false_or, one_ne_zero, if_false, digits, maskTemp_division,
          Nat.pow_one]
      · simp only [ulong_to_buffers, eight, Bool.false_eq_true, false_or, OfNat.ofNat_ne_zero, if_false, digits,
          maskTemp_division, Nat.reducePow]
      · simp only [ulong_to_buffers, ten, or_true, if_true, digits]
      · simp only [ulong_to_buffers, sixteen, Bool.false_eq_true, false_or, OfNat.ofNat_ne_zero, if_false, digits,
          maskTemp_division, Nat.reducePow]

theorem ulong_to_buffers_digits (ALWAYS_USE_DIVISION : Bool) (num : BitVec 32) {base : Nat}
    (bases : base = 2 ∨ base = 8 ∨ base = 10 ∨ base = 16) (alt_digits : Bool) :
    ∃ temp, ulong_to_buffers ALWAYS_USE_DIVISION num.toNat base alt_digits =
        some (temp, ((numeral base num.toNat).map fun d => (digits alt_digits).getD d 0) ++ [0]) ∧
      temp.length = (numeral base num.toNat).length + 1 := by
  have large : 1 < base := by omega
  have fits : num.toNat < base ^ LONG_BITS := Nat.lt_of_lt_of_le num.isLt (Nat.pow_le_pow_left large 32)
  rw [ulong_to_buffers_division ALWAYS_USE_DIVISION num.toNat bases, divisionTemp_numeral large _ _ fits (by decide)]
  refine ⟨_, congrArg some (Prod.ext rfl ?_), ?_⟩
  · simp only
    rw [reverseTemp_eq _ _ _ (by simp), List.nil_append, Nat.sub_add_cancel (by simp), List.take_length,
      List.reverse_append, List.reverse_reverse]
    rfl
  · rw [List.length_append, List.length_reverse, List.length_map, List.length_singleton, Nat.add_comm]

/-- Both ways to the digits write the same canonical numeral, and both buffers are large enough. -/
theorem ulong_to_buffers_numeral (ALWAYS_USE_DIVISION : Bool) (num : BitVec 32) {base : Nat}
    (bases : base = 2 ∨ base = 8 ∨ base = 10 ∨ base = 16) (alt_digits : Bool) :
    ∃ temp str, ulong_to_buffers ALWAYS_USE_DIVISION num.toNat base alt_digits = some (temp, str) ∧
      temp.length ≤ LONG_BITS + 1 ∧ str.length ≤ LONG_BITS + 1 ∧
      str = ((numeral base num.toNat).map fun d => (digits alt_digits).getD d 0) ++ [0] := by
  have large : 1 < base := by omega
  have fits : num.toNat < base ^ LONG_BITS := Nat.lt_of_lt_of_le num.isLt (Nat.pow_le_pow_left large 32)
  have few := (length_numeral large (by decide : 0 < LONG_BITS)).mpr fits
  obtain ⟨temp, same, length⟩ := ulong_to_buffers_digits ALWAYS_USE_DIVISION num bases alt_digits
  refine ⟨temp, _, same, by omega, ?_, rfl⟩
  rw [List.length_append, List.length_map, List.length_singleton]
  omega

theorem ulong_to_buffers_full : ∃ temp str, ulong_to_buffers false (BitVec.toNat 0xFFFFFFFF#32) 2 false = some (temp, str) ∧
    temp.length = LONG_BITS + 1 ∧ str = List.replicate 32 49 ++ [0] := by
  obtain ⟨temp, str, same, -, -, -⟩ := ulong_to_buffers_numeral false 0xFFFFFFFF#32 (.inl rfl : (2 : Nat) = 2 ∨ _) false
  refine ⟨temp, str, same, ?_⟩
  have run : (ulong_to_buffers false (BitVec.toNat 0xFFFFFFFF#32) 2 false).map (fun x => (x.1.length, x.2)) =
      some (LONG_BITS + 1, List.replicate 32 49 ++ [0]) := by decide +kernel
  rw [same] at run
  have both := Prod.mk.inj (Option.some.inj run)
  exact both

theorem ulong_to_buffers_string (num : BitVec 32) {base : Nat} (bases : base = 10 ∨ base = 8 ∨ base = 16) (alt_digits : Bool) :
    ∃ temp, ulong_to_buffers false num.toNat base alt_digits =
      some (temp, ulong_to_string num.toNat base alt_digits ++ [0]) := by
  have bases' : base = 2 ∨ base = 8 ∨ base = 10 ∨ base = 16 := by omega
  obtain ⟨temp, same, -⟩ := ulong_to_buffers_digits false num bases' alt_digits
  rw [← ulong_to_string_numeral bases alt_digits num.isLt] at same
  exact ⟨temp, same⟩

end Xinu.Printf
