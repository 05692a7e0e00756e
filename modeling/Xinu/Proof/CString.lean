import Xinu.System.CString

namespace Xinu
open Lib (Byte)

def text (s : Nat → Byte) : Nat → List Byte
  | 0 => []
  | n + 1 => if s 0 = 0 then [] else s 0 :: text (after s) n

theorem strncmp_zero (s1 s2 : Nat → Byte) (n : Nat) : strncmp s1 s2 n = 0 ↔ text s1 n = text s2 n := by
  induction n generalizing s1 s2 with
  | zero => simp [strncmp, text]
  | succ n ih =>
      have same : ((s1 0).toNat : Int) - (s2 0).toNat = 0 ↔ s1 0 = s2 0 := by
        rw [← BitVec.toNat_inj]
        omega
      rw [strncmp, text, text]
      by_cases ended : s1 0 = 0
      · rw [if_pos (.inl ended), if_pos ended, same, ended]
        split
        · rename_i ended'
          simp [ended']
        · rename_i more
          exact ⟨fun zero => absurd zero.symm more, fun empty => nomatch empty⟩
      · rw [if_neg ended]
        by_cases differ : s1 0 = s2 0
        · have goes : ¬ (s1 0 = 0 ∨ s1 0 ≠ s2 0) := by
            rintro (zero | other)
            · exact ended zero
            · exact other differ
          rw [if_neg goes, if_neg (differ ▸ ended), ih, List.cons.injEq]
          simp [differ]
        · rw [if_pos (.inr differ), same]
          split
          · simp [differ]
          · simp [differ]

theorem strncpy_text (s : Nat → Byte) (n : Nat) :
    strncpy s n = text s n ++ List.replicate (n - (text s n).length) 0 := by
  induction n generalizing s with
  | zero => rfl
  | succ n ih =>
      rw [strncpy, text]
      split
      · rfl
      · rw [ih, List.cons_append, List.length_cons, Nat.add_sub_add_right]

theorem text_pointer (mem : Int → Byte) (a : Int) (n : Nat) :
    text (pointer mem a) n = (Lib.load mem a n).takeWhile (· ≠ 0) := by
  induction n generalizing a with
  | zero => rfl
  | succ n ih =>
      have first : pointer mem a 0 = mem a := by simp [pointer]
      have rest : after (pointer mem a) = pointer mem (a + 1) := by
        funext i
        simp only [after, pointer]
        congr 1
        omega
      rw [text, first, rest, ih, Lib.load_succ, List.takeWhile_cons]
      split
      · rename_i ended
        simp [ended]
      · rename_i more
        rw [if_pos (decide_eq_true more)]

theorem text_cstring {name : List Byte} (string : 0 ∉ name) (n : Nat) : text (cstring name) n = name.take n := by
  induction n generalizing name with
  | zero => rfl
  | succ n ih =>
      cases name with
      | nil => rfl
      | cons c rest =>
          rw [List.mem_cons, not_or] at string
          have more : cstring (c :: rest) 0 ≠ 0 := Ne.symm string.1
          rw [text, if_neg more, List.take_succ_cons]
          exact congrArg _ (ih string.2)

end Xinu
