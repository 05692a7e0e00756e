import Xinu.System.Tcp

namespace Xinu.Tcp
variable {a b c : Nat}

structure Modular (a b : Nat) : Prop where
  add : seqadd a b = (a + b) % 2 ^ 32
  diff : tcpSeqdiff (seqadd a b) a = b
  before : seqlt a (seqadd a b)
  behind : ¬ seqlt (seqadd a b) a
  assoc : ∀ c, b + c ≤ 65535 → seqadd (seqadd a b) c = seqadd a (b + c)

/-- The octets from `a` to `a + b` lie in one half of the sequence space and do not end at its last
number. -/
def OneHalf (a b : Nat) : Prop := a + b < 2 ^ 32 - 1 ∧ (a + b ≤ 2 ^ 31 - 1 ∨ 2 ^ 31 - 1 ≤ a)

theorem seqadd_eq (a b : Nat) : seqadd a b = (a + b) % 2 ^ 32 % (2 ^ 32 - 1) := rfl

theorem tcpSeqdiff_eq (first second : Nat) : tcpSeqdiff first second =
    if first < 2 ^ 31 - 1 ∧ 2 ^ 31 - 1 < second ∨ second < 2 ^ 31 - 1 ∧ 2 ^ 31 - 1 < first then
      (2 ^ 32 - 1 - first + second) % 2 ^ 32
    else (first + 2 ^ 32 - second) % 2 ^ 32 := by
  have middle : TCP_MAXSEQ / 2 = 2 ^ 31 - 1 := by decide
  have last : TCP_MAXSEQ = 2 ^ 32 - 1 := by decide
  rw [tcpSeqdiff, middle, last]
  split_ifs <;> first | rfl | omega

theorem seqadd_modular (exact : (a + b) % 2 ^ 32 ≠ 2 ^ 32 - 1) : seqadd a b = (a + b) % 2 ^ 32 := by
  have bound := Nat.mod_lt (a + b) (show 0 < 2 ^ 32 by decide)
  rw [seqadd_eq]
  apply Nat.mod_eq_of_lt
  omega

theorem seqadd_last (last : (a + b) % 2 ^ 32 = 2 ^ 32 - 1) : seqadd a b = 0 := by
  rw [seqadd_eq, last, Nat.mod_self]

theorem seqadd_modular_iff : seqadd a b = (a + b) % 2 ^ 32 ↔ (a + b) % 2 ^ 32 ≠ 2 ^ 32 - 1 := by
  constructor
  · intro modular last
    rw [seqadd_last last, last] at modular
    cases modular
  · exact seqadd_modular

theorem seqlt_seqadd (fits : a < 2 ^ 32) (positive : 0 < b) (short : b ≤ 65535) :
    seqlt a (seqadd a b) := by
  rw [seqlt, decide_eq_true_eq]
  by_cases last : (a + b) % 2 ^ 32 = 2 ^ 32 - 1
  · rw [seqadd_last last]
    omega
  · rw [seqadd_modular last]
    omega

theorem not_seqlt_seqadd (fits : a < 2 ^ 32) (short : b ≤ 65535) : ¬ seqlt (seqadd a b) a := by
  rw [seqlt, decide_eq_true_eq]
  by_cases last : (a + b) % 2 ^ 32 = 2 ^ 32 - 1
  · rw [seqadd_last last]
    omega
  · rw [seqadd_modular last]
    omega

theorem seqadd_assoc (exact : (a + b) % 2 ^ 32 ≠ 2 ^ 32 - 1) :
    seqadd (seqadd a b) c = seqadd a (b + c) := by
  rw [seqadd_modular exact, seqadd_eq, seqadd_eq, Nat.mod_add_mod, Nat.add_assoc]

theorem tcpSeqdiff_modular (fits : a < 2 ^ 32) (short : b ≤ 65535) (half : OneHalf a b) :
    tcpSeqdiff (seqadd a b) a = b := by
  obtain ⟨inside, half⟩ := half
  have next : seqadd a b = a + b := by
    rw [seqadd_modular] <;> omega
  rw [next, tcpSeqdiff_eq, if_neg (by omega)]
  omega

theorem oneHalf_of_modular (fits : a < 2 ^ 32) (positive : 0 < b) (short : b ≤ 65535)
    (add : seqadd a b = (a + b) % 2 ^ 32) (diff : tcpSeqdiff (seqadd a b) a = b) : OneHalf a b := by
  have exact := seqadd_modular_iff.mp add
  rw [add, tcpSeqdiff_eq] at diff
  have inside : a + b < 2 ^ 32 - 1 := by
    by_contra outside
    -- the sum has wrapped and `a` is in the upper half
    have wrapped : (a + b) % 2 ^ 32 = a + b - 2 ^ 32 := by omega
    rw [wrapped, if_pos (by omega)] at diff
    omega
  refine ⟨inside, ?_⟩
  by_contra across
  rw [Nat.mod_eq_of_lt (show a + b < 2 ^ 32 by omega), if_pos (by omega)] at diff
  omega

theorem sequence_modular (fits : a < 2 ^ 32) (positive : 0 < b) (short : b ≤ 65535) :
    Modular a b ↔ OneHalf a b := by
  constructor
  · intro modular
    exact oneHalf_of_modular fits positive short modular.add modular.diff
  · intro half
    have exact : (a + b) % 2 ^ 32 ≠ 2 ^ 32 - 1 := by
      have inside := half.1
      omega
    exact {
      add := seqadd_modular exact
      diff := tcpSeqdiff_modular fits short half
      before := seqlt_seqadd fits positive short
      behind := not_seqlt_seqadd fits short
      assoc := fun c _ => seqadd_assoc exact }

theorem sequence_modular_small : OneHalf 1000 500 ∧ Modular 1000 500 := by
  have half : OneHalf 1000 500 := by
    constructor
    · decide
    · exact Or.inl (by decide)
  exact ⟨half, (sequence_modular (by decide) (by decide) (by decide)).mpr half⟩

theorem sequence_not_modular :
    (seqadd 0x7FFFFF00 512 = 0x80000100 ∧ tcpSeqdiff 0x80000100 0x7FFFFF00 = 0xFFFFFDFF ∧
      ¬ Modular 0x7FFFFF00 512) ∧
    (seqadd 0xFFFFFFFE 1 = 0 ∧ seqadd (seqadd 0xFFFFFFFE 1) 1 = 1 ∧ seqadd 0xFFFFFFFE 2 = 0 ∧
      ¬ Modular 0xFFFFFFFE 1) := by
  constructor
  · refine ⟨by decide, by decide, ?_⟩
    intro modular
    have diff := modular.diff
    revert diff
    decide
  · refine ⟨by decide, by decide, by decide, ?_⟩
    intro modular
    have add := modular.add
    revert add
    decide

end Xinu.Tcp
