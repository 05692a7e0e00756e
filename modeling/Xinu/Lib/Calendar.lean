import Mathlib.Order.Basic

namespace Xinu.Lib

def before (f : Nat → Nat) : Nat → Nat
  | 0 => 0
  | n + 1 => before f n + f n

section
variable {f : Nat → Nat} {m n d : Nat}

theorem before_le (le : m ≤ n) : before f m ≤ before f n := by
  induction le with
  | refl => exact Nat.le_refl _
  | step _ ih => exact Nat.le_trans ih (Nat.le_add_right _ _)

theorem exists_place (positive : ∀ n, 0 < f n) (d : Nat) : ∃ n, before f n ≤ d ∧ d < before f (n + 1) := by
  induction d with
  | zero => exact ⟨0, Nat.zero_le _, Nat.lt_of_lt_of_le (positive 0) (Nat.le_add_left _ _)⟩
  | succ d ih =>
      obtain ⟨n, low, high⟩ := ih
      by_cases last : d + 1 < before f (n + 1)
      · exact ⟨n, Nat.le_succ_of_le low, last⟩
      · refine ⟨n + 1, Nat.le_of_not_lt last, ?_⟩
        have := positive (n + 1)
        rw [before]
        omega

theorem place_unique (low : before f m ≤ d) (high : d < before f (m + 1)) (low' : before f n ≤ d) (high' : d < before f (n + 1)) :
    m = n := by
  rcases Nat.lt_trichotomy m n with less | eq | more
  · have := before_le (f := f) (show m + 1 ≤ n from less)
    omega
  · exact eq
  · have := before_le (f := f) (show n + 1 ≤ m from more)
    omega

end

def Leap (year : Nat) : Prop := year % 4 = 0 ∧ (year % 100 ≠ 0 ∨ year % 400 = 0)

instance (year : Nat) : Decidable (Leap year) := inferInstanceAs (Decidable (_ ∧ _))

def yearLength (year : Nat) : Nat := if Leap year then 366 else 365

def monthLength (year : Nat) : Nat → Nat
  | 1 => if Leap year then 29 else 28
  | 3 | 5 | 8 | 10 => 30
  | _ => 31

theorem yearLength_pos (year : Nat) : 0 < yearLength year := by
  rw [yearLength]
  split <;> decide

theorem before_months (year : Nat) : before (monthLength year) 12 = yearLength year := by
  simp only [before, monthLength, yearLength]
  split <;> rfl

structure Date where
  year : Nat
  month : Nat
  day : Nat
  deriving DecidableEq

namespace Date
variable {epoch : Nat} {a b : Date}

structure Valid (epoch : Nat) (a : Date) : Prop where
  month : a.month < 12
  day : a.day < monthLength (epoch + a.year) a.month

def yearday (epoch : Nat) (a : Date) : Nat := before (monthLength (epoch + a.year)) a.month + a.day

def years (epoch : Nat) (n : Nat) : Nat := before (fun n => yearLength (epoch + n)) n

def number (epoch : Nat) (a : Date) : Nat := years epoch a.year + a.yearday epoch

def next (epoch : Nat) (a : Date) : Date :=
  if a.day + 1 < monthLength (epoch + a.year) a.month then ⟨a.year, a.month, a.day + 1⟩
  else if a.month < 11 then ⟨a.year, a.month + 1, 0⟩
  else ⟨a.year + 1, 0, 0⟩

theorem Valid.yearday_lt (valid : Valid epoch a) : a.yearday epoch < yearLength (epoch + a.year) := by
  have behind := before_le (f := monthLength (epoch + a.year)) (Nat.succ_le_of_lt valid.month)
  rw [before_months, before] at behind
  have := valid.day
  rw [yearday]
  omega

theorem next_spec (valid : Valid epoch a) : Valid epoch (a.next epoch) ∧ (a.next epoch).number epoch = a.number epoch + 1 := by
  rw [next]
  split
  · rename_i more
    exact ⟨⟨valid.month, more⟩, rfl⟩
  · rename_i last
    have last : a.day + 1 = monthLength (epoch + a.year) a.month := Nat.le_antisymm valid.day (Nat.le_of_not_lt last)
    split
    · rename_i inner
      refine ⟨⟨Nat.succ_lt_succ inner, ?_⟩, ?_⟩
      · simp only [monthLength]
        split <;> first | (split <;> decide) | decide
      · simp only [number, yearday, before]
        omega
    · rename_i outer
      have december : a.month = 11 := Nat.le_antisymm (Nat.le_of_lt_succ valid.month) (Nat.le_of_not_lt outer)
      refine ⟨⟨Nat.succ_pos 11, Nat.succ_pos 30⟩, ?_⟩
      have whole := before_months (epoch + a.year)
      rw [before, ← december, ← last] at whole
      simp only [number, yearday, years, before]
      omega

theorem unique (valid : Valid epoch a) (valid' : Valid epoch b) (same : a.number epoch = b.number epoch) : a = b := by
  obtain ⟨y, m, d⟩ := a
  obtain ⟨y', m', d'⟩ := b
  have inside := valid.yearday_lt
  have inside' := valid'.yearday_lt
  simp only [number] at same inside inside'
  obtain rfl : y = y' := by
    apply place_unique (f := fun n => yearLength (epoch + n)) (d := years epoch y + yearday epoch ⟨y, m, d⟩)
    · exact Nat.le_add_right _ _
    · exact Nat.add_lt_add_left inside _
    · rw [same]
      exact Nat.le_add_right _ _
    · rw [same]
      exact Nat.add_lt_add_left inside' _
  have days := Nat.add_left_cancel same
  obtain rfl : m = m' := by
    apply place_unique (f := monthLength (epoch + y)) (d := yearday epoch ⟨y, m, d⟩)
    · exact Nat.le_add_right _ _
    · exact Nat.add_lt_add_left valid.day _
    · rw [days]
      exact Nat.le_add_right _ _
    · rw [days]
      exact Nat.add_lt_add_left valid'.day _
  exact congrArg _ (Nat.add_left_cancel days)

end Date

end Xinu.Lib
