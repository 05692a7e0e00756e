import Mathlib.Data.List.Basic

namespace Xinu.Lib

structure Sem where
  count : Int
  queue : List Nat
  deriving DecidableEq, Repr

namespace Sem

def wait (s : Sem) (t : Nat) : Sem × Bool :=
  if s.count - 1 < 0 then (⟨s.count - 1, s.queue ++ [t]⟩, true) else (⟨s.count - 1, s.queue⟩, false)

def signal (s : Sem) : Sem × Option Nat :=
  if s.count < 0 then (⟨s.count + 1, s.queue.tail⟩, s.queue.head?) else (⟨s.count + 1, s.queue⟩, none)

def Valid (s : Sem) : Prop := s.queue.length = (-s.count).toNat

def units (s : Sem) : Nat := s.count.toNat

variable {s s' : Sem} {t : Nat}

theorem wait_valid (valid : s.Valid) : (s.wait t).1.Valid := by
  simp only [Valid, wait] at valid ⊢
  split
  · simp only [List.length_append, List.length_singleton]
    omega
  · simp only
    omega

theorem wait_snd (s : Sem) (t : Nat) : (s.wait t).2 = true ↔ ¬ 0 < s.count := by
  rw [wait]
  split <;> simp <;> omega

theorem wait_passes (passes : (s.wait t).2 = false) :
    (s.wait t).1.queue = s.queue ∧ (s.wait t).1.units + 1 = s.units := by
  simp only [wait, units] at passes ⊢
  split at passes
  · cases passes
  · rename_i enough
    rw [if_neg enough]
    refine ⟨rfl, ?_⟩
    simp only
    omega

theorem wait_blocks (blocks : (s.wait t).2 = true) :
    (s.wait t).1.queue = s.queue ++ [t] ∧ (s.wait t).1.units = 0 ∧ s.units = 0 := by
  simp only [wait, units] at blocks ⊢
  split at blocks
  · rename_i short
    rw [if_pos short]
    refine ⟨rfl, ?_, ?_⟩
    · simp only
      omega
    · omega
  · cases blocks

theorem signal_valid (valid : s.Valid) : s.signal.1.Valid := by
  simp only [Valid, signal] at valid ⊢
  split
  · simp only [List.length_tail]
    omega
  · simp only
    omega

theorem signal_cases (valid : s.Valid) :
    (∃ t, s.queue = t :: s.signal.1.queue ∧ s.signal.2 = some t ∧ s.signal.1.units = s.units) ∨
      (s.queue = [] ∧ s.signal.1.queue = [] ∧ s.signal.2 = none ∧ s.signal.1.units = s.units + 1) := by
  simp only [Valid, signal, units] at valid ⊢
  by_cases waiting : s.count < 0
  · left
    simp only [if_pos waiting]
    cases queue : s.queue with
    | nil =>
        rw [queue, List.length_nil] at valid
        omega
    | cons t rest =>
        refine ⟨t, rfl, rfl, ?_⟩
        omega
  · right
    simp only [if_neg waiting]
    have empty : s.queue = [] := by
      apply List.eq_nil_of_length_eq_zero
      omega
    refine ⟨empty, empty, trivial, ?_⟩
    omega

end Sem

end Xinu.Lib
