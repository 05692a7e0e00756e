import Mathlib.Algebra.BigOperators.Group.List.Basic
import Mathlib.Algebra.GroupWithZero.Nat
import Mathlib.Data.Set.BooleanAlgebra
import Mathlib.Order.CompletePartialOrder
import Mathlib.Order.Interval.Set.Basic

/-!
# Lists of intervals

A list of intervals that follow each other without touching is determined by the numbers in it.
-/

namespace Xinu.Lib

/-- The numbers in the intervals, each of which is given by its start and its length. -/
def covered (l : List (Nat × Nat)) : Set Nat := {a | ∃ c ∈ l, c.1 ≤ a ∧ a < c.1 + c.2}

structure Separate (l : List (Nat × Nat)) : Prop where
  apart : l.Pairwise fun c d => c.1 + c.2 < d.1
  positive : ∀ c ∈ l, 0 < c.2

variable {a : Nat} {c : Nat × Nat} {l l' : List (Nat × Nat)}

theorem mem_covered : a ∈ covered l ↔ ∃ c ∈ l, c.1 ≤ a ∧ a < c.1 + c.2 := Iff.rfl

@[simp] theorem covered_nil : covered [] = ∅ := by
  ext a
  simp [covered]

@[simp] theorem covered_cons : covered (c :: l) = Set.Ico c.1 (c.1 + c.2) ∪ covered l := by
  ext a
  simp [covered]

@[simp] theorem covered_append : covered (l ++ l') = covered l ∪ covered l' := by
  induction l with
  | nil => simp
  | cons c l ih => rw [List.cons_append, covered_cons, ih, covered_cons, Set.union_assoc]

theorem covered_perm (perm : l.Perm l') : covered l = covered l' := by
  ext a
  simp only [mem_covered, perm.mem_iff]

theorem Separate.tail (separate : Separate (c :: l)) : Separate l :=
  ⟨(List.pairwise_cons.mp separate.apart).2, fun d member => separate.positive d (.tail _ member)⟩

theorem Separate.behind (separate : Separate (c :: l)) (later : a ∈ covered l) : c.1 + c.2 < a := by
  obtain ⟨d, member, start, -⟩ := later
  exact Nat.lt_of_lt_of_le ((List.pairwise_cons.mp separate.apart).1 d member) start

theorem Separate.start_mem (separate : Separate (c :: l)) : c.1 ∈ covered (c :: l) :=
  ⟨c, .head _, Nat.le_refl _, Nat.lt_add_of_pos_right (separate.positive c (.head _))⟩

theorem Separate.start_le (separate : Separate (c :: l)) (member : a ∈ covered (c :: l)) : c.1 ≤ a := by
  rw [covered_cons] at member
  rcases member with own | later
  · exact own.1
  · have := separate.behind later
    omega

theorem Separate.end_notMem (separate : Separate (c :: l)) : c.1 + c.2 ∉ covered (c :: l) := by
  rw [covered_cons]
  rintro (own | later)
  · exact Nat.lt_irrefl _ own.2
  · exact Nat.lt_irrefl _ (separate.behind later)

theorem Separate.length_le {d : Nat × Nat} (separate : Separate (c :: l)) (same : covered (c :: l) = covered (d :: l'))
    (start : c.1 = d.1) : d.2 ≤ c.2 := by
  by_contra less
  apply separate.end_notMem
  rw [same]
  exact ⟨d, .head _, by omega, by omega⟩

theorem Separate.unique (separate : Separate l) (separate' : Separate l') (same : covered l = covered l') : l = l' := by
  induction l generalizing l' with
  | nil =>
      cases l' with
      | nil => rfl
      | cons d l' =>
          have start := separate'.start_mem
          rw [← same] at start
          exact absurd start (by simp)
  | cons c l ih =>
      cases l' with
      | nil =>
          have start := separate.start_mem
          rw [same] at start
          exact absurd start (by simp)
      | cons d l' =>
          have start : c.1 = d.1 := Nat.le_antisymm (separate.start_le (same ▸ separate'.start_mem))
            (separate'.start_le (same ▸ separate.start_mem))
          have length : c.2 = d.2 := Nat.le_antisymm (separate'.length_le same.symm start.symm)
            (separate.length_le same start)
          obtain rfl : c = d := Prod.ext start length
          have rest : covered l = covered l' := by
            ext a
            have outside : ∀ {m : List (Nat × Nat)}, Separate (c :: m) → a ∈ covered m → a ∉ Set.Ico c.1 (c.1 + c.2) :=
              fun separate later own => Nat.lt_asymm own.2 (separate.behind later)
            rw [covered_cons, covered_cons] at same
            constructor
            · intro later
              have member : a ∈ Set.Ico c.1 (c.1 + c.2) ∪ covered l' := same ▸ Or.inr later
              exact member.resolve_left (outside separate later)
            · intro later
              have member : a ∈ Set.Ico c.1 (c.1 + c.2) ∪ covered l := same.symm ▸ Or.inr later
              exact member.resolve_left (outside separate' later)
          rw [ih separate.tail separate'.tail rest]

def total (l : List (Nat × Nat)) : Nat := (l.map Prod.snd).sum

@[simp] theorem total_nil : total [] = 0 := rfl

@[simp] theorem total_cons : total (c :: l) = c.2 + total l := by
  rw [total, List.map_cons, List.sum_cons, total]

@[simp] theorem total_append : total (l ++ l') = total l + total l' := by
  rw [total, List.map_append, List.sum_append, total, total]

theorem total_le {lo hi : Nat} (sorted : l.Pairwise fun c d => c.1 + c.2 ≤ d.1)
    (bounds : ∀ c ∈ l, lo ≤ c.1 ∧ c.1 + c.2 ≤ hi) (range : lo ≤ hi) : lo + total l ≤ hi := by
  induction l generalizing lo with
  | nil => exact range
  | cons c l ih =>
      have own := bounds c (.head _)
      have later : c.1 + c.2 + total l ≤ hi := by
        refine ih (List.pairwise_cons.mp sorted).2 (fun d member => ⟨?_, (bounds d (.tail _ member)).2⟩) own.2
        exact (List.pairwise_cons.mp sorted).1 d member
      rw [total_cons]
      omega

end Xinu.Lib
