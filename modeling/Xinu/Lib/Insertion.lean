import Mathlib.Data.List.TakeWhile

namespace Xinu.Lib

variable {α : Type*} {R : α → α → Prop} {p : α → Bool} {x : α} {l : List α}

theorem dropWhile_fails (sorted : l.Pairwise R)
    (down : ∀ u ∈ l, ∀ v ∈ l, R u v → p u = false → p v = false) :
    ∀ u ∈ l.dropWhile p, p u = false := by
  induction l with
  | nil => simp
  | cons a l ih =>
      obtain ⟨first, rest⟩ := List.pairwise_cons.mp sorted
      intro u member
      cases test : p a with
      | true =>
          rw [List.dropWhile_cons_of_pos test] at member
          exact ih rest (fun u on v on' => down u (.tail a on) v (.tail a on')) u member
      | false =>
          rw [List.dropWhile_cons_of_neg (by simp [test])] at member
          rcases List.mem_cons.mp member with rfl | later
          · exact test
          · exact down a (.head l) u (.tail a later) (first u later) test

theorem pairwise_insertion (sorted : l.Pairwise R) (before : ∀ u ∈ l, p u = true → R u x)
    (after : ∀ u ∈ l, p u = false → R x u)
    (down : ∀ u ∈ l, ∀ v ∈ l, R u v → p u = false → p v = false) :
    (l.takeWhile p ++ x :: l.dropWhile p).Pairwise R := by
  have split : (l.takeWhile p ++ l.dropWhile p).Pairwise R := by
    rwa [List.takeWhile_append_dropWhile]
  obtain ⟨low, high, across⟩ := List.pairwise_append.mp split
  have taken : ∀ u ∈ l.takeWhile p, u ∈ l ∧ p u = true := fun u on =>
    ⟨(List.takeWhile_prefix p).subset on, List.mem_takeWhile_imp on⟩
  have left : ∀ u ∈ l.dropWhile p, u ∈ l := fun u on => (List.dropWhile_suffix p).subset on
  refine List.pairwise_append.mpr ⟨low, List.pairwise_cons.mpr ⟨?_, high⟩, ?_⟩
  · exact fun u on => after u (left u on) (dropWhile_fails sorted down u on)
  · intro u on v on'
    rcases List.mem_cons.mp on' with rfl | later
    · exact before u (taken u on).1 (taken u on).2
    · exact across u on v later

end Xinu.Lib
