import Mathlib.Data.List.MinMax
import Mathlib.Order.MinMax

namespace Xinu.Lib

/-- The least index below `n` among those of the greatest rank, unless every rank is 0. -/
def FirstBest (rank : Nat → Nat) (n : Nat) : Option Nat → Prop
  | none => ∀ i, i < n → rank i = 0
  | some i => i < n ∧ 0 < rank i ∧ (∀ j, j < n → rank j ≤ rank i) ∧ ∀ j, j < i → rank j < rank i

variable {rank rank' : Nat → Nat} {n : Nat} {best : Option Nat}

def rankOf (rank : Nat → Nat) : Option Nat → Nat
  | none => 0
  | some i => rank i

theorem FirstBest.empty (rank : Nat → Nat) : FirstBest rank 0 none := by
  intro i bound
  omega

theorem FirstBest.rank_le (first : FirstBest rank n best) {i : Nat} (bound : i < n) : rank i ≤ rankOf rank best := by
  cases best with
  | none => exact Nat.le_of_eq (first i bound)
  | some j => exact first.2.2.1 i bound

theorem FirstBest.better (first : FirstBest rank n best) (better : rankOf rank best < rank n) :
    FirstBest rank (n + 1) (some n) := by
  have before (i : Nat) (bound : i < n) : rank i < rank n := Nat.lt_of_le_of_lt (first.rank_le bound) better
  refine ⟨by omega, by omega, ?_, before⟩
  intro j bound
  by_cases last : j = n
  · exact Nat.le_of_eq (congrArg rank last)
  · exact Nat.le_of_lt (before j (by omega))

theorem FirstBest.worse (first : FirstBest rank n best) (worse : rank n ≤ rankOf rank best) :
    FirstBest rank (n + 1) best := by
  cases best with
  | none =>
      intro i bound
      by_cases last : i = n
      · rw [last]
        exact Nat.eq_zero_of_le_zero worse
      · exact first i (by omega)
  | some i =>
      obtain ⟨within, positive, greatest, least⟩ := first
      refine ⟨by omega, positive, ?_, least⟩
      intro j bound
      by_cases last : j = n
      · exact last ▸ worse
      · exact greatest j (by omega)

theorem FirstBest.next (first : FirstBest rank n best) :
    FirstBest rank (n + 1) (if rankOf rank best < rank n then some n else best) := by
  split
  case isTrue better => exact first.better better
  case isFalse worse => exact first.worse (Nat.le_of_not_lt worse)

theorem rankOf_next : rankOf rank (if rankOf rank best < rank n then some n else best) =
    max (rankOf rank best) (rank n) := by
  split
  case isTrue better => exact (Nat.max_eq_right (Nat.le_of_lt better)).symm
  case isFalse worse => exact (Nat.max_eq_left (Nat.le_of_not_lt worse)).symm

theorem FirstBest.stop {m i : Nat} (first : FirstBest rank n (some i)) (within : n ≤ m)
    (top : ∀ j, rank j ≤ rank i) : FirstBest rank m (some i) :=
  ⟨Nat.lt_of_lt_of_le first.1 within, first.2.1, fun j _ => top j, first.2.2.2⟩

variable {α : Type*}

def tableRank (rank : α → Nat) (table : List α) (i : Nat) : Nat := table[i]?.elim 0 rank

def bestFrom (level : Nat → α → Nat) : Nat → Nat → Option Nat → List α → Option Nat
  | _, _, best, [] => best
  | i, l, best, x :: rest => bestFrom level (i + 1) (level l x) (if l < level l x then some i else best) rest

theorem bestFrom_firstBest {level : Nat → α → Nat} {value : α → Nat} (raised : ∀ l x, level l x = max l (value x))
    {i : Nat} {rest : List α} (first : FirstBest rank i best)
    (ahead : ∀ k, rank (i + k) = tableRank value rest k) :
    FirstBest rank (i + rest.length) (bestFrom level i (rankOf rank best) best rest) := by
  induction rest generalizing i best with
  | nil => exact first
  | cons x rest ih =>
      have here : rank i = value x := ahead 0
      have later (k : Nat) : rank (i + 1 + k) = tableRank value rest k := by
        rw [Nat.add_assoc, Nat.add_comm 1 k]
        exact ahead (k + 1)
      have update : (if rankOf rank best < max (rankOf rank best) (rank i) then some i else best) =
          if rankOf rank best < rank i then some i else best := by
        simp only [lt_max_iff, Nat.lt_irrefl, false_or]
      have next := ih first.next later
      rw [rankOf_next] at next
      rw [bestFrom, raised, ← here, update, List.length_cons, Nat.add_comm rest.length 1, ← Nat.add_assoc]
      exact next

theorem bestFrom_table {level : Nat → α → Nat} {value : α → Nat} (raised : ∀ l x, level l x = max l (value x))
    (table : List α) : FirstBest (tableRank value table) table.length (bestFrom level 0 0 none table) := by
  have ahead (k : Nat) : tableRank value table (0 + k) = tableRank value table k := by rw [Nat.zero_add]
  have scan := bestFrom_firstBest raised (.empty (tableRank value table)) ahead
  rwa [Nat.zero_add] at scan

theorem argmax_filter {f : α → Nat} {keep : α → Bool} {table : List α} {x : α} (found : table.argmax f = some x)
    (kept : keep x = true) : (table.filter keep).argmax f = some x := by
  induction table using List.reverseRecOn generalizing x with
  | nil => cases found
  | append_singleton table y ih =>
      rw [List.argmax_concat] at found
      rw [List.filter_append]
      cases before : table.argmax f with
      | none =>
          rw [List.argmax_eq_none] at before
          subst before
          simp only [List.argmax_nil, Option.some.injEq] at found
          subst found
          simp [kept]
      | some z =>
          simp only [before] at found
          split at found
          case isTrue better =>
            cases found
            have single : [y].filter keep = [y] := by simp [kept]
            rw [single, List.argmax_concat]
            cases rest : (table.filter keep).argmax f with
            | none => rfl
            | some w =>
                have member := (List.mem_filter.mp (List.argmax_mem rest)).1
                have less := Nat.lt_of_le_of_lt (List.le_of_mem_argmax member before) better
                simp only [if_pos less]
          case isFalse worse =>
            cases found
            have rest := ih before kept
            by_cases last : keep y = true
            · have single : [y].filter keep = [y] := by simp [last]
              rw [single, List.argmax_concat, rest]
              simp only [if_neg worse]
            · have gone : [y].filter keep = [] := by simp [last]
              rw [gone, List.append_nil, rest]

end Xinu.Lib
