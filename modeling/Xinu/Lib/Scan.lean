import Mathlib.Data.List.Basic
import Mathlib.Data.List.Nodup
import Mathlib.Logic.Function.Basic
import Mathlib.Order.Interval.Finset.Nat

namespace Xinu.Lib

def probe (p : Nat → Bool) (lo hi : Nat) : Nat → Nat → Nat × Bool
  | 0, i => (i, false)
  | n + 1, i =>
      if p i then (i, true) else probe p lo hi n (if i + 1 ≥ hi then lo else i + 1)

def probes (p : Nat → Bool) (lo hi n : Nat) : Nat → Nat → List Nat
  | 0, _ => []
  | m + 1, i =>
      match probe p lo hi n i with
      | (b, true) => b :: probes (Function.update p b false) lo hi n m b
      | (_, false) => []

section
variable {p : Nat → Bool} {lo hi : Nat}

theorem probe_free {n i : Nat} (found : (probe p lo hi n i).2 = true) :
    p (probe p lo hi n i).1 = true := by
  induction n generalizing i with
  | zero => simp [probe] at found
  | succ n ih =>
      simp only [probe] at found ⊢
      split at found
      · rename_i here
        simp [here]
      · rename_i taken
        simpa [taken] using ih found

theorem probe_within {n i : Nat} (start : lo ≤ i ∧ i < hi) :
    lo ≤ (probe p lo hi n i).1 ∧ (probe p lo hi n i).1 < hi := by
  induction n generalizing i with
  | zero => simpa [probe] using start
  | succ n ih =>
      simp only [probe]
      split
      · exact start
      · apply ih
        split <;> omega

theorem probe_stays {n i : Nat} (start : lo ≤ i ∧ i < max hi (lo + 1)) :
    lo ≤ (probe p lo hi n i).1 ∧ (probe p lo hi n i).1 < max hi (lo + 1) := by
  induction n generalizing i with
  | zero => simpa [probe] using start
  | succ n ih =>
      simp only [probe]
      split
      · exact start
      · apply ih
        split <;> omega

theorem probe_straight {n i : Nat} (short : i + n ≤ hi) (found : (probe p lo hi n i).2 = true) :
    i ≤ (probe p lo hi n i).1 := by
  induction n generalizing i with
  | zero => exact nomatch found
  | succ n ih =>
      simp only [probe] at found ⊢
      split
      · exact Nat.le_refl _
      · rename_i taken
        rw [if_neg taken] at found
        cases n with
        | zero => exact nomatch found
        | succ n =>
            rw [if_neg (by omega)] at found ⊢
            exact Nat.le_of_succ_le (ih (by omega) found)

theorem probe_ahead {n i j : Nat} (ahead : i ≤ j) (bound : j < hi) (place : p j = true)
    (long : j - i < n) : (probe p lo hi n i).2 = true := by
  induction n generalizing i with
  | zero => omega
  | succ n ih =>
      simp only [probe]
      split
      · rfl
      · rename_i taken
        have : i ≠ j := fun same => taken (same ▸ place)
        rw [if_neg (by omega)]
        exact ih (by omega) (by omega)

theorem probe_around {n i j : Nat} (low : lo ≤ j) (behind : j < i) (bound : i < hi)
    (place : p j = true) (long : (hi - i) + (j - lo) < n) :
    (probe p lo hi n i).2 = true := by
  induction n generalizing i with
  | zero => omega
  | succ n ih =>
      simp only [probe]
      split
      · rfl
      · by_cases wrap : i + 1 ≥ hi
        · rw [if_pos wrap]
          exact probe_ahead low (by omega) place (by omega)
        · rw [if_neg wrap]
          exact ih (by omega) (by omega) (by omega)

theorem probe_complete {n i j : Nat} (start : lo ≤ i ∧ i < hi) (low : lo ≤ j) (high : j < hi)
    (place : p j = true) (long : hi - lo ≤ n) : (probe p lo hi n i).2 = true := by
  by_cases ahead : i ≤ j
  · exact probe_ahead ahead high place (by omega)
  · exact probe_around low (by omega) start.2 place (by omega)

theorem probes_spec {n m i b : Nat} (start : lo ≤ i ∧ i < hi) (member : b ∈ probes p lo hi n m i) :
    p b = true ∧ lo ≤ b ∧ b < hi := by
  induction m generalizing p i with
  | zero => cases member
  | succ m ih =>
      have within := probe_within (p := p) (n := n) start
      have free : (probe p lo hi n i).2 = true → p (probe p lo hi n i).1 = true := probe_free
      rw [probes] at member
      rcases found : probe p lo hi n i with ⟨c, _ | _⟩ <;> simp only [found] at member within free
      · cases member
      · rcases List.mem_cons.mp member with rfl | member
        · exact ⟨free trivial, within⟩
        · have later := ih within member
          have other : b ≠ c := by
            rintro rfl
            simp at later
          rw [Function.update_of_ne other] at later
          exact later

theorem probes_nodup {n m i : Nat} (start : lo ≤ i ∧ i < hi) : (probes p lo hi n m i).Nodup := by
  induction m generalizing p i with
  | zero => exact List.nodup_nil
  | succ m ih =>
      have within := probe_within (p := p) (n := n) start
      rw [probes]
      rcases found : probe p lo hi n i with ⟨c, _ | _⟩ <;> simp only [found] at within ⊢
      · exact List.nodup_nil
      · refine List.nodup_cons.mpr ⟨fun again => ?_, ih within⟩
        simpa using (probes_spec within again).1

theorem length_probes_le {n m i : Nat} : (probes p lo hi n m i).length ≤ m := by
  induction m generalizing p i with
  | zero => exact Nat.le_refl 0
  | succ m ih =>
      rw [probes]
      rcases probe p lo hi n i with ⟨c, _ | _⟩
      · exact Nat.zero_le _
      · exact Nat.succ_le_succ ih

def places (p : Nat → Bool) (lo hi : Nat) : Finset Nat := (Finset.Ico lo hi).filter fun b => p b = true

theorem mem_places {b : Nat} : b ∈ places p lo hi ↔ (lo ≤ b ∧ b < hi) ∧ p b = true := by
  rw [places, Finset.mem_filter, Finset.mem_Ico]

theorem places_taken (b : Nat) : places (Function.update p b false) lo hi = (places p lo hi).erase b := by
  ext c
  rw [Finset.mem_erase, mem_places, mem_places]
  by_cases same : c = b
  · simp [same]
  · simp [same]

theorem length_probes {n m i : Nat} (start : lo ≤ i ∧ i < hi) (long : hi - lo ≤ n) :
    (probes p lo hi n m i).length = min m (places p lo hi).card := by
  induction m generalizing p i with
  | zero => simp [probes]
  | succ m ih =>
      have within := probe_within (p := p) (n := n) start
      have free : (probe p lo hi n i).2 = true → p (probe p lo hi n i).1 = true := probe_free
      rw [probes]
      rcases found : probe p lo hi n i with ⟨c, _ | _⟩ <;> simp only [found] at within free ⊢
      · have none : places p lo hi = ∅ := by
          apply Finset.eq_empty_of_forall_notMem
          intro b member
          obtain ⟨⟨low, high⟩, place⟩ := mem_places.mp member
          have complete := probe_complete start low high place long
          rw [found] at complete
          cases complete
        simp [none]
      · have member : c ∈ places p lo hi := mem_places.mpr ⟨within, free trivial⟩
        have positive := Finset.card_pos.mpr ⟨c, member⟩
        rw [List.length_cons, ih within, places_taken, Finset.card_erase_of_mem member]
        omega

end
end Xinu.Lib
