import Mathlib.Data.List.Range
import Mathlib.Data.Nat.ModEq
import Mathlib.Logic.Function.Basic

namespace Xinu.Lib
variable {α : Type*} {cells : Nat → α} {max start count : Nat}

def ring (cells : Nat → α) (max start count : Nat) : List α :=
  (List.range count).map fun i => cells ((start + i) % max)

@[simp] theorem ring_zero : ring cells max start 0 = [] := rfl

theorem place_ne {i j : Nat} (before : i < j) (bound : j < max) : (start + i) % max ≠ (start + j) % max := by
  intro same
  have shifted : i ≡ j [MOD max] := Nat.ModEq.add_left_cancel' start same
  have : i = j := shifted.eq_of_lt_of_lt (Nat.lt_trans before bound) bound
  omega

theorem ring_push (room : count < max) (v : α) :
    ring (Function.update cells ((start + count) % max) v) max start (count + 1) =
      ring cells max start count ++ [v] := by
  have before : (List.range count).map (fun i => Function.update cells ((start + count) % max) v
      ((start + i) % max)) = (List.range count).map fun i => cells ((start + i) % max) := by
    apply List.map_congr_left
    intro i member
    rw [Function.update_of_ne (place_ne (List.mem_range.mp member) room)]
  rw [ring, List.range_succ, List.map_append, before]
  simp [ring]

theorem ring_pop (bound : start < max) :
    ring cells max start (count + 1) = cells start :: ring cells max ((start + 1) % max) count := by
  rw [ring, List.range_succ_eq_map, List.map_cons, List.map_map, ring]
  congr 1
  · rw [Nat.add_zero, Nat.mod_eq_of_lt bound]
  · apply List.map_congr_left
    intro i _
    simp only [Function.comp_apply, Nat.mod_add_mod]
    congr 2
    omega

def Vacant (cells : Nat → α) (max start count : Nat) (v : α) : Prop :=
  ∀ i, i < max → (∀ j, j < count → (start + j) % max ≠ i) → cells i = v

theorem Vacant.push {v : α} (vacant : Vacant cells max start count v) (x : α) :
    Vacant (Function.update cells ((start + count) % max) x) max start (count + 1) v := by
  intro i bound off
  rw [Function.update_of_ne (off count (Nat.lt_succ_self count)).symm]
  exact vacant i bound fun j before => off j (Nat.lt_succ_of_lt before)

theorem Vacant.pop {v : α} (vacant : Vacant cells max start (count + 1) v) (bound : start < max) :
    Vacant (Function.update cells start v) max ((start + 1) % max) count v := by
  intro i inside off
  by_cases first : i = start
  · rw [first, Function.update_self]
  · rw [Function.update_of_ne first]
    refine vacant i inside fun j before => ?_
    cases j with
    | zero =>
        rw [Nat.add_zero, Nat.mod_eq_of_lt bound]
        exact Ne.symm first
    | succ j =>
        have other := off j (by omega)
        rwa [Nat.mod_add_mod, Nat.add_assoc, Nat.add_comm 1 j] at other

theorem ring_clear (bound : start < max) (room : count < max) (v : α) :
    ring (Function.update cells start v) max ((start + 1) % max) count =
      ring cells max ((start + 1) % max) count := by
  apply List.map_congr_left
  intro i member
  have behind := @place_ne _ start _ _ (Nat.succ_pos i)
    (Nat.lt_of_le_of_lt (List.mem_range.mp member) room)
  rw [Nat.add_zero, Nat.mod_eq_of_lt bound] at behind
  rw [Function.update_of_ne]
  rw [Nat.mod_add_mod, Nat.add_assoc, Nat.add_comm 1 i]
  exact behind.symm

end Xinu.Lib
