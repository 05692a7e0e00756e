import Mathlib.Data.List.Nodup

namespace Xinu.Lib
variable {α κ : Type*} [DecidableEq κ] (key : α → κ)

def Keyed (l : List α) : Prop := (l.map key).Nodup

def lookup (l : List α) (k : κ) : Option α := l.find? fun x => key x = k

def drop (l : List α) (k : κ) : List α := l.eraseP fun x => key x = k

variable {key} {l : List α} {k k' : κ} {x : α}

theorem find_weaker {p q : α → Bool} (weaker : ∀ x ∈ l, q x = true → p x = true)
    (first : ∀ x, l.find? p = some x → q x = true) : l.find? p = l.find? q ∧ l.eraseP p = l.eraseP q := by
  induction l with
  | nil => exact ⟨rfl, rfl⟩
  | cons x l ih =>
      obtain ⟨this, weaker⟩ := List.forall_mem_cons.mp weaker
      cases found : p x with
      | true =>
          have right : q x = true := first x (by rw [List.find?_cons, found])
          rw [List.find?_cons, List.find?_cons, List.eraseP_cons, List.eraseP_cons, found, right]
          exact ⟨rfl, rfl⟩
      | false =>
          have wrong : q x = false := by
            by_contra right
            rw [this (by simpa using right)] at found
            cases found
          obtain ⟨same, same'⟩ := ih weaker fun y later => first y (by rw [List.find?_cons, found]; exact later)
          rw [List.find?_cons, List.find?_cons, List.eraseP_cons, List.eraseP_cons, found, wrong]
          exact ⟨same, congrArg (x :: ·) same'⟩

theorem lookup_key (found : lookup key l k = some x) : key x = k := by
  simpa using List.find?_some found

theorem lookup_none : lookup key l k = none ↔ k ∉ l.map key := by
  rw [lookup, List.find?_eq_none]
  simp

theorem lookup_append (l' : List α) : lookup key (l ++ l') k = (lookup key l k).or (lookup key l' k) :=
  List.find?_append

theorem lookup_single : lookup key [x] k = if key x = k then some x else none := by
  rw [lookup, List.find?_singleton]
  simp

theorem drop_keys (l : List α) (k : κ) : ((drop key l k).map key).Sublist (l.map key) :=
  (List.eraseP_sublist).map key

theorem Keyed.drop (keyed : Keyed key l) (k : κ) : Keyed key (drop key l k) :=
  keyed.sublist (drop_keys l k)

theorem drop_hit (same : key x = k) : drop key (x :: l) k = l := by
  simp [drop, same]

theorem drop_miss (other : key x ≠ k) : drop key (x :: l) k = x :: drop key l k := by
  simp [drop, other]

theorem lookup_hit (same : key x = k) : lookup key (x :: l) k = some x := by
  simp [lookup, same]

theorem lookup_miss (other : key x ≠ k) : lookup key (x :: l) k = lookup key l k := by
  simp [lookup, other]

theorem lookup_drop_self (keyed : Keyed key l) : lookup key (drop key l k) k = none := by
  induction l with
  | nil => rfl
  | cons x l ih =>
      obtain ⟨fresh, keyed⟩ := List.nodup_cons.mp keyed
      by_cases same : key x = k
      · rw [drop_hit same]
        exact lookup_none.mpr (same ▸ fresh)
      · rw [drop_miss same, lookup_miss same]
        exact ih keyed

theorem lookup_drop_other (other : k' ≠ k) : lookup key (drop key l k) k' = lookup key l k' := by
  induction l with
  | nil => rfl
  | cons x l ih =>
      by_cases same : key x = k
      · have differ : key x ≠ k' := fun eq => other (eq.symm.trans same)
        rw [drop_hit same, lookup_miss differ]
      · rw [drop_miss same]
        by_cases hit : key x = k'
        · rw [lookup_hit hit, lookup_hit hit]
        · rw [lookup_miss hit, lookup_miss hit, ih]

theorem Keyed.append (keyed : Keyed key l) (fresh : lookup key l (key x) = none) : Keyed key (l ++ [x]) := by
  rw [Keyed, List.map_append, List.nodup_append]
  refine ⟨keyed, List.nodup_singleton _, ?_⟩
  intro k inside k' last same
  rw [List.map_singleton, List.mem_singleton] at last
  exact lookup_none.mp fresh (last ▸ same ▸ inside)

end Xinu.Lib
