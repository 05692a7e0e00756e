import Mathlib.Data.Int.Interval
import Xinu.Lib.Insertion
import Xinu.Proof.Queue.Represents

namespace Xinu.Represents
open Lib

variable {c : Config} {n : Int} {tab tab' : Quetab c} {l : Lists} {t q key : Int} {xs ys : List Int}

theorem tail_range (isq : c.IsQueue q) : 0 ≤ quetail q ∧ quetail q < c.nqent := by
  obtain ⟨i, rfl, bound⟩ := isq
  simp only [quetail]
  omega

theorem length_le (h : Represents n tab l) (q : Int) : (l.ids q).length ≤ c.nthread := by
  have inside : (l.ids q).toFinset ⊆ Finset.Ico (0 : Int) c.nthread := by
    intro u member
    exact Finset.mem_Ico.mpr (h.range q u (List.mem_toFinset.mp member))
  have card := Finset.card_le_card inside
  rwa [List.toFinset_card_of_nodup (h.nodup q), Int.card_Ico, sub_zero, Int.toNat_natCast] at card

theorem insertScan_total (h : Represents n tab l) (isq : c.IsQueue q) (low : q < n) (above : MINKEY < key)
    (ids : l.ids q = xs ++ ys) {fuel : Nat} (enough : ys.length < fuel) :
    ∃ found, tab.insertScan key fuel (ys.headD (quetail q)) = some found := by
  induction ys generalizing xs fuel with
  | nil =>
      cases fuel with
      | zero => cases enough
      | succ fuel =>
          have range := tail_range isq
          have tail : (tab.ent (quetail q)).key = MINKEY := h.tailkey q isq low
          refine ⟨quetail q, ?_⟩
          rw [List.headD_nil, Quetab.insertScan, if_neg (by omega), tail, if_neg (by omega)]
  | cons y ys ih =>
      obtain ⟨next, keyEq, lo, hi⟩ := h.neighbours isq low ids
      have table := tail_range isq
      have inside : ¬ (y < 0 ∨ y ≥ c.nqent) := by
        obtain ⟨i, rfl, bound⟩ := isq
        omega
      cases fuel with
      | zero => cases enough
      | succ fuel =>
          rw [List.headD_cons, Quetab.insertScan, if_neg inside, show (tab.ent y).next = _ from next]
          split
          · exact ih (show l.ids q = (xs ++ [y]) ++ ys by simp [ids]) (Nat.lt_of_succ_lt_succ enough)
          · exact ⟨y, rfl⟩

theorem insertScan_never (h : Represents n tab l) (isq : c.IsQueue q) (low : q < n) (ints : ∀ u ∈ l.ids q, MINKEY ≤ l.key u)
    (ids : l.ids q = xs ++ ys) (fuel : Nat) : tab.insertScan MINKEY fuel (ys.headD (quetail q)) = none := by
  induction ys generalizing xs fuel with
  | nil =>
      cases fuel with
      | zero => rfl
      | succ fuel =>
          have range := tail_range isq
          have tail : (tab.ent (quetail q)).key = MINKEY := h.tailkey q isq low
          have past : (tab.ent (quetail q)).next = EMPTY := h.tailnext q isq low
          rw [List.headD_nil, Quetab.insertScan, if_neg (by omega), tail, if_pos (Int.le_refl _), past]
          cases fuel <;> simp [Quetab.insertScan]
  | cons y ys ih =>
      obtain ⟨next, keyEq, -, -⟩ := h.neighbours isq low ids
      have least := ints y (by simp [ids])
      cases fuel with
      | zero => rfl
      | succ fuel =>
          rw [List.headD_cons, Quetab.insertScan, show (tab.ent y).next = _ from next, show (tab.ent y).key = _ from keyEq]
          by_cases outside : y < 0 ∨ y ≥ c.nqent
          · rw [if_pos outside]
          · rw [if_neg outside, if_pos (show l.key y ≥ MINKEY from least)]
            exact ih (show l.ids q = (xs ++ [y]) ++ ys by simp [ids]) fuel

/-- The table after `insert`: what was on the queue, in its order, with `t` where its key puts it. -/
structure Inserted (n : Int) (tab' : Quetab c) (l : Lists) (t q key : Int) : Prop where
  repr : Represents n tab' (l.insert t q key)
  place : ∃ before after, l.ids q = before ++ after ∧ (l.insert t q key).ids q = before ++ t :: after ∧
    (∀ u ∈ before, key ≤ l.key u) ∧ ∀ u ∈ after, l.key u < key
  sorted : ((l.insert t q key).ids q).Pairwise fun u v => (l.insert t q key).key v ≤ (l.insert t q key).key u
  own : (l.insert t q key).key t = key
  others : ∀ q', q' ≠ q → (l.insert t q key).ids q' = l.ids q'
  keys : ∀ u, u ≠ t → (l.insert t q key).key u = l.key u

theorem inserted (h : Represents n tab l) (isq : c.IsQueue q) (low : q < n) (lo : 0 ≤ t) (hi : t < c.nthread)
    (off : ∀ q, t ∉ l.ids q) (sorted : (l.ids q).Pairwise fun u v => l.key v ≤ l.key u)
    (eq : tab.insert t q key = some tab') : Inserted n tab' l t q key := by
  have ids : (l.insert t q key).ids q =
      (l.ids q).takeWhile (key ≤ l.key ·) ++ t :: (l.ids q).dropWhile (key ≤ l.key ·) := by
    simp [Lists.insert, Lists.put, Lists.setKey]
  have mine : (l.insert t q key).key t = key := by simp [Lists.insert, Lists.setKey]
  have keys : ∀ u, u ≠ t → (l.insert t q key).key u = l.key u := by
    intro u other
    simp [Lists.insert, Lists.setKey, Lists.put, other]
  have same : ∀ u ∈ l.ids q, (l.insert t q key).key u = l.key u := fun u on => keys u fun eq => off q (eq ▸ on)
  have down : ∀ u ∈ l.ids q, ∀ v ∈ l.ids q, l.key v ≤ l.key u → decide (key ≤ l.key u) = false →
      decide (key ≤ l.key v) = false := by
    intro u _ v _ before fails
    simp only [decide_eq_false_iff_not] at fails ⊢
    omega
  constructor
  · exact h.insert isq low lo hi off eq
  · refine ⟨_, _, (List.takeWhile_append_dropWhile).symm, ids, fun u on => ?_, fun u on => ?_⟩
    · have passes := List.mem_takeWhile_imp on
      exact of_decide_eq_true passes
    · have fails := dropWhile_fails sorted down u on
      simp only [decide_eq_false_iff_not] at fails
      omega
  · rw [ids]
    refine pairwise_insertion ?_ ?_ ?_ ?_
    · refine sorted.imp_of_mem fun {u v} on on' before => ?_
      rw [same u on, same v on']
      exact before
    · intro u on passes
      rw [mine, same u on]
      exact of_decide_eq_true passes
    · intro u on fails
      rw [mine, same u on]
      simp only [decide_eq_false_iff_not] at fails
      omega
    · intro u on v on' before
      rw [same u on, same v on'] at before
      exact down u on v on' before
  · exact mine
  · intro q' other
    simp [Lists.insert, Lists.setKey, Lists.put, other]
  · exact keys

theorem Inserted.off (h : Inserted n tab' l t q key) {u : Int} (off : ∀ q', u ∉ l.ids q') (other : u ≠ t) :
    ∀ q', u ∉ (l.insert t q key).ids q' := by
  intro q'
  by_cases here : q' = q
  · obtain ⟨before, after, ids, ids', -⟩ := h.place
    have away := off q
    rw [ids, List.mem_append] at away
    rw [here, ids', List.mem_append, List.mem_cons]
    tauto
  · rw [h.others q' here]
    exact off q'

/-- `insert` ends, and does what it is for, if and only if the key is not the smallest `int`. -/
theorem insert_total (h : Represents n tab l) (isq : c.IsQueue q) (low : q < n) (lo : 0 ≤ t) (hi : t < c.nthread)
    (off : ∀ q, t ∉ l.ids q) (sorted : (l.ids q).Pairwise fun u v => l.key v ≤ l.key u)
    (ints : ∀ u ∈ l.ids q, MINKEY ≤ l.key u) (int : MINKEY ≤ key) :
    (∃ tab', tab.insert t q key = some tab' ∧ Inserted n tab' l t q key) ↔ key ≠ MINKEY := by
  have first : (tab.ent (quehead q)).next = (l.ids q).headD (quetail q) := h.firstid isq low
  have whole : l.ids q = [] ++ l.ids q := rfl
  constructor
  · rintro ⟨tab', eq, -⟩ rfl
    rw [Quetab.insert, first, h.insertScan_never isq low ints whole] at eq
    cases eq
  · intro other
    have above : MINKEY < key := by omega
    have fuel : (l.ids q).length < c.nqent := by
      have := h.length_le q
      rw [Config.nqent]
      omega
    obtain ⟨found, scan⟩ := h.insertScan_total isq low above whole fuel
    obtain ⟨tab', eq⟩ : ∃ tab', tab.insert t q key = some tab' := by
      rw [Quetab.insert, first, scan]
      exact ⟨_, rfl⟩
    exact ⟨tab', eq, h.inserted isq low lo hi off sorted eq⟩

def oneQueue : Quetab armRpi := (⟨fun _ => ⟨0, 0, 0⟩⟩ : Quetab armRpi).queinit 100

def noThreads : Lists := ⟨fun _ => [], fun _ => 0, fun _ => 0⟩

theorem oneQueue_repr : Represents 102 oneQueue noThreads := by
  have made := (Represents.empty armRpi).queinit ⟨0, rfl⟩
  have same : ({ noThreads with ids := Function.update noThreads.ids 100 [] } : Lists) = noThreads := by
    simp [noThreads]
  rw [← same]
  exact made

theorem oneQueue_isQueue : armRpi.IsQueue 100 := ⟨0, rfl, by decide⟩

def threeThreads : Lists := ((noThreads.insert 7 100 20).insert 8 100 20).insert 9 100 10

theorem insert_total_three : ∃ tab tab' : Quetab armRpi, Represents 102 tab threeThreads ∧ threeThreads.ids 100 = [7, 8, 9] ∧
    tab.insert 5 100 20 = some tab' ∧ Inserted 102 tab' threeThreads 5 100 20 ∧
    (threeThreads.insert 5 100 20).ids 100 = [7, 8, 5, 9] := by
  have nowhere : ∀ u q, u ∉ noThreads.ids q := fun _ _ => List.not_mem_nil
  obtain ⟨tab₁, -, first⟩ : ∃ tab₁, oneQueue.insert 7 100 20 = some tab₁ ∧ Inserted 102 tab₁ noThreads 7 100 20 :=
    (oneQueue_repr.insert_total oneQueue_isQueue (by decide) (by decide) (by decide) (nowhere 7) .nil nofun
      (by decide)).mpr (by decide)
  have off₁ : ∀ u ≠ 7, ∀ q, u ∉ (noThreads.insert 7 100 20).ids q := fun u other => first.off (nowhere u) other
  obtain ⟨tab₂, -, second⟩ : ∃ tab₂, tab₁.insert 8 100 20 = some tab₂ ∧ Inserted 102 tab₂ (noThreads.insert 7 100 20) 8 100 20 :=
    (first.repr.insert_total oneQueue_isQueue (by decide) (by decide) (by decide) (off₁ 8 (by decide)) (by decide)
      (by decide) (by decide)).mpr (by decide)
  have off₂ : ∀ u ≠ 7, u ≠ 8 → ∀ q, u ∉ ((noThreads.insert 7 100 20).insert 8 100 20).ids q :=
    fun u other other' => second.off (off₁ u other) other'
  obtain ⟨tab₃, -, third⟩ : ∃ tab₃, tab₂.insert 9 100 10 = some tab₃ ∧
      Inserted 102 tab₃ ((noThreads.insert 7 100 20).insert 8 100 20) 9 100 10 :=
    (second.repr.insert_total oneQueue_isQueue (by decide) (by decide) (by decide) (off₂ 9 (by decide) (by decide))
      (by decide) (by decide) (by decide)).mpr (by decide)
  obtain ⟨tab₄, made, fourth⟩ : ∃ tab₄, tab₃.insert 5 100 20 = some tab₄ ∧ Inserted 102 tab₄ threeThreads 5 100 20 :=
    (third.repr.insert_total oneQueue_isQueue (by decide) (by decide) (by decide)
      (third.off (off₂ 5 (by decide) (by decide)) (by decide)) (by decide) (by decide) (by decide)).mpr (by decide)
  exact ⟨tab₃, tab₄, third.repr, by decide, made, fourth, by decide⟩

theorem insert_never : Represents 102 oneQueue noThreads ∧ oneQueue.insert 5 100 MINKEY = none := by
  refine ⟨oneQueue_repr, ?_⟩
  have never := @insertScan_never _ _ _ _ _ [] [] oneQueue_repr oneQueue_isQueue (by decide) nofun rfl armRpi.nqent
  rw [Quetab.insert, show (oneQueue.ent (quehead 100)).next = quetail 100 from oneQueue_repr.firstid oneQueue_isQueue (by decide)]
  rw [List.headD_nil] at never
  rw [never, Option.map_none]

end Xinu.Represents
