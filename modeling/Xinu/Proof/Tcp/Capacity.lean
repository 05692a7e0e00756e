import Mathlib.Data.Finset.Card
import Mathlib.Data.Finset.Prod
import Mathlib.Order.Interval.Finset.Nat
import Xinu.Proof.Tcp.Timer

namespace Xinu.Tcp.Timers

variable {ntcp i k t : Nat} {s : Timers}

def visit (ntcp k t : Nat) : Nat := (k + 1 + 2 * t) % (3 * ntcp) + 1

theorem visit_next (ntcp k t : Nat) : visit ntcp (succEvt ntcp k) t = visit ntcp k (t + 1) := by
  have shift : (k + 1) % (3 * ntcp) + 1 + 1 + 2 * t = (k + 1) % (3 * ntcp) + (2 + 2 * t) := by omega
  rw [visit, visit, succEvt, shift, Nat.mod_add_mod]
  congr 2
  omega

theorem allocEvent_none (s : Timers) (fuel : Nat) :
    (allocEvent ntcp fuel s).2 = none ↔ ∀ t, t < fuel → (s.tab (visit ntcp s.nextevt t)).used = true := by
  induction fuel generalizing s with
  | zero => simp [allocEvent]
  | succ fuel ih =>
      have first : succEvt ntcp s.nextevt = visit ntcp s.nextevt 0 := rfl
      have notHead : succEvt ntcp s.nextevt ≠ TCP_EVT_HEAD := Nat.succ_ne_zero _
      rw [allocEvent]
      simp only [if_neg notHead]
      split
      case isTrue free =>
        refine iff_of_false (by simp) fun all => ?_
        rw [first, all 0 (by omega)] at free
        cases free
      case isFalse taken =>
        rw [ih { s with nextevt := succEvt ntcp s.nextevt }]
        simp only [visit_next]
        constructor
        · intro later t bound
          cases t with
          | zero => rw [← first]; simpa using taken
          | succ t => exact later t (by omega)
        · intro all t bound
          exact all (t + 1) (by omega)

theorem visit_iff (some : 0 < ntcp) : (∃ t, t < 3 * ntcp + 1 ∧ visit ntcp k t = i) ↔
    1 ≤ i ∧ i ≤ 3 * ntcp ∧ (ntcp % 2 = 1 ∨ i % 2 = k % 2) := by
  have positive : 0 < 3 * ntcp := by omega
  constructor
  · rintro ⟨t, -, rfl⟩
    have bound := Nat.mod_lt (k + 1 + 2 * t) positive
    rw [visit]
    refine ⟨by omega, by omega, ?_⟩
    by_cases odd : ntcp % 2 = 1
    · exact .inl odd
    · have parity := Nat.mod_mod_of_dvd (k + 1 + 2 * t) (show 2 ∣ 3 * ntcp by omega)
      omega
  · rintro ⟨lower, upper, reached⟩
    have small := Nat.mod_lt k positive
    have distance : ∃ d, d < 3 * ntcp ∧ (k + 1 + d) % (3 * ntcp) = i - 1 ∧
        (ntcp % 2 = 0 → d % 2 = (i + k) % 2) := by
      refine ⟨(i + 2 * (3 * ntcp) - 2 - k % (3 * ntcp)) % (3 * ntcp), Nat.mod_lt _ positive, ?_, ?_⟩
      · have whole : k % (3 * ntcp) + (1 + (i + 2 * (3 * ntcp) - 2 - k % (3 * ntcp))) =
            i - 1 + 3 * ntcp + 3 * ntcp := by omega
        rw [Nat.add_mod_mod, Nat.add_assoc, ← Nat.mod_add_mod, whole, Nat.add_mod_right, Nat.add_mod_right,
          Nat.mod_eq_of_lt (by omega)]
      · intro even
        have divides : 2 ∣ 3 * ntcp := by omega
        have start := Nat.mod_mod_of_dvd k divides
        rw [Nat.mod_mod_of_dvd _ divides]
        omega
    obtain ⟨d, less, arrives, parity⟩ := distance
    by_cases even : d % 2 = 0
    · refine ⟨d / 2, by omega, ?_⟩
      rw [visit, show 2 * (d / 2) = d by omega, arrives]
      omega
    · have odd : ntcp % 2 = 1 := by omega
      refine ⟨(d + 3 * ntcp) / 2, by omega, ?_⟩
      rw [visit, show 2 * ((d + 3 * ntcp) / 2) = d + 3 * ntcp by omega, ← Nat.add_assoc, Nat.add_mod_right, arrives]
      omega

theorem allocEvent_fails (some : 0 < ntcp) (s : Timers) :
    (allocEvent ntcp (3 * ntcp + 1) s).2 = none ↔
      ∀ i, 1 ≤ i → i ≤ 3 * ntcp → ntcp % 2 = 1 ∨ i % 2 = s.nextevt % 2 → (s.tab i).used = true := by
  rw [allocEvent_none]
  constructor
  · intro all i lower upper reached
    obtain ⟨t, bound, rfl⟩ := (visit_iff some).mpr ⟨lower, upper, reached⟩
    exact all t bound
  · intro all t bound
    obtain ⟨lower, upper, reached⟩ := (visit_iff some).mp ⟨t, bound, rfl⟩
    exact all _ lower upper reached

structure Single (ntcp : Nat) (s : Timers) : Prop where
  tcb : ∀ i, 1 ≤ i → i ≤ 3 * ntcp → (s.tab i).used = true → (s.tab i).tcb < ntcp
  type : ∀ i, 1 ≤ i → i ≤ 3 * ntcp → (s.tab i).used = true → 1 ≤ (s.tab i).type ∧ (s.tab i).type ≤ 3
  apart : ∀ i j, 1 ≤ i → i ≤ 3 * ntcp → 1 ≤ j → j ≤ 3 * ntcp → (s.tab i).used = true → (s.tab j).used = true →
    (s.tab i).tcb = (s.tab j).tcb → (s.tab i).type = (s.tab j).type → i = j

theorem Single.room (single : Single ntcp s) {tcb type : Nat} (inside : tcb < ntcp) (kind : 1 ≤ type ∧ type ≤ 3)
    (new : ∀ i, 1 ≤ i → i ≤ 3 * ntcp → (s.tab i).used = true → ¬ ((s.tab i).tcb = tcb ∧ (s.tab i).type = type)) :
    ∃ i, 1 ≤ i ∧ i ≤ 3 * ntcp ∧ (s.tab i).used = false := by
  by_contra none
  have all : ∀ i, 1 ≤ i → i ≤ 3 * ntcp → (s.tab i).used = true := by
    intro i lower upper
    cases free : (s.tab i).used with
    | true => rfl
    | false => exact absurd ⟨i, lower, upper, free⟩ none
  let slot (i : Nat) : Nat × Nat := ((s.tab i).tcb, (s.tab i).type)
  have others : ∀ i ∈ Finset.Icc 1 (3 * ntcp),
      slot i ∈ (Finset.range ntcp ×ˢ Finset.Icc 1 3).erase (tcb, type) := by
    intro i member
    obtain ⟨lower, upper⟩ := Finset.mem_Icc.mp member
    have used := all i lower upper
    refine Finset.mem_erase.mpr ⟨fun same => ?_, Finset.mem_product.mpr ⟨?_, ?_⟩⟩
    · rw [Prod.mk.injEq] at same
      exact new i lower upper used same
    · exact Finset.mem_range.mpr (single.tcb i lower upper used)
    · exact Finset.mem_Icc.mpr (single.type i lower upper used)
  have count : ((Finset.range ntcp ×ˢ Finset.Icc 1 3).erase (tcb, type)).card < (Finset.Icc 1 (3 * ntcp)).card := by
    have member : (tcb, type) ∈ Finset.range ntcp ×ˢ Finset.Icc 1 3 :=
      Finset.mem_product.mpr ⟨Finset.mem_range.mpr inside, Finset.mem_Icc.mpr kind⟩
    rw [Finset.card_erase_of_mem member, Finset.card_product, Finset.card_range, Nat.card_Icc, Nat.card_Icc]
    omega
  obtain ⟨i, member, j, member', different, same⟩ := Finset.exists_ne_map_eq_of_card_lt_of_maps_to count others
  obtain ⟨lower, upper⟩ := Finset.mem_Icc.mp member
  obtain ⟨lower', upper'⟩ := Finset.mem_Icc.mp member'
  rw [Prod.mk.injEq] at same
  exact different (single.apart i j lower upper lower' upper' (all i lower upper) (all j lower' upper') same.1 same.2)

theorem tcpTimerSched_ok {time : Int} {tcb type : Nat} (positive : 0 ≤ time) :
    (tcpTimerSched ntcp s time tcb type).2 = OK ↔ (allocEvent ntcp (3 * ntcp + 1) s).2 ≠ none := by
  rw [tcpTimerSched, if_neg (by omega)]
  split
  case h_1 found => exact iff_of_false (show SYSERR ≠ OK by decide) fun room => room (by rw [found])
  case h_2 found => exact iff_of_true rfl (by rw [found]; exact Option.some_ne_none _)

/-- An allocation gives an unused event unless all are in use, and there is one for every TCB and type. -/
structure Capacity (ntcp : Nat) (s : Timers) : Prop where
  unused : ∀ evt, (allocEvent ntcp (3 * ntcp + 1) s).2 = some evt →
    1 ≤ evt ∧ evt ≤ 3 * ntcp ∧ (s.tab evt).used = false
  full : (allocEvent ntcp (3 * ntcp + 1) s).2 = none → ∀ i, 1 ≤ i → i ≤ 3 * ntcp → (s.tab i).used = true
  schedules : ∀ time tcb type, 0 ≤ time → tcb < ntcp → 1 ≤ type ∧ type ≤ 3 → Single ntcp s →
    (∀ i, 1 ≤ i → i ≤ 3 * ntcp → (s.tab i).used = true → ¬ ((s.tab i).tcb = tcb ∧ (s.tab i).type = type)) →
      (tcpTimerSched ntcp s time tcb type).2 = OK

/-- In every state, whatever has been allocated and released and wherever the index is, there is room
just when the index comes to an unused event, or there is none. -/
theorem capacity_iff (some : 0 < ntcp) (s : Timers) :
    Capacity ntcp s ↔ ntcp % 2 = 1 ∨
      (∃ i, 1 ≤ i ∧ i ≤ 3 * ntcp ∧ i % 2 = s.nextevt % 2 ∧ (s.tab i).used = false) ∨
      ∀ i, 1 ≤ i → i ≤ 3 * ntcp → (s.tab i).used = true := by
  have fails := allocEvent_fails some s
  constructor
  · intro capacity
    by_cases odd : ntcp % 2 = 1
    · exact .inl odd
    · right
      by_cases reached : ∃ i, 1 ≤ i ∧ i ≤ 3 * ntcp ∧ i % 2 = s.nextevt % 2 ∧ (s.tab i).used = false
      · exact .inl reached
      · right
        apply capacity.full
        rw [fails]
        rintro i lower upper (odd' | parity)
        · exact absurd odd' odd
        · cases free : (s.tab i).used with
          | true => rfl
          | false => exact absurd ⟨i, lower, upper, parity, free⟩ reached
  · intro condition
    have full : (allocEvent ntcp (3 * ntcp + 1) s).2 = none →
        ∀ i, 1 ≤ i → i ≤ 3 * ntcp → (s.tab i).used = true := by
      intro none i lower upper
      rw [fails] at none
      rcases condition with odd | ⟨j, lower', upper', parity, free⟩ | all
      · exact none i lower upper (.inl odd)
      · rw [none j lower' upper' (.inr parity)] at free
        cases free
      · exact all i lower upper
    refine ⟨?_, full, ?_⟩
    · intro evt found
      obtain ⟨notHead, upper, free, -⟩ := (allocEvent_spec some s (3 * ntcp + 1)).2 evt found
      exact ⟨Nat.pos_of_ne_zero notHead, upper, free⟩
    · intro time tcb type positive inside kind single new
      rw [tcpTimerSched_ok positive]
      intro none
      obtain ⟨i, lower, upper, free⟩ := single.room inside kind new
      rw [full none i lower upper] at free
      cases free

def threeEvents : Timers :=
  (tcpTimerSched 2 (tcpTimerSched 2 (tcpTimerSched 2 init 500 0 TCP_EVT_RXT).1 500 1 TCP_EVT_RXT).1 500 0
    TCP_EVT_PERSIST).1

theorem capacity_three : ¬ Capacity 2 threeEvents ∧
    (tcpTimerSched 2 threeEvents 500 1 TCP_EVT_PERSIST).2 = SYSERR ∧ (threeEvents.tab 1).used = false := by
  have fails : (allocEvent 2 7 threeEvents).2 = none := by decide +kernel
  have free : (threeEvents.tab 1).used = false := by decide +kernel
  refine ⟨?_, by decide +kernel, free⟩
  intro capacity
  have used := capacity.full fails 1 (by decide) (by decide)
  rw [free] at used
  cases used

def halfUsed : Timers :=
  (tcpTimerSched 7 (tcpTimerSched 7 (tcpTimerSched 7 init 500 0 TCP_EVT_RXT).1 200 1 TCP_EVT_RXT).1 300 0
    TCP_EVT_PERSIST).1

theorem capacity_seven : Capacity 7 init ∧ Capacity 7 halfUsed ∧
    Capacity 2 (tcpTimerSched 2 init 500 0 TCP_EVT_RXT).1 ∧
    Capacity 2 { init with tab := fun i : Nat => { init.tab i with used := true } } :=
  ⟨(capacity_iff (by decide) init).mpr (.inl (by decide)),
    (capacity_iff (by decide) halfUsed).mpr (.inl (by decide)),
    (capacity_iff (by decide) _).mpr (.inr (.inl ⟨4, by decide +kernel⟩)),
    (capacity_iff (by decide) _).mpr (.inr (.inr fun _ _ _ => rfl))⟩

end Xinu.Tcp.Timers
