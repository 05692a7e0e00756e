import Xinu.Proof.Tcp.Timer

namespace Xinu.Lib

variable {α : Type*} [DecidableEq α] {key : α → Int} {ts : List α} {u : α} {p : α → Bool}

theorem key_le_keySum (positive : ∀ t ∈ ts, 0 ≤ key t) (on : u ∈ ts) : key u ≤ keySum key ts u := by
  induction ts with
  | nil => cases on
  | cons t ts ih =>
      rw [keySum]
      split
      case isTrue same => exact Int.le_of_eq (congrArg key same)
      case isFalse apart =>
        have rest := ih (fun v member => positive v (by simp [member])) ((List.mem_cons.mp on).resolve_left apart)
        have first := positive t (by simp)
        omega

theorem keySum_eq_key_iff (positive : ∀ t ∈ ts, 0 ≤ key t) (first : ts.find? p = some u) :
    keySum key ts u = key u ↔ ∀ t ∈ ts.takeWhile (fun t => !p t), key t = 0 := by
  induction ts with
  | nil => cases first
  | cons t ts ih =>
      have later : ∀ v ∈ ts, 0 ≤ key v := fun v member => positive v (by simp [member])
      rw [keySum]
      cases here : p t with
      | true =>
          rw [List.find?_cons_of_pos here] at first
          cases first
          simp [here]
      | false =>
          rw [List.find?_cons_of_neg (by simp [here])] at first
          have apart : u ≠ t := by
            rintro rfl
            rw [List.find?_some first] at here
            cases here
          have least := key_le_keySum later (List.mem_of_find?_eq_some first)
          have front := positive t (by simp)
          rw [if_neg apart, List.takeWhile_cons_of_pos (by simp [here]), List.forall_mem_cons, ← ih later first]
          omega

end Xinu.Lib

namespace Xinu.Tcp
open Lib (Line keySum)

namespace Timers
variable {ntcp tcb type : Nat} {s s' : Timers} {ts : List Nat} {evt : Nat}

theorem remainFor_eq {prev fuel : Nat} (time : Int) (line : Line s.next (prev :: ts)) (short : ts.length < fuel) :
    s.remainFor tcb type fuel ts.head? time =
      match ts.find? fun i => (s.tab i).tcb = tcb ∧ (s.tab i).type = type with
      | none => 0
      | some evt => time + keySum s.remain ts evt := by
  induction ts generalizing prev fuel time with
  | nil => cases fuel <;> rfl
  | cons t us ih =>
      cases fuel with
      | zero => cases short
      | succ fuel =>
          have own : (s.tab t).next = us.head? := line.2.1
          have rest := ih (time + (s.tab t).remain) line.2 (Nat.lt_of_succ_lt_succ short)
          rw [List.head?_cons, remainFor]
          simp only [own]
          by_cases here : (s.tab t).tcb = tcb ∧ (s.tab t).type = type
          · rw [if_pos here, List.find?_cons_of_pos (by simpa using here)]
            simp [keySum, remain]
          · rw [if_neg here, rest, List.find?_cons_of_neg (by simpa using here)]
            cases found : us.find? fun i => (s.tab i).tcb = tcb ∧ (s.tab i).type = type with
            | none => rfl
            | some evt =>
                have apart : evt ≠ t := by
                  rintro rfl
                  exact here (by simpa using List.find?_some found)
                simp only [keySum, if_neg apart, remain]
                omega

theorem purgeLoop_keeps {fuel prev : Nat} {cur : Option Nat} {result : Int} (some : result ≠ SYSERR) :
    (purgeLoop tcb type fuel s prev cur result).2 = result := by
  induction fuel generalizing s prev cur with
  | zero => rfl
  | succ fuel ih =>
      cases cur with
      | none => rfl
      | some cur =>
          rw [purgeLoop]
          split
          · exact ih
          · exact ih

theorem purgeLoop_first {prev fuel : Nat} (line : Line s.next (prev :: ts)) (short : ts.length < fuel)
    (first : ts.find? (s.purges tcb type) = some evt) (elapsed : (s.tab evt).remain ≤ (s.tab evt).time) :
    (purgeLoop tcb type fuel s prev ts.head? SYSERR).2 = (s.tab evt).time - (s.tab evt).remain := by
  induction ts generalizing prev fuel with
  | nil => cases first
  | cons t us ih =>
      cases fuel with
      | zero => cases short
      | succ fuel =>
          have own : (s.tab t).next = us.head? := line.2.1
          rw [List.head?_cons, purgeLoop]
          cases here : s.purges tcb type t with
          | true =>
              rw [List.find?_cons_of_pos here] at first
              cases first
              rw [if_pos rfl, if_pos rfl]
              apply purgeLoop_keeps
              rw [SYSERR]
              omega
          | false =>
              rw [List.find?_cons_of_neg (by simp [here])] at first
              rw [if_neg (by decide), own]
              exact ih line.2 (Nat.lt_of_succ_lt_succ short) first

theorem insertEvent_time (s : Timers) (evt prev : Nat) (next : Option Nat) (time : Int) (i : Nat) :
    ((s.insertEvent evt prev next time).tab i).time = (s.tab i).time ∧
      ((s.insertEvent evt prev next time).tab i).used = (s.tab i).used := by
  cases next <;> simp only [insertEvent, set, Function.update_apply] <;> grind

theorem removeEvent_time (s : Timers) (prev cur i : Nat) :
    ((s.removeEvent prev cur).tab i).time = (s.tab i).time := by
  simp only [removeEvent]
  cases (s.tab cur).next <;> simp only [set, Function.update_apply] <;> grind

theorem purgeLoop_time {fuel prev : Nat} {cur : Option Nat} {result : Int} (i : Nat) :
    ((purgeLoop tcb type fuel s prev cur result).1.tab i).time = (s.tab i).time := by
  induction fuel generalizing s prev cur result with
  | zero => rfl
  | succ fuel ih =>
      cases cur with
      | none => rfl
      | some cur =>
          rw [purgeLoop]
          split
          · exact ih.trans (removeEvent_time s prev cur i)
          · exact ih

theorem advance_time (s : Timers) (elapse i : Nat) : ((s.advance elapse).1.tab i).time = (s.tab i).time := by
  rw [advance]
  cases (s.tab TCP_EVT_HEAD).next with
  | none => rfl
  | some first =>
      simp only
      split
      · rfl
      · split <;> simp only [fire, set, Function.update_apply] <;> grind

theorem resume_time (s : Timers) (elapse i : Nat) : ((s.resume elapse).1.tab i).time = (s.tab i).time := by
  have later := advance_time s elapse i
  rw [resume]
  cases (s.tab TCP_EVT_HEAD).next with
  | none => rfl
  | some first =>
      simp only
      split
      · simp only [fire, set, Function.update_apply]
        grind
      · exact later

theorem tcpTimerSched_time (some : 0 < ntcp) {time : Int} (ok : (tcpTimerSched ntcp s time tcb type).2 = OK) :
    ∃ evt, (s.tab evt).used = false ∧ evt ≠ TCP_EVT_HEAD ∧
      ((tcpTimerSched ntcp s time tcb type).1.tab evt).used = true ∧
      ∀ i, ((tcpTimerSched ntcp s time tcb type).1.tab i).time = if i = evt then time else (s.tab i).time := by
  rw [tcpTimerSched] at ok ⊢
  split at ok
  case isTrue => cases ok
  case isFalse positive =>
    obtain ⟨-, found⟩ := allocEvent_spec some s (3 * ntcp + 1)
    rw [if_neg positive]
    split at ok
    case h_1 => cases ok
    case h_2 s₀ evt result =>
      rw [result] at found
      obtain ⟨notHead, -, free, taken⟩ := found evt rfl
      have tab : s₀.tab = Function.update s.tab evt { s.tab evt with used := true } := taken
      refine ⟨evt, free, notHead, ?_, ?_⟩
      · simp only
        rw [(insertEvent_time _ _ _ _ _ _).2]
        simp [set, tab]
      · intro i
        simp only
        rw [(insertEvent_time _ _ _ _ _ _).1]
        simp only [set, Function.update_apply]
        rw [tab]
        simp only [Function.update_apply]
        grind

structure Waiting (ntcp : Nat) (s : Timers) (ts : List Nat) : Prop where
  queue : Queue ntcp s ts
  within : ∀ i ∈ ts, keySum s.remain ts i ≤ (s.tab i).time
  typed : ∀ i ∈ ts, (s.tab i).type ≠ 0

theorem Waiting.sched {time : Int} (waiting : Waiting ntcp s ts) (some : 0 < ntcp) (typed : type ≠ 0) :
    ∃ ts', Waiting ntcp (tcpTimerSched ntcp s time tcb type).1 ts' := by
  have queue := waiting.queue
  rcases tcpTimerSched_spec queue some time tcb type with ⟨-, same⟩ | ⟨ok, -, evt, ts', scheduled⟩
  · have keys : (tcpTimerSched ntcp s time tcb type).1.remain = s.remain := by
      funext i
      rw [remain, same, remain]
    exact ⟨ts, Ticker.queue_congr queue same, by rw [keys, same]; exact waiting.within,
      by rw [same]; exact waiting.typed⟩
  · obtain ⟨evt', free, notHead, used, times⟩ := tcpTimerSched_time some ok
    have old : evt' ∉ ts := by
      intro member
      have inUse := ((queue.used evt').mp member).2
      rw [free] at inUse
      cases inUse
    have new : evt' = evt :=
      ((scheduled.members evt').mp ((scheduled.queue.used evt').mpr ⟨notHead, used⟩)).resolve_right old
    subst new
    refine ⟨ts', scheduled.queue, ?_, ?_⟩
    · intro i member
      rw [times]
      rcases (scheduled.members i).mp member with rfl | before
      · rw [if_pos rfl]
        exact Int.le_of_eq scheduled.own.1
      · rw [if_neg (fun same : i = evt' => old (same ▸ before)), (scheduled.others i before).1]
        exact waiting.within i before
    · intro i member
      rcases (scheduled.members i).mp member with rfl | before
      · rw [scheduled.own.2.2]
        exact typed
      · rw [(scheduled.others i before).2.2]
        exact waiting.typed i before

theorem Waiting.purge (waiting : Waiting ntcp s ts) (apart : Apart s tcb type ts) :
    ∃ ts', Waiting ntcp (tcpTimerPurge ntcp s tcb type).1 ts' := by
  have purged := tcpTimerPurge_spec waiting.queue apart
  refine ⟨_, purged.queue, ?_, ?_⟩
  · intro i member
    obtain ⟨before, stays⟩ := List.mem_filter.mp member
    rw [purged.others i before (by simpa using stays), tcpTimerPurge, purgeLoop_time]
    exact waiting.within i before
  · intro i member
    rw [(purged.labels i).2]
    exact waiting.typed i (List.mem_filter.mp member).1

theorem Waiting.advanced {elapse : Nat} {r : Timers × Option (Nat × Nat)} (waiting : Waiting ntcp s ts)
    (times : ∀ i, (r.1.tab i).time = (s.tab i).time) (advanced : Advanced ntcp s ts elapse r) :
    ∃ ts', Waiting ntcp r.1 ts' := by
  obtain ⟨s', fires⟩ := r
  cases fires with
  | none =>
      obtain ⟨queue, -, sums, labels⟩ := advanced
      refine ⟨ts, queue, ?_, ?_⟩
      · intro i member
        have before := waiting.within i member
        rw [sums i member, times]
        omega
      · intro i member
        rw [(labels i).2]
        exact waiting.typed i member
  | some fires =>
      obtain ⟨first, left⟩ := fires
      obtain ⟨rest, rfl, enough, fired⟩ := advanced
      refine ⟨rest, fired.queue, ?_, ?_⟩
      · intro i member
        have before := waiting.within i (List.mem_cons_of_mem _ member)
        rw [fired.others i member, times]
        omega
      · intro i member
        rw [(fired.labels i).2]
        exact waiting.typed i (List.mem_cons_of_mem _ member)

theorem Waiting.tick (waiting : Waiting ntcp s ts) (elapse : Nat) : ∃ ts', Waiting ntcp (s.advance elapse).1 ts' := by
  rcases Nat.eq_zero_or_pos elapse with rfl | positive
  · have idle : (s.advance 0).1 = s := by
      rw [advance]
      cases (s.tab TCP_EVT_HEAD).next <;> rfl
    rw [idle]
    exact ⟨ts, waiting⟩
  · exact waiting.advanced (advance_time s elapse) (advance_spec waiting.queue (.inl positive))

end Timers

namespace Ticker
open Timers
variable {ntcp : Nat} {s s' : Ticker}

/-- No two neighbours are purged at once, and every event has a type. -/
def Spaced (ntcp : Nat) (s : Ticker) : TimerOp → Prop
  | .sched _ _ type => type ≠ 0
  | .purge tcb type => Apart s.timers tcb type (events ntcp s.timers)
  | _ => True

theorem step_waiting {ts : List Nat} {op : TimerOp} (some : 0 < ntcp) (waiting : Waiting ntcp s.timers ts)
    (spaced : Spaced ntcp s op) (action : step ntcp op s = .some s') : ∃ ts', Waiting ntcp s'.timers ts' := by
  cases op with
  | sched time tcb type =>
      cases action
      exact waiting.sched some spaced
  | purge tcb type =>
      cases action
      rw [Spaced, waiting.queue.events_eq] at spaced
      exact waiting.purge spaced
  | tick elapse =>
      simp only [step] at action
      split at action
      · cases action
        exact waiting.tick elapse
      · cases action
  | resume =>
      simp only [step] at action
      split at action
      · cases action
      · cases action
        exact waiting.advanced (resume_time s.timers _) (resume_spec waiting.queue)

theorem reach_waiting (some : 0 < ntcp) (reach : Lib.Reach (step ntcp) (Spaced ntcp) init s) :
    Waiting ntcp s.timers (events ntcp s.timers) := by
  have ⟨ts, waiting⟩ : ∃ ts, Waiting ntcp s.timers ts := by
    refine reach.invariant (P := fun s => ∃ ts, Waiting ntcp s.timers ts) ⟨[], init_queue, nofun, nofun⟩ ?_
    intro s s' op ⟨ts, waiting⟩ spaced action
    exact step_waiting some waiting spaced action
  rw [waiting.queue.events_eq]
  exact waiting

/-- The purge returns the time since the event was scheduled, as `tcpTimerRemain` has it. -/
structure Elapsed (ntcp : Nat) (s : Timers) (tcb type evt : Nat) : Prop where
  total : (tcpTimerPurge ntcp s tcb type).2 = (s.tab evt).time - keySum s.remain (events ntcp s) evt
  agrees : (tcpTimerPurge ntcp s tcb type).2 = (s.tab evt).time - tcpTimerRemain ntcp s tcb type
  nonneg : 0 ≤ (tcpTimerPurge ntcp s tcb type).2
  most : (tcpTimerPurge ntcp s tcb type).2 ≤ (s.tab evt).time

/-- In every state of a run the purge returns what has elapsed just when no event in front of the first
removed one has time left, and no time is left at all if there is no type to ask for. -/
theorem purge_elapsed (some : 0 < ntcp) (reach : Lib.Reach (step ntcp) (Spaced ntcp) init s) {tcb type evt : Nat}
    (first : (events ntcp s.timers).find? (s.timers.purges tcb type) = .some evt) :
    Elapsed ntcp s.timers tcb type evt ↔
      (∀ i ∈ (events ntcp s.timers).takeWhile (fun i => !s.timers.purges tcb type i), s.timers.remain i = 0) ∧
        (type = 0 → s.timers.remain evt = 0) := by
  have waiting := reach_waiting some reach
  have queue := waiting.queue
  have member := List.mem_of_find?_eq_some first
  have within := waiting.within evt member
  have own := Lib.key_le_keySum queue.positive member
  have positive := queue.positive evt member
  have ahead := Lib.keySum_eq_key_iff queue.positive first
  have result : (tcpTimerPurge ntcp s.timers tcb type).2 = (s.timers.tab evt).time - s.timers.remain evt := by
    rw [tcpTimerPurge, queue.first]
    apply purgeLoop_first queue.line queue.short first
    rw [remain] at own
    omega
  have left : tcpTimerRemain ntcp s.timers tcb type =
      if type = 0 then 0 else keySum s.timers.remain (events ntcp s.timers) evt := by
    rw [tcpTimerRemain, queue.first, remainFor_eq 0 queue.line queue.short]
    by_cases zero : type = 0
    · have none : (events ntcp s.timers).find? (fun i => (s.timers.tab i).tcb = tcb ∧ (s.timers.tab i).type = type) =
          none := by
        rw [List.find?_eq_none]
        intro i member both
        exact waiting.typed i member (by simpa [zero] using (of_decide_eq_true both).2)
      rw [none, if_pos zero]
    · have same : s.timers.purges tcb type = fun i => (s.timers.tab i).tcb = tcb ∧ (s.timers.tab i).type = type := by
        funext i
        simp [purges, zero]
      rw [← same, first, if_neg zero]
      exact Int.zero_add _
  rw [← ahead]
  constructor
  · intro elapsed
    have total := elapsed.total
    have agrees := elapsed.agrees
    rw [result] at total agrees
    rw [left] at agrees
    refine ⟨by omega, fun zero => ?_⟩
    rw [if_pos zero] at agrees
    omega
  · rintro ⟨alone, due⟩
    refine ⟨by rw [result, alone], ?_, by omega, by omega⟩
    rw [result, left]
    split
    case isTrue zero => rw [due zero]
    case isFalse => rw [alone]

def behindOther : Ticker :=
  { timers := ((tcpTimerSched 7 (tcpTimerSched 7 Timers.init 300 1 TCP_EVT_RXT).1 500 0 TCP_EVT_RXT).1.advance 100).1
    left := none }

theorem behindOther_reached : Lib.Reach (step 7) (Spaced 7) init behindOther :=
  .next (a := .tick 100) (.next (a := .sched 500 0 TCP_EVT_RXT) (.next (a := .sched 300 1 TCP_EVT_RXT) .init
    (show TCP_EVT_RXT ≠ 0 by decide) rfl) (show TCP_EVT_RXT ≠ 0 by decide) rfl) trivial rfl

theorem behindOther_purge : (tcpTimerPurge 7 behindOther.timers 0 TCP_EVT_RXT).2 = 300 ∧
    tcpTimerRemain 7 behindOther.timers 0 TCP_EVT_RXT = 400 ∧
      ¬ Elapsed 7 behindOther.timers 0 TCP_EVT_RXT 4 := by
  have result : (tcpTimerPurge 7 behindOther.timers 0 TCP_EVT_RXT).2 = 300 := by decide +kernel
  have left : tcpTimerRemain 7 behindOther.timers 0 TCP_EVT_RXT = 400 := by decide +kernel
  have time : (behindOther.timers.tab 4).time = 500 := by decide +kernel
  refine ⟨result, left, fun elapsed => ?_⟩
  have agrees := elapsed.agrees
  rw [result, left, time] at agrees
  cases agrees

theorem purge_elapsed_first : Elapsed 7 behindOther.timers 1 TCP_EVT_RXT 2 :=
  (purge_elapsed (by decide) behindOther_reached (by decide +kernel)).mpr (by decide +kernel)

end Ticker

end Xinu.Tcp
