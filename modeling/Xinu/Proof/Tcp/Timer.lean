import Mathlib.Data.List.Perm.Subperm
import Xinu.Lib.Delta
import Xinu.Lib.Links
import Xinu.Lib.Runs
import Xinu.System.TcpTimer

namespace Xinu.Tcp
open Lib (Line Delta deltaSplit keySum)

namespace Timers
variable {ntcp : Nat} {s s' : Timers} {ts : List Nat} {time : Int}

def next (s : Timers) (i : Nat) : Option Nat := (s.tab i).next
def remain (s : Timers) (i : Nat) : Int := (s.tab i).remain

/-- The list from the head has the events `ts`: they are the ones in use. -/
structure Queue (ntcp : Nat) (s : Timers) (ts : List Nat) : Prop where
  line : Line s.next (TCP_EVT_HEAD :: ts)
  nodup : (TCP_EVT_HEAD :: ts).Nodup
  used : ∀ i, i ∈ ts ↔ i ≠ TCP_EVT_HEAD ∧ (s.tab i).used
  bound : ∀ i ∈ ts, i ≤ 3 * ntcp
  positive : ∀ i ∈ ts, 0 ≤ s.remain i

namespace Queue

theorem first (queue : Queue ntcp s ts) : (s.tab TCP_EVT_HEAD).next = ts.head? := queue.line.1

theorem short (queue : Queue ntcp s ts) : ts.length < walkLimit ntcp := by
  have inside : ts ⊆ (List.range (3 * ntcp + 1)).erase TCP_EVT_HEAD := by
    intro i member
    have bound := queue.bound i member
    have apart := ((queue.used i).mp member).1
    rw [List.mem_erase_of_ne apart, List.mem_range]
    omega
  have fewer := (List.subperm_of_subset (List.nodup_cons.mp queue.nodup).2 inside).length_le
  rw [List.length_erase_of_mem (by simp), List.length_range] at fewer
  rw [walkLimit]
  omega

theorem delta (queue : Queue ntcp s ts) : Delta s.remain (keySum s.remain ts) 0 ts := by
  have sums := Lib.delta_keySum (s := 0) (List.nodup_cons.mp queue.nodup).2 queue.positive
  exact sums.congr (fun _ _ => rfl) fun t _ => (Int.zero_add _).symm

end Queue

theorem init_queue : Queue ntcp init [] where
  line := ⟨rfl, trivial⟩
  nodup := by simp
  used := by
    intro i
    by_cases head : i = TCP_EVT_HEAD <;> simp [init, head]
  bound := by simp
  positive := by simp

theorem allocEvent_spec (some : 0 < ntcp) (s : Timers) (fuel : Nat) :
    ((allocEvent ntcp fuel s).2 = none → (allocEvent ntcp fuel s).1.tab = s.tab) ∧
      ∀ evt, (allocEvent ntcp fuel s).2 = .some evt →
        evt ≠ TCP_EVT_HEAD ∧ evt ≤ 3 * ntcp ∧ (s.tab evt).used = false ∧
          (allocEvent ntcp fuel s).1.tab =
            Function.update s.tab evt { s.tab evt with used := true } := by
  induction fuel generalizing s with
  | zero => simp [allocEvent]
  | succ fuel ih =>
      have slot : succEvt ntcp s.nextevt ≠ TCP_EVT_HEAD ∧ succEvt ntcp s.nextevt ≤ 3 * ntcp := by
        have := Nat.mod_lt (s.nextevt + 1) (show 0 < 3 * ntcp by omega)
        simp only [succEvt, TCP_EVT_HEAD]
        omega
      rw [allocEvent]
      simp only [if_neg slot.1]
      split
      · rename_i free
        refine ⟨by simp, ?_⟩
        rintro evt ⟨⟩
        exact ⟨slot.1, slot.2, free, rfl⟩
      · exact ih { s with nextevt := succEvt ntcp s.nextevt }

theorem schedWalk_eq {prev fuel : Nat} (line : Line s.next (prev :: ts)) (short : ts.length < fuel) :
    s.schedWalk fuel prev ts.head? time =
      ((deltaSplit s.remain time ts).1.getLastD prev, (deltaSplit s.remain time ts).2.2.head?,
        (deltaSplit s.remain time ts).2.1) := by
  induction ts generalizing fuel prev time with
  | nil => cases fuel <;> rfl
  | cons u us ih =>
      obtain ⟨-, line⟩ := line
      cases fuel with
      | zero => cases short
      | succ fuel =>
          by_cases before : s.remain u ≤ time
          · have walked : s.schedWalk fuel u us.head? (time - s.remain u) = _ :=
              ih line (Nat.lt_of_succ_lt_succ short)
            have own : (s.tab u).next = us.head? := line.1
            have step : s.schedWalk (fuel + 1) prev (some u) time =
                s.schedWalk fuel u (s.tab u).next (time - s.remain u) := if_pos before
            rw [List.head?_cons, step, own, walked, deltaSplit, if_pos before, List.getLastD_cons]
          · have step : s.schedWalk (fuel + 1) prev (some u) time = (prev, some u, time) :=
              if_neg before
            rw [List.head?_cons, step, deltaSplit, if_neg before]
            rfl

section
variable {evt prev : Nat} {after : List Nat}

theorem insertEvent_next (apart : prev ≠ evt) (i : Nat) :
    (s.insertEvent evt prev after.head? time).next i =
      if i = prev then some evt else if i = evt then after.head? else s.next i := by
  cases after with
  | nil =>
      simp only [insertEvent, next, set, List.head?_nil, Function.update_apply]
      grind
  | cons u us =>
      simp only [insertEvent, next, set, List.head?_cons, Function.update_apply]
      grind

theorem insertEvent_remain (off : evt ∉ after) :
    (s.insertEvent evt prev after.head? time).remain =
      Delta.insertKey s.remain evt time after := by
  funext i
  cases after with
  | nil =>
      simp only [insertEvent, remain, set, List.head?_nil, Function.update_apply, Delta.insertKey]
      grind
  | cons u us =>
      simp only [insertEvent, remain, set, List.head?_cons, Function.update_apply, Delta.insertKey]
      grind

theorem insertEvent_labels (i : Nat) :
    ((s.insertEvent evt prev after.head? time).tab i).used = (s.tab i).used ∧
      ((s.insertEvent evt prev after.head? time).tab i).tcb = (s.tab i).tcb ∧
      ((s.insertEvent evt prev after.head? time).tab i).type = (s.tab i).type := by
  cases after with
  | nil =>
      simp only [insertEvent, set, List.head?_nil, Function.update_apply]
      grind
  | cons u us =>
      simp only [insertEvent, set, List.head?_cons, Function.update_apply]
      grind

end

theorem head_last (done : List Nat) :
    ∃ pre, TCP_EVT_HEAD :: done = pre ++ [done.getLastD TCP_EVT_HEAD] := by
  refine ⟨(TCP_EVT_HEAD :: done).dropLast, ?_⟩
  rw [← List.getLast_eq_getLastD]
  exact (List.dropLast_append_getLast (by simp)).symm

structure Scheduled (ntcp : Nat) (s s' : Timers) (ts ts' : List Nat) (time : Int) (tcb type evt : Nat) :
    Prop where
  queue : Queue ntcp s' ts'
  fresh : evt ∉ TCP_EVT_HEAD :: ts
  members : ∀ i, i ∈ ts' ↔ i = evt ∨ i ∈ ts
  own : keySum s'.remain ts' evt = time ∧ (s'.tab evt).tcb = tcb ∧ (s'.tab evt).type = type
  others : ∀ i ∈ ts, keySum s'.remain ts' i = keySum s.remain ts i ∧ (s'.tab i).tcb = (s.tab i).tcb ∧
    (s'.tab i).type = (s.tab i).type

theorem insertEvent_scheduled {evt tcb type : Nat} (queue : Queue ntcp s ts)
    (fresh : evt ≠ TCP_EVT_HEAD) (bound : evt ≤ 3 * ntcp) (free : (s.tab evt).used = false)
    (positive : 0 ≤ time) (s₁ : Timers)
    (taken : s₁.tab = Function.update s.tab evt { s.tab evt with used := true, time, type, tcb }) :
    Scheduled ntcp s
      (s₁.insertEvent evt ((deltaSplit s₁.remain time ts).1.getLastD TCP_EVT_HEAD)
        (deltaSplit s₁.remain time ts).2.2.head? (deltaSplit s₁.remain time ts).2.1) ts
      ((deltaSplit s₁.remain time ts).1 ++ evt :: (deltaSplit s₁.remain time ts).2.2) time tcb type evt := by
  have off : evt ∉ ts := by
    intro member
    have := ((queue.used evt).mp member).2
    rw [free] at this
    cases this
  have out : evt ∉ TCP_EVT_HEAD :: ts := by
    simp only [List.mem_cons, not_or]
    exact ⟨fresh, off⟩
  have cut := Lib.deltaSplit_append s₁.remain time ts
  generalize split : deltaSplit s₁.remain time ts = parts at *
  obtain ⟨before, rest, after⟩ := parts
  simp only at cut ⊢
  have same : ∀ i, i ≠ evt → s₁.tab i = s.tab i := by
    intro i apart
    rw [taken, Function.update_of_ne apart]
  have line : Line s₁.next (TCP_EVT_HEAD :: ts) := by
    refine queue.line.congr ?_
    intro i member
    rw [next, same i (fun eq => out (eq ▸ member)), next]
  have keys : ∀ i ∈ ts, s₁.remain i = s.remain i := by
    intro i member
    rw [remain, same i (fun eq => off (eq ▸ member)), remain]
  -- the new event comes behind the last of those before it, or behind the head
  obtain ⟨pre, last⟩ := head_last before
  have whole : TCP_EVT_HEAD :: ts = pre ++ before.getLastD TCP_EVT_HEAD :: after := by
    rw [← cut, ← List.cons_append, last, List.append_assoc]
    rfl
  have apart : before.getLastD TCP_EVT_HEAD ≠ evt := by
    intro eq
    exact out (by rw [whole, eq]; simp)
  have offAfter : evt ∉ after := fun member => off (by rw [← cut]; simp [member])
  have linked : Line (s₁.insertEvent evt (before.getLastD TCP_EVT_HEAD) after.head? rest).next
      (TCP_EVT_HEAD :: (before ++ evt :: after)) := by
    rw [← List.cons_append, last, List.append_assoc]
    refine Line.insert (whole ▸ line) (whole ▸ queue.nodup) (whole ▸ out) ?_ ?_ ?_
    · rw [insertEvent_next apart, if_pos rfl]
    · rw [insertEvent_next apart, if_neg apart.symm, if_pos rfl]
    · intro i notPrev notEvt
      rw [insertEvent_next apart, if_neg notPrev, if_neg notEvt]
  have members : ∀ i, i ∈ before ++ evt :: after ↔ i = evt ∨ i ∈ ts := by
    intro i
    rw [← cut]
    simp only [List.mem_append, List.mem_cons]
    tauto
  have nodup : (evt :: ts).Nodup := List.nodup_cons.mpr ⟨off, (List.nodup_cons.mp queue.nodup).2⟩
  have waiting : Delta s₁.remain (Function.update (keySum s.remain ts) evt time) 0 ts := by
    refine queue.delta.congr keys ?_
    intro i member
    have ne : i ≠ evt := fun eq => off (eq ▸ member)
    rw [Function.update_of_ne ne]
  have delta : Delta (s₁.insertEvent evt (before.getLastD TCP_EVT_HEAD) after.head? rest).remain
      (Function.update (keySum s.remain ts) evt time) 0 (before ++ evt :: after) := by
    have inserted := waiting.insert nodup positive (by simp)
    rw [split] at inserted
    rw [insertEvent_remain offAfter]
    exact inserted
  refine ⟨⟨linked, ?_, ?_, ?_, delta.positive⟩, out, members, ⟨?_, ?_, ?_⟩, ?_⟩
  · have perm : (TCP_EVT_HEAD :: (before ++ evt :: after)).Perm (evt :: TCP_EVT_HEAD :: ts) := by
      rw [← cut]
      exact (List.Perm.cons _ List.perm_middle).trans (List.Perm.swap ..)
    rw [perm.nodup_iff]
    exact List.nodup_cons.mpr ⟨out, queue.nodup⟩
  · intro i
    rw [members, (insertEvent_labels i).1]
    by_cases new : i = evt
    · simp [new, taken, fresh]
    · simp [new, queue.used i, same i new]
  · intro i member
    rcases (members i).mp member with rfl | member
    · exact bound
    · exact queue.bound i member
  · have sum := delta.left_eq ((members evt).mpr (.inl rfl))
    simp only [Function.update_self, Int.zero_add] at sum
    exact sum.symm
  · rw [(insertEvent_labels evt).2.1, taken]
    simp
  · rw [(insertEvent_labels evt).2.2, taken]
    simp
  · intro i member
    have ne : i ≠ evt := fun eq => off (eq ▸ member)
    have sum := delta.left_eq ((members i).mpr (.inr member))
    rw [Function.update_of_ne ne, Int.zero_add] at sum
    exact ⟨sum.symm, by rw [(insertEvent_labels i).2.1, same i ne],
      by rw [(insertEvent_labels i).2.2, same i ne]⟩

theorem tcpTimerSched_spec (queue : Queue ntcp s ts) (some : 0 < ntcp) (time : Int) (tcb type : Nat) :
    ((tcpTimerSched ntcp s time tcb type).2 = SYSERR ∧ (tcpTimerSched ntcp s time tcb type).1.tab = s.tab) ∨
      (tcpTimerSched ntcp s time tcb type).2 = OK ∧ 0 ≤ time ∧
        ∃ evt ts', Scheduled ntcp s (tcpTimerSched ntcp s time tcb type).1 ts ts' time tcb type evt := by
  rw [tcpTimerSched]
  split
  · exact .inl ⟨rfl, rfl⟩
  · rename_i positive
    obtain ⟨full, found⟩ := allocEvent_spec some s (3 * ntcp + 1)
    split
    · rename_i s₀ result
      rw [result] at full
      exact .inl ⟨rfl, full rfl⟩
    · rename_i s₀ evt result
      rw [result] at found
      obtain ⟨fresh, bound, free, taken⟩ := found evt rfl
      right
      have set : (s₀.set evt { s₀.tab evt with time, type, tcb }).tab =
          Function.update s.tab evt { s.tab evt with used := true, time, type, tcb } := by
        simp only [Timers.set]
        rw [show s₀.tab = _ from taken]
        simp
      have off : evt ∉ TCP_EVT_HEAD :: ts := by
        simp only [List.mem_cons, not_or]
        refine ⟨fresh, fun member => ?_⟩
        have := ((queue.used evt).mp member).2
        rw [free] at this
        cases this
      have line : Line (s₀.set evt { s₀.tab evt with time, type, tcb }).next (TCP_EVT_HEAD :: ts) := by
        refine queue.line.congr ?_
        intro i member
        have ne : i ≠ evt := fun eq => off (eq ▸ member)
        rw [next, set, Function.update_of_ne ne, next]
      have first : ((s₀.set evt { s₀.tab evt with time, type, tcb }).tab TCP_EVT_HEAD).next = ts.head? :=
        line.1
      simp only [first, schedWalk_eq line queue.short]
      exact ⟨trivial, by omega, evt, _, insertEvent_scheduled queue fresh bound free (by omega) _ set⟩

section
variable {prev cur tcb type : Nat} {us : List Nat}

theorem removeEvent_next (own : s.next cur = us.head?) (off : prev ≠ cur) (i : Nat) :
    (s.removeEvent prev cur).next i = if i = prev then us.head? else s.next i := by
  rw [next] at own
  simp only [removeEvent, own]
  cases us with
  | nil =>
      simp only [next, set, List.head?_nil, Function.update_apply, own]
      grind
  | cons u us =>
      simp only [next, set, List.head?_cons, Function.update_apply]
      grind

theorem removeEvent_remain (own : s.next cur = us.head?) (off : cur ∉ us) :
    (s.removeEvent prev cur).remain = Delta.eraseKey s.remain (s.remain cur) us := by
  rw [next] at own
  funext i
  simp only [removeEvent, own]
  cases us with
  | nil =>
      simp only [remain, set, List.head?_nil, Function.update_apply, Delta.eraseKey]
      grind
  | cons u us =>
      simp only [remain, set, List.head?_cons, Function.update_apply, Delta.eraseKey]
      grind

theorem removeEvent_labels (i : Nat) :
    ((s.removeEvent prev cur).tab i).used = (decide (i ≠ cur) && (s.tab i).used) ∧
      ((s.removeEvent prev cur).tab i).tcb = (s.tab i).tcb ∧
      ((s.removeEvent prev cur).tab i).type = (s.tab i).type := by
  simp only [removeEvent]
  cases (s.tab cur).next with
  | none =>
      simp only [set, Function.update_apply]
      grind
  | some u =>
      simp only [set, Function.update_apply]
      grind

theorem purges_congr (tcb type : Nat)
    (same : ∀ i, (s'.tab i).tcb = (s.tab i).tcb ∧ (s'.tab i).type = (s.tab i).type) :
    s'.purges tcb type = s.purges tcb type := by
  funext i
  rw [purges, purges, (same i).1, (same i).2]

theorem removeEvent_unlinks {done : List Nat} {t : Nat} {left : Nat → Int}
    (line : Line s.next (TCP_EVT_HEAD :: (done ++ t :: us)))
    (nodup : (TCP_EVT_HEAD :: (done ++ t :: us)).Nodup) (delta : Delta s.remain left 0 (done ++ t :: us)) :
    let s' := s.removeEvent (done.getLastD TCP_EVT_HEAD) t
    Line s'.next (TCP_EVT_HEAD :: (done ++ us)) ∧ (TCP_EVT_HEAD :: (done ++ us)).Nodup ∧
      Delta s'.remain left 0 (done ++ us) ∧ (s'.tab t).next = us.head? := by
  have own : s.next t = us.head? := Line.next_eq (show Line s.next ((TCP_EVT_HEAD :: done) ++ t :: us) from line)
  obtain ⟨pre, split⟩ := head_last done
  generalize done.getLastD TCP_EVT_HEAD = prev at split
  have joined : ∀ us, TCP_EVT_HEAD :: (done ++ us) = pre ++ prev :: us := by
    intro us
    rw [← List.cons_append, split, List.append_assoc]
    rfl
  rw [joined] at line nodup
  have right := (List.nodup_append.mp nodup).2.1
  simp only [List.nodup_cons, List.mem_cons, not_or] at right
  refine ⟨?_, ?_, ?_, ?_⟩
  · rw [joined]
    refine line.remove nodup ?_ ?_
    · rw [removeEvent_next own right.1.1, if_pos rfl]
    · intro i notPrev _
      rw [removeEvent_next own right.1.1, if_neg notPrev]
  · rw [joined]
    exact nodup.sublist (List.Sublist.append_left (.cons_cons _ (.cons _ (.refl _))) _)
  · rw [removeEvent_remain own right.2.1]
    rw [← joined] at nodup
    exact delta.erase (List.nodup_cons.mp nodup).2
  · have kept := removeEvent_next own right.1.1 t
    rw [if_neg (Ne.symm right.1.1), own] at kept
    exact kept

def Apart (s : Timers) (tcb type : Nat) (ts : List Nat) : Prop :=
  ts.IsChain fun i j => ¬ (s.purges tcb type i = true ∧ s.purges tcb type j = true)

theorem purgeLoop_spec {fuel : Nat} {done : List Nat} {left : Nat → Int} (prev : Nat) (result : Int)
    (line : Line s.next (TCP_EVT_HEAD :: (done ++ ts))) (nodup : (TCP_EVT_HEAD :: (done ++ ts)).Nodup)
    (short : ts.length < fuel) (apart : Apart s tcb type ts)
    (last : prev = done.getLastD TCP_EVT_HEAD ∨ ∀ u ∈ ts.head?, s.purges tcb type u = false)
    (delta : Delta s.remain left 0 (done ++ ts)) :
    let s' := (purgeLoop tcb type fuel s prev ts.head? result).1
    let kept := done ++ ts.filter fun i => !s.purges tcb type i
    Line s'.next (TCP_EVT_HEAD :: kept) ∧ Delta s'.remain left 0 kept ∧
      (∀ i, (s'.tab i).used = ((s.tab i).used && !(decide (i ∈ ts) && s.purges tcb type i))) ∧
      ∀ i, (s'.tab i).tcb = (s.tab i).tcb ∧ (s'.tab i).type = (s.tab i).type := by
  induction ts generalizing fuel s done prev result with
  | nil =>
      cases fuel with
      | zero => cases short
      | succ fuel => exact ⟨line, delta, by simp [purgeLoop], fun i => ⟨rfl, rfl⟩⟩
  | cons t us ih =>
      cases fuel with
      | zero => cases short
      | succ fuel =>
          have own : s.next t = us.head? :=
            Line.next_eq (show Line s.next ((TCP_EVT_HEAD :: done) ++ t :: us) from line)
          have behind := List.IsChain.tail apart
          cases matched : s.purges tcb type t with
          | false =>
              have step : purgeLoop tcb type (fuel + 1) s prev (some t) result =
                  purgeLoop tcb type fuel s t us.head? result := by
                rw [purgeLoop, if_neg (by rw [matched]; decide), show (s.tab t).next = us.head? from own]
              rw [List.append_cons] at line nodup delta
              have rest := ih t result line nodup (Nat.lt_of_succ_lt_succ short) behind
                (.inl (List.getLastD_concat ..).symm) delta
              rw [List.head?_cons, step, List.filter_cons_of_pos (by rw [matched]; rfl), List.append_cons]
              refine ⟨rest.1, rest.2.1, fun i => ?_, rest.2.2.2⟩
              rw [rest.2.2.1 i]
              by_cases same : i = t
              · subst same
                simp [matched]
              · simp [same]
          | true =>
              have prevLast : prev = done.getLastD TCP_EVT_HEAD := by
                refine last.resolve_right fun stays => ?_
                have := stays t rfl
                rw [matched] at this
                cases this
              subst prevLast
              obtain ⟨line', nodup', delta', own'⟩ := removeEvent_unlinks line nodup delta
              have labels : ∀ i, ((s.removeEvent (done.getLastD TCP_EVT_HEAD) t).tab i).tcb = (s.tab i).tcb ∧
                  ((s.removeEvent (done.getLastD TCP_EVT_HEAD) t).tab i).type = (s.tab i).type :=
                fun i => (removeEvent_labels i).2
              have purges := purges_congr tcb type labels
              have step : purgeLoop tcb type (fuel + 1) s (done.getLastD TCP_EVT_HEAD) (some t) result =
                  purgeLoop tcb type fuel (s.removeEvent (done.getLastD TCP_EVT_HEAD) t) t us.head?
                    (if result = SYSERR then (s.tab t).time - (s.tab t).remain else result) := by
                rw [purgeLoop, if_pos matched]
                simp only [own']
              have stays : ∀ u ∈ us.head?,
                  (s.removeEvent (done.getLastD TCP_EVT_HEAD) t).purges tcb type u = false := by
                intro u first
                cases us with
                | nil => cases first
                | cons v vs =>
                    have eq : v = u := Option.some.inj first
                    have neighbours := (List.isChain_cons_cons.mp apart).1
                    rw [purges, ← eq]
                    cases other : s.purges tcb type v with
                    | false => rfl
                    | true => exact absurd ⟨matched, other⟩ neighbours
              have rest := ih t (if result = SYSERR then (s.tab t).time - (s.tab t).remain else result)
                line' nodup' (Nat.lt_of_succ_lt_succ short) (by rw [Apart, purges]; exact behind)
                (.inr stays) delta'
              rw [List.head?_cons, step, List.filter_cons_of_neg (by rw [matched]; decide)]
              rw [purges] at rest
              refine ⟨rest.1, rest.2.1, fun i => ?_, fun i => ?_⟩
              · rw [rest.2.2.1 i, (removeEvent_labels i).1]
                by_cases same : i = t
                · subst same
                  simp [matched]
                · simp [same]
              · rw [(rest.2.2.2 i).1, (rest.2.2.2 i).2]
                exact labels i

structure Purged (ntcp : Nat) (s s' : Timers) (ts : List Nat) (tcb type : Nat) : Prop where
  queue : Queue ntcp s' (ts.filter fun i => !s.purges tcb type i)
  others : ∀ i ∈ ts, s.purges tcb type i = false →
    keySum s'.remain (ts.filter fun i => !s.purges tcb type i) i = keySum s.remain ts i
  labels : ∀ i, (s'.tab i).tcb = (s.tab i).tcb ∧ (s'.tab i).type = (s.tab i).type

theorem tcpTimerPurge_spec (queue : Queue ntcp s ts) (apart : Apart s tcb type ts) :
    Purged ntcp s (tcpTimerPurge ntcp s tcb type).1 ts tcb type := by
  obtain ⟨line, delta, used, labels⟩ := @purgeLoop_spec _ _ _ _ _ [] _ TCP_EVT_HEAD SYSERR
    queue.line queue.nodup queue.short apart (.inl rfl) queue.delta
  rw [← queue.first] at line delta used labels
  rw [List.nil_append] at line delta
  refine ⟨⟨line, ?_, ?_, ?_, delta.positive⟩, ?_, labels⟩
  · exact queue.nodup.sublist (.cons_cons _ List.filter_sublist)
  · intro i
    have was := queue.used i
    rw [tcpTimerPurge, used i, List.mem_filter]
    by_cases member : i ∈ ts
    · obtain ⟨head, inUse⟩ := was.mp member
      simp [member, head, inUse]
    · have unused : ¬ (i ≠ TCP_EVT_HEAD ∧ (s.tab i).used = true) := fun both => member (was.mpr both)
      simp only [member, false_and, decide_false, Bool.false_and, Bool.not_false, Bool.and_true,
        false_iff]
      exact unused
  · intro i member
    exact queue.bound i (List.mem_filter.mp member).1
  · intro i member stays
    have sum := delta.left_eq (List.mem_filter.mpr ⟨member, by rw [stays]; rfl⟩)
    rw [Int.zero_add] at sum
    exact sum.symm

end

section
variable {elapse first : Nat}

theorem fire_next (i : Nat) :
    (s.fire first).next i = if i = TCP_EVT_HEAD then s.next first else s.next i := by
  simp only [fire, next, set, Function.update_apply]
  grind

theorem fire_labels (i : Nat) :
    (s.fire first).remain i = s.remain i ∧
      ((s.fire first).tab i).used = (decide (i ≠ first) && (s.tab i).used) ∧
      ((s.fire first).tab i).tcb = (s.tab i).tcb ∧ ((s.fire first).tab i).type = (s.tab i).type := by
  simp only [fire, remain, set, Function.update_apply]
  grind

structure Fired (ntcp : Nat) (s s' : Timers) (first : Nat) (rest : List Nat) (d : Int) : Prop where
  queue : Queue ntcp s' rest
  due : keySum s.remain (first :: rest) first = d
  others : ∀ i ∈ rest, keySum s'.remain rest i = keySum s.remain (first :: rest) i - d
  labels : ∀ i, (s'.tab i).tcb = (s.tab i).tcb ∧ (s'.tab i).type = (s.tab i).type

theorem fire_spec {rest : List Nat} (queue : Queue ntcp s (first :: rest)) (due : s.remain first = 0) :
    Fired ntcp s (s.fire first) first rest 0 := by
  have apart : first ≠ TCP_EVT_HEAD := ((queue.used first).mp (by simp)).1
  have nodup := queue.nodup
  simp only [List.nodup_cons, List.mem_cons, not_or] at nodup
  have keys : (s.fire first).remain = s.remain := funext fun i => (fire_labels i).1
  refine ⟨⟨?_, ?_, ?_, ?_, ?_⟩, ?_, ?_, fun i => (fire_labels i).2.2⟩
  · refine ⟨?_, queue.line.2.2.congr ?_⟩
    · rw [fire_next, if_pos rfl]
      exact queue.line.2.1
    · intro i member
      have ne : i ≠ TCP_EVT_HEAD := fun eq => nodup.1.2 (eq ▸ member)
      rw [fire_next, if_neg ne]
  · exact List.nodup_cons.mpr ⟨nodup.1.2, nodup.2.2⟩
  · intro i
    rw [(fire_labels i).2.1]
    have was := queue.used i
    rw [List.mem_cons] at was
    by_cases same : i = first
    · simp [same, nodup.2.1]
    · simp only [same, false_or] at was
      simp [same, was]
  · intro i member
    exact queue.bound i (by simp [member])
  · intro i member
    rw [keys]
    exact queue.positive i (by simp [member])
  · simp [keySum, due]
  · intro i member
    have ne : i ≠ first := fun eq => nodup.2.1 (eq ▸ member)
    rw [keys, keySum, if_neg ne, due]
    omega

theorem pass_spec {rest : List Nat} (queue : Queue ntcp s (first :: rest)) {d : Int}
    (enough : d ≤ s.remain first) :
    Queue ntcp (s.set first { s.tab first with remain := s.remain first - d }) (first :: rest) ∧
      ∀ i ∈ first :: rest,
        keySum (s.set first { s.tab first with remain := s.remain first - d }).remain (first :: rest) i =
          keySum s.remain (first :: rest) i - d := by
  have keys : (s.set first { s.tab first with remain := s.remain first - d }).remain =
      Function.update s.remain first (s.remain first - d) := by
    funext i
    simp only [remain, set, Function.update_apply]
    split <;> rfl
  have nexts : (s.set first { s.tab first with remain := s.remain first - d }).next = s.next := by
    funext i
    simp only [next, set, Function.update_apply]
    split
    · rename_i same
      rw [same]
    · rfl
  have delta := queue.delta.pass enough (List.nodup_cons.mp queue.nodup).2
  rw [← keys] at delta
  refine ⟨⟨by rw [nexts]; exact queue.line, queue.nodup, ?_, queue.bound, delta.positive⟩, ?_⟩
  · intro i
    rw [queue.used i]
    simp only [set, Function.update_apply]
    split
    · rename_i same
      rw [same]
    · rfl
  · intro i member
    have sum := delta.left_eq member
    rw [Int.zero_add] at sum
    exact sum.symm

def Advanced (ntcp : Nat) (s : Timers) (ts : List Nat) (elapse : Nat) (r : Timers × Option (Nat × Nat)) :
    Prop :=
  match r with
  | (s', none) =>
      Queue ntcp s' ts ∧ (∀ i ∈ ts, elapse < keySum s.remain ts i) ∧
        (∀ i ∈ ts, keySum s'.remain ts i = keySum s.remain ts i - elapse) ∧
        ∀ i, (s'.tab i).tcb = (s.tab i).tcb ∧ (s'.tab i).type = (s.tab i).type
  | (s', some (first, left)) =>
      ∃ rest, ts = first :: rest ∧ left ≤ elapse ∧ Fired ntcp s s' first rest (elapse - left)

theorem advance_spec (queue : Queue ntcp s ts)
    (ready : 0 < elapse ∨ ∀ i ∈ ts.head?, 0 < s.remain i) :
    Advanced ntcp s ts elapse (s.advance elapse) := by
  rw [advance, queue.first]
  cases ts with
  | nil => exact ⟨queue, by simp, by simp, fun i => ⟨rfl, rfl⟩⟩
  | cons first rest =>
      have positive := queue.positive first (by simp)
      simp only [List.head?_cons]
      split
      · rename_i zero
        subst zero
        have waits : 0 < s.remain first := by simpa using ready
        refine ⟨queue, ?_, by simp, fun i => ⟨rfl, rfl⟩⟩
        intro i member
        exact queue.delta.lt_left waits member
      · split
        · rename_i later
          obtain ⟨passed, sums⟩ := pass_spec queue (show (elapse : Int) ≤ s.remain first by
            rw [remain]
            omega)
          refine ⟨passed, ?_, sums, ?_⟩
          · intro i member
            have sum := queue.delta.le_left member
            have first_le : s.remain first ≤ keySum s.remain (first :: rest) i := by
              obtain ⟨-, own, others⟩ := queue.delta
              rcases List.mem_cons.mp member with rfl | member
              · simp [keySum]
              · have := others.le_left member
                omega
            rw [remain] at first_le
            omega
          · intro i
            simp only [set, Function.update_apply]
            split
            · rename_i same
              rw [same]
              exact ⟨rfl, rfl⟩
            · exact ⟨rfl, rfl⟩
        · rename_i due
          obtain ⟨passed, sums⟩ := pass_spec queue (Int.le_refl (s.remain first))
          rw [Int.sub_self] at passed sums
          have fired := fire_spec passed (by simp [remain, set])
          rw [remain] at positive
          refine ⟨rest, rfl, by omega, fired.queue, ?_, ?_, ?_⟩
          · simp only [keySum, if_true, remain]
            omega
          · intro i member
            rw [fired.others i member, sums i (by simp [member]), remain]
            omega
          · intro i
            rw [(fired.labels i).1, (fired.labels i).2]
            simp only [set, Function.update_apply]
            split
            · rename_i same
              rw [same]
              exact ⟨rfl, rfl⟩
            · exact ⟨rfl, rfl⟩

theorem resume_spec (queue : Queue ntcp s ts) : Advanced ntcp s ts elapse (s.resume elapse) := by
  rw [resume, queue.first]
  cases ts with
  | nil => exact ⟨queue, by simp, by simp, fun i => ⟨rfl, rfl⟩⟩
  | cons first rest =>
      have positive := queue.positive first (by simp)
      rw [remain] at positive
      simp only [List.head?_cons]
      split
      · have fired := fire_spec queue (by rw [remain]; omega)
        refine ⟨rest, rfl, Nat.le_refl _, ?_⟩
        rw [Int.sub_self]
        exact fired
      · refine advance_spec queue (.inr ?_)
        rintro i ⟨⟩
        rw [remain]
        omega

def through : Nat → Timers × Option (Nat × Nat) → Timers × List Nat
  | 0, (s, _) => (s, [])
  | _, (s, none) => (s, [])
  | fuel + 1, (s, some (first, left)) =>
      let (s, fired) := through fuel (s.resume left)
      (s, first :: fired)

theorem through_spec {fuel : Nat} {r : Timers × Option (Nat × Nat)} (short : ts.length < fuel)
    (queue : Queue ntcp s ts) (advanced : Advanced ntcp s ts elapse r) :
    let rest := ts.filter fun i => (elapse : Int) < keySum s.remain ts i
    (through fuel r).2 = ts.filter (fun i => keySum s.remain ts i ≤ elapse) ∧
      Queue ntcp (through fuel r).1 rest ∧
      ∀ i ∈ rest, keySum (through fuel r).1.remain rest i = keySum s.remain ts i - elapse := by
  induction fuel generalizing s ts elapse r with
  | zero => cases short
  | succ fuel ih =>
      obtain ⟨s', fires⟩ := r
      cases fires with
      | none =>
          obtain ⟨queue', later, sums, -⟩ := advanced
          have all : ts.filter (fun i => (elapse : Int) < keySum s.remain ts i) = ts := by
            rw [List.filter_eq_self]
            intro i member
            simpa using later i member
          have nothing : ts.filter (fun i => keySum s.remain ts i ≤ elapse) = [] := by
            rw [List.filter_eq_nil_iff]
            intro i member
            have := later i member
            simpa using this
          rw [all, nothing]
          exact ⟨rfl, queue', sums⟩
      | some fires =>
          obtain ⟨first, left⟩ := fires
          obtain ⟨rest, rfl, enough, fired⟩ := advanced
          have own : keySum s.remain (first :: rest) first ≤ elapse := by
            rw [fired.due]
            omega
          have rests := @ih _ _ left _ (Nat.lt_of_succ_lt_succ short) fired.queue
            (resume_spec fired.queue)
          have early : rest.filter (fun i => keySum s'.remain rest i ≤ left) =
              rest.filter (fun i => keySum s.remain (first :: rest) i ≤ elapse) := by
            apply List.filter_congr
            intro i member
            rw [fired.others i member, decide_eq_decide]
            omega
          have late : rest.filter (fun i => (left : Int) < keySum s'.remain rest i) =
              rest.filter (fun i => (elapse : Int) < keySum s.remain (first :: rest) i) := by
            apply List.filter_congr
            intro i member
            rw [fired.others i member, decide_eq_decide]
            omega
          simp only [early, late] at rests
          simp only [through]
          rw [List.filter_cons_of_pos (by simpa using own),
            List.filter_cons_of_neg (by simpa using own)]
          refine ⟨by rw [rests.1], rests.2.1, ?_⟩
          intro i member
          rw [rests.2.2 i member, fired.others i (List.mem_filter.mp member).1]
          omega

end

def walk (s : Timers) : Nat → Option Nat → List Nat
  | 0, _ => []
  | _, none => []
  | fuel + 1, some i => i :: s.walk fuel (s.tab i).next

def events (ntcp : Nat) (s : Timers) : List Nat := s.walk (walkLimit ntcp) (s.tab TCP_EVT_HEAD).next

theorem walk_eq {fuel prev : Nat} (line : Line s.next (prev :: ts)) (short : ts.length < fuel) :
    s.walk fuel ts.head? = ts := by
  induction ts generalizing fuel prev with
  | nil => cases fuel <;> rfl
  | cons t us ih =>
      cases fuel with
      | zero => cases short
      | succ fuel =>
          have own : (s.tab t).next = us.head? := line.2.1
          rw [List.head?_cons, walk, own, ih line.2 (Nat.lt_of_succ_lt_succ short)]

theorem Queue.events_eq (queue : Queue ntcp s ts) : events ntcp s = ts := by
  rw [events, queue.first, walk_eq queue.line queue.short]

end Timers

inductive TimerOp
  | sched (time : Int) (tcb type : Nat)
  | purge (tcb type : Nat)
  | tick (elapse : Nat)
  -- the timer is back from a trigger
  | resume
  deriving DecidableEq, Repr

structure Ticker where
  timers : Timers
  left : Option Nat

namespace Ticker
open Timers

def init : Ticker := ⟨Timers.init, none⟩

def step (ntcp : Nat) : TimerOp → Ticker → Option Ticker
  | .sched time tcb type, s => some { s with timers := (tcpTimerSched ntcp s.timers time tcb type).1 }
  | .purge tcb type, s => some { s with timers := (tcpTimerPurge ntcp s.timers tcb type).1 }
  | .tick elapse, s =>
      match s.left with
      | none =>
          let (timers, fired) := s.timers.advance elapse
          some ⟨timers, fired.map Prod.snd⟩
      | some _ => none
  | .resume, s =>
      match s.left with
      | none => none
      | some elapse =>
          let (timers, fired) := s.timers.resume elapse
          some ⟨timers, fired.map Prod.snd⟩

/-- No two neighbours are purged at once, and no tick is empty while an event is due. -/
def Careful (ntcp : Nat) (s : Ticker) : TimerOp → Prop
  | .purge tcb type => Apart s.timers tcb type (events ntcp s.timers)
  | .tick elapse => 0 < elapse ∨ ∀ i ∈ (s.timers.tab TCP_EVT_HEAD).next, 0 < s.timers.remain i
  | _ => True

/-- What an operation has to do. -/
def Effect (ntcp : Nat) (s s' : Ticker) : TimerOp → Prop
  | .sched time tcb type =>
      s'.timers.tab = s.timers.tab ∧ (tcpTimerSched ntcp s.timers time tcb type).2 = SYSERR ∨
        ∃ evt, Scheduled ntcp s.timers s'.timers (events ntcp s.timers) (events ntcp s'.timers) time tcb
          type evt
  | .purge tcb type => Purged ntcp s.timers s'.timers (events ntcp s.timers) tcb type
  | .tick elapse =>
      Advanced ntcp s.timers (events ntcp s.timers) elapse (s.timers.advance elapse) ∧
        -- and if nothing is done while the triggers run
        (through (walkLimit ntcp) (s.timers.advance elapse)).2 =
          (events ntcp s.timers).filter
            (fun i => keySum s.timers.remain (events ntcp s.timers) i ≤ elapse) ∧
        events ntcp (through (walkLimit ntcp) (s.timers.advance elapse)).1 =
          (events ntcp s.timers).filter
            (fun i => (elapse : Int) < keySum s.timers.remain (events ntcp s.timers) i) ∧
        ∀ i ∈ events ntcp (through (walkLimit ntcp) (s.timers.advance elapse)).1,
          keySum (through (walkLimit ntcp) (s.timers.advance elapse)).1.remain
            (events ntcp (through (walkLimit ntcp) (s.timers.advance elapse)).1) i =
          keySum s.timers.remain (events ntcp s.timers) i - elapse
  | .resume => ∀ elapse, s.left = some elapse →
      Advanced ntcp s.timers (events ntcp s.timers) elapse (s.timers.resume elapse)

variable {ntcp : Nat} {s s' : Ticker} {ts : List Nat}

theorem advanced_queue {elapse : Nat} {r : Timers × Option (Nat × Nat)}
    (advanced : Advanced ntcp s.timers ts elapse r) : ∃ ts', Queue ntcp r.1 ts' := by
  obtain ⟨timers, fires⟩ := r
  cases fires with
  | none => exact ⟨ts, advanced.1⟩
  | some fires =>
      obtain ⟨rest, -, -, fired⟩ := advanced
      exact ⟨rest, fired.queue⟩

theorem queue_congr {s s' : Timers} (queue : Queue ntcp s ts) (same : s'.tab = s.tab) :
    Queue ntcp s' ts := by
  have nexts : s'.next = s.next := by
    funext i
    rw [next, same, next]
  have keys : s'.remain = s.remain := by
    funext i
    rw [remain, same, remain]
  exact ⟨by rw [nexts]; exact queue.line, queue.nodup, by rw [same]; exact queue.used, queue.bound,
    by rw [keys]; exact queue.positive⟩

theorem step_queue {op : TimerOp} (some : 0 < ntcp) (queue : Queue ntcp s.timers ts)
    (careful : Careful ntcp s op) (action : step ntcp op s = .some s') :
    ∃ ts', Queue ntcp s'.timers ts' := by
  cases op with
  | sched time tcb type =>
      cases action
      rcases tcpTimerSched_spec queue some time tcb type with ⟨-, same⟩ | ⟨-, -, evt, ts', scheduled⟩
      · exact ⟨ts, queue_congr queue same⟩
      · exact ⟨ts', scheduled.queue⟩
  | purge tcb type =>
      cases action
      rw [Careful, queue.events_eq] at careful
      exact ⟨_, (tcpTimerPurge_spec queue careful).queue⟩
  | tick elapse =>
      rw [Careful, queue.first] at careful
      simp only [step] at action
      split at action
      · cases action
        exact advanced_queue (advance_spec queue careful)
      · cases action
  | resume =>
      simp only [step] at action
      split at action
      · cases action
      · cases action
        exact advanced_queue (resume_spec queue)

theorem reach_queue (some : 0 < ntcp) (reach : Lib.Reach (step ntcp) (Careful ntcp) init s) :
    Queue ntcp s.timers (events ntcp s.timers) := by
  have ⟨ts, queue⟩ : ∃ ts, Queue ntcp s.timers ts := by
    refine reach.invariant (P := fun s => ∃ ts, Queue ntcp s.timers ts) ⟨[], init_queue⟩ ?_
    intro s s' op ⟨ts, queue⟩ careful action
    exact step_queue some queue careful action
  rw [queue.events_eq]
  exact queue

/-- The timer queue over any run that purges no two neighbours at once. -/
theorem timer_queue (some : 0 < ntcp) (reach : Lib.Reach (step ntcp) (Careful ntcp) init s) :
    Queue ntcp s.timers (events ntcp s.timers) ∧
      ∀ op s', Careful ntcp s op → step ntcp op s = .some s' → Effect ntcp s s' op := by
  have queue := reach_queue some reach
  refine ⟨queue, ?_⟩
  intro op s' careful action
  cases op with
  | sched time tcb type =>
      cases action
      rcases tcpTimerSched_spec queue some time tcb type with ⟨error, same⟩ | ⟨-, -, evt, ts', scheduled⟩
      · exact .inl ⟨same, error⟩
      · refine .inr ⟨evt, ?_⟩
        rw [scheduled.queue.events_eq]
        exact scheduled
  | purge tcb type =>
      cases action
      exact tcpTimerPurge_spec queue careful
  | tick elapse =>
      rw [Careful, queue.first] at careful
      have advanced := advance_spec queue careful
      obtain ⟨fired, rest, sums⟩ := through_spec queue.short queue advanced
      refine ⟨advanced, fired, rest.events_eq, ?_⟩
      rw [rest.events_eq]
      exact sums
  | resume =>
      intro elapse _
      exact resume_spec queue

def twoEvents : Ticker :=
  { timers := (tcpTimerSched 7 (tcpTimerSched 7 Timers.init 500 0 TCP_EVT_RXT).1 5000 0 TCP_EVT_TIMEWT).1
    left := none }

theorem twoEvents_reached : Lib.Reach (step 7) (Careful 7) init twoEvents :=
  .next (a := .sched 5000 0 TCP_EVT_TIMEWT) (.next (a := .sched 500 0 TCP_EVT_RXT) .init trivial rfl)
    trivial rfl

theorem twoEvents_queue :
    events 7 twoEvents.timers = [2, 4] ∧ Queue 7 twoEvents.timers (events 7 twoEvents.timers) ∧
      ∀ op s', Careful 7 twoEvents op → step 7 op twoEvents = some s' → Effect 7 twoEvents s' op :=
  ⟨by decide +kernel, timer_queue (by decide) twoEvents_reached⟩

theorem twoEvents_purged :
    ∃ s', step 7 (.purge 0 0) twoEvents = some s' ∧ ¬ Effect 7 twoEvents s' (.purge 0 0) ∧
      ¬ ∃ ts, Queue 7 s'.timers ts := by
  have broken : ¬ ∃ ts, Queue 7 (tcpTimerPurge 7 twoEvents.timers 0 0).1 ts := by
    rintro ⟨ts, queue⟩
    have listed : events 7 (tcpTimerPurge 7 twoEvents.timers 0 0).1 = [4] := by decide +kernel
    have unused : ((tcpTimerPurge 7 twoEvents.timers 0 0).1.tab 4).used = false := by decide +kernel
    rw [queue.events_eq] at listed
    have inUse := ((queue.used 4).mp (by simp [listed])).2
    rw [unused] at inUse
    cases inUse
  exact ⟨_, rfl, fun purged => broken ⟨_, purged.queue⟩, broken⟩

end Ticker

end Xinu.Tcp
