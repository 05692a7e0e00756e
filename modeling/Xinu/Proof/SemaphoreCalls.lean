import Xinu.Proof.Semaphores

namespace Xinu

def Event.ofSems : Event → Bool
  | .call _ _ | .semcreate _ _ | .semfree _ | .wait _ _ _ | .signal _ | .released _ _ | .waiterKilled _ _ => true
  | _ => false

structure Account where
  used : Bool
  initial : Int
  signals : Nat
  waits : Nat
  killed : Nat
  waiting : List Int

namespace Account

def count (a : Account) : Int := a.signals + a.initial - a.waits + a.killed

def called (a : Account) (s : Nat) (t : Int) : Call → Account
  | .wait u =>
      if u = s ∧ a.used = true then
        { a with waits := a.waits + 1, waiting := if a.count ≤ 0 then a.waiting ++ [t] else a.waiting }
      else a
  | .signal u =>
      if u = s ∧ a.used = true then { a with signals := a.signals + 1, waiting := a.waiting.drop 1 } else a
  | .signaln u n =>
      if u = s ∧ a.used = true ∧ 0 < n then
        { a with signals := a.signals + n.toNat, waiting := a.waiting.drop n.toNat }
      else a
  | .semfree u => if u = s ∧ a.used = true then { a with used := false, waiting := [] } else a
  | _ => a

end Account

def asked : List Event → Int
  | [] => 0
  | .call _ (.semcreate n) :: _ => n
  | _ :: log => asked log

def account (s : Nat) : List Event → Account
  | [] => ⟨false, 0, 0, 0, 0, []⟩
  | .call t call :: log => (account s log).called s t call
  | .semcreate u _ :: log => if u = s then ⟨true, asked log, 0, 0, 0, []⟩ else account s log
  | .waiterKilled t u :: log =>
      if u = s then
        { account s log with killed := (account s log).killed + 1, waiting := (account s log).waiting.erase t }
      else account s log
  | _ :: log => account s log

theorem asked_filter (log : List Event) : asked (log.filter Event.ofSems) = asked log := by
  induction log with
  | nil => rfl
  | cons e log ih =>
      cases e with
      | call t call => cases call <;> simp [List.filter_cons, Event.ofSems, asked, ih]
      | _ => simp [List.filter_cons, Event.ofSems, asked, ih]

theorem account_filter (s : Nat) (log : List Event) : account s (log.filter Event.ofSems) = account s log := by
  induction log with
  | nil => rfl
  | cons e log ih => cases e <;> simp [List.filter_cons, Event.ofSems, account, asked_filter, ih]

theorem ledger_filter (s : Nat) (log : List Event) : ledger s (log.filter Event.ofSems) = ledger s log := by
  induction log with
  | nil => rfl
  | cons e log ih =>
      simp only [ledger, Prod.mk.injEq] at ih ⊢
      cases e <;> simp [List.filter_cons, Event.ofSems, tally, waiters, Event.ofSem, ih]

def book (state : SemState) (n : Tally) (ids : List Int) : Account :=
  ⟨decide (state = .used), n.initial, n.signals, n.waits, n.killed, ids⟩

structure Signalled (s m : Nat) (log log' : List Event) : Prop where
  own : ∀ n' ids', ledger s log' = (n', some ids') → ∃ n ids j, ledger s log = (n, some ids) ∧
    n' = { n with signals := n.signals + m } ∧ j ≤ ids.length ∧ ids' = ids.drop j
  other : ∀ u, u ≠ s → ledger u log' = ledger u log
  account : ∀ u, account u log' = account u log

theorem Signalled.refl (s : Nat) (log : List Event) : Signalled s 0 log log where
  own n ids history := ⟨n, ids, 0, history, rfl, Nat.zero_le _, rfl⟩
  other _ _ := rfl
  account _ := rfl

theorem Signalled.trans {s m m' : Nat} {log log' log'' : List Event} (first : Signalled s m log log')
    (second : Signalled s m' log' log'') : Signalled s (m + m') log log'' where
  own n₂ ids₂ history₂ := by
    obtain ⟨n₁, ids₁, j₁, history₁, rfl, within₁, rfl⟩ := second.own n₂ ids₂ history₂
    obtain ⟨n, ids, j, history, rfl, within, rfl⟩ := first.own n₁ ids₁ history₁
    refine ⟨n, ids, j + j₁, history, ?_, ?_, List.drop_drop ..⟩
    · simp only [Nat.add_assoc]
    · rw [List.length_drop] at within₁
      omega
  other u apart := (second.other u apart).trans (first.other u apart)
  account u := (second.account u).trans (first.account u)

theorem Signalled.one (s : Nat) (log : List Event) : Signalled s 1 log (.signal s :: log) where
  own n' ids' history := by
    have own : Event.ofSem s (.signal s) = true := by simp [Event.ofSem]
    simp only [ledger, tally, waiters, own, if_true, Prod.mk.injEq] at history
    obtain ⟨rfl, history⟩ := history
    obtain ⟨ids, before, same⟩ := Option.bind_eq_some_iff.mp history
    exact ⟨tally s log, ids, 0, by rw [ledger, before], rfl, Nat.zero_le _, (Option.some.inj same).symm⟩
  other u apart := ledger_skip (by simp [Event.ofSem, Ne.symm apart])
  account _ := rfl

theorem Signalled.release (s : Nat) (t : Int) (log : List Event) : Signalled s 0 log (.released t s :: log) where
  own n' ids' history := by
    have own : Event.ofSem s (.released t s) = true := by simp [Event.ofSem]
    simp only [ledger, tally, waiters, own, if_true, Prod.mk.injEq] at history
    obtain ⟨rfl, history⟩ := history
    obtain ⟨ids, before, popped⟩ := Option.bind_eq_some_iff.mp history
    simp only [nextWaiters, Option.ite_none_right_eq_some, Option.some.injEq] at popped
    obtain ⟨head, rfl⟩ := popped
    cases ids with
    | nil => cases head
    | cons u ids => exact ⟨tally s log, u :: ids, 1, by rw [ledger, before], rfl, by simp, rfl⟩
  other u apart := ledger_skip (by simp [Event.ofSem, Ne.symm apart])
  account _ := rfl

theorem Signalled.drops {s m : Nat} {n n' : Tally} {ids ids' : List Int} {log log' : List Event} (signalled : Signalled s m log log')
    (before : ledger s log = (n, some ids)) (after : ledger s log' = (n', some ids'))
    (length : (ids.length : Int) = max 0 (-n.count)) (length' : (ids'.length : Int) = max 0 (-n'.count)) :
    n' = { n with signals := n.signals + m } ∧ ids' = ids.drop m := by
  obtain ⟨n₁, ids₁, j, same, rfl, within, rfl⟩ := signalled.own n' ids' after
  simp only [before, Prod.mk.injEq, Option.some.injEq] at same
  obtain ⟨rfl, rfl⟩ := same
  refine ⟨rfl, ?_⟩
  rw [List.length_drop] at length'
  simp only [Tally.count] at length length'
  by_cases more : ids.length ≤ m
  · rw [List.drop_eq_nil_of_le more, List.drop_eq_nil_of_le (by omega)]
  · have all : j = m := by omega
    rw [all]

namespace Kernel
open Lib
variable {c : Config}

def semView {Q : Type} (k : Kernel c Q) : List Event × (Nat → SemState) :=
  (k.log.filter Event.ofSems, fun s => (k.semtab s).state)

section
variable {Q : Type} (k : Kernel c Q)

@[simp] theorem ret_semView (v : Int) : (k.ret v).semView = k.semView := rfl

@[simp] theorem push_semView (f : Frame) : (k.push f).semView = k.semView := rfl

@[simp] theorem stop_semView : k.stop.semView = k.semView := rfl

@[simp] theorem setThr_semView (t : Int) (e : Thrent) : (k.setThr t e).semView = k.semView := rfl

@[simp] theorem setState_semView (t : Int) (s : ThrState) : (k.setState t s).semView = k.semView := rfl

@[simp] theorem setCount_semView (s : Nat) (v : Int) : (k.setCount s v).semView = k.semView := by
  refine Prod.ext rfl (funext fun u => ?_)
  by_cases this : u = s <;> simp [semView, this]

@[simp] theorem setQuetab_semView (tab : Q) : (k.setQuetab tab).semView = k.semView := rfl

@[simp] theorem setStack_semView (t : Int) (fs : List Frame) : (k.setStack t fs).semView = k.semView := rfl

theorem emit_semView (e : Event) :
    (k.emit e).semView = (if e.ofSems then e :: k.semView.1 else k.semView.1, k.semView.2) := by
  simp [semView, List.filter_cons]

@[simp] theorem deposit_semView (t m : Int) : (k.deposit t m).semView = k.semView := rfl

@[simp] theorem takeMessage_semView : k.takeMessage.semView = k.semView := rfl

@[simp] theorem stkfree_semView (p n : Nat) : (k.stkfree p n).semView = k.semView := by
  unfold stkfree
  split <;> rfl

@[simp] theorem chprio_semView (t p : Int) : (k.chprio t p).semView = k.semView := by
  unfold chprio
  split <;> simp

@[simp] theorem create_semView (n : Nat) (p : Int) : (k.create n p).semView = k.semView := by
  unfold create
  dsimp only
  split
  · rfl
  · rfl
  · dsimp only [thrnew]
    split
    · rename_i eq
      simp only [Prod.mk.injEq] at eq
      simp [← eq.1]
      rfl
    · rename_i eq
      simp only [Prod.mk.injEq] at eq
      rw [← eq.1]
      rfl

@[simp] theorem recvclr_semView : k.recvclr.semView = k.semView := by
  unfold recvclr
  split <;> simp

@[simp] theorem recvtimeDone_semView : k.recvtimeDone.semView = k.semView := by
  unfold recvtimeDone
  split
  · simp
  · rfl

theorem semcreate_semView (v : Int) : (k.semcreate v).1.semView = k.semView ∨
    ∃ s, (k.semcreate v).1.semView = (.semcreate s v :: k.semView.1, Function.update k.semView.2 s .used) := by
  unfold semcreate
  split
  · exact .inl rfl
  · unfold semalloc
    dsimp only
    split
    · rename_i eq
      left
      split at eq
      · simp only [Prod.mk.injEq] at eq
        rw [← eq.1]
        rfl
      · simp at eq
    · rename_i k₁ s eq
      right
      split at eq
      · simp at eq
      · rename_i s₁ found
        simp only [Prod.mk.injEq, Option.some.injEq] at eq
        obtain ⟨rfl, rfl⟩ := eq
        refine ⟨s₁, Prod.ext rfl (funext fun u => ?_)⟩
        by_cases this : u = s₁ <;> simp [semView, this]

variable [Queues Q]

@[simp] theorem enqueue_semView (t q : Int) : (k.enqueue t q).semView = k.semView := by simp [semView]

@[simp] theorem getitem_semView (t : Int) : (k.getitem t).semView = k.semView := rfl

@[simp] theorem dequeue_semView (q : Int) : (k.dequeue q).1.semView = k.semView := by simp [semView]

@[simp] theorem insertd_semView (t q v : Int) : (k.insertd t q v).1.semView = k.semView := by simp [semView]

@[simp] theorem unsleep_semView (t : Int) : (k.unsleep t).1.semView = k.semView := by simp [semView]

@[simp] theorem makeReady_semView (t : Int) : (k.makeReady t).semView = k.semView := by simp [semView, Event.ofSems]

@[simp] theorem switch_semView : k.switch.semView = k.semView := by simp [semView, Event.ofSems]

@[simp] theorem resched_semView : k.resched.semView = k.semView := by
  unfold resched
  split
  · rfl
  dsimp only
  split
  · split
    · rfl
    · simp
  · simp

@[simp] theorem ready_semView (t : Int) (r : Bool) : (k.ready t r).semView = k.semView := by
  unfold ready
  split
  · rfl
  · cases r <;> simp

@[simp] theorem resume_semView (t : Int) : (k.resume t).semView = k.semView := by
  unfold resume
  split <;> simp

@[simp] theorem suspend_semView (t : Int) : (k.suspend t).semView = k.semView := by
  unfold suspend
  split
  · rfl
  · split <;> simp

@[simp] theorem send_semView (t m : Int) : (k.send t m).semView = k.semView := by
  unfold send
  split
  · rfl
  dsimp only
  split
  · rfl
  · split <;> simp

@[simp] theorem receive_semView : k.receive.semView = k.semView := by
  unfold receive
  split <;> simp

@[simp] theorem sleep_semView (ms : Nat) : (k.sleep ms).semView = k.semView := by
  unfold sleep
  dsimp only
  split
  · split <;> simp [emit_semView, Event.ofSems]
  · simp

theorem wakeupLoop_semView (fuel : Nat) : (wakeupLoop fuel k).semView = k.semView := by
  induction fuel generalizing k with
  | zero => rfl
  | succ fuel ih =>
      unfold wakeupLoop
      split
      · simp [ih, emit_semView, Event.ofSems]
      · rfl

theorem clkhandler_semView : k.clkhandler.semView = k.semView := by
  have ticked : (k.countTick.emit .tick).semView = k.semView := by
    unfold countTick
    dsimp only
    split <;> rfl
  unfold clkhandler
  dsimp only
  split
  · split
    · simp [wakeup, wakeupLoop_semView, ticked]
    · simp [ticked]
  · simp [ticked]

theorem killSent_semView (t : Int) : (k.killSent t).semView = k.semView ∨
    (k.killSent t).semView = (.waiterKilled t (k.thrtab t).sem :: k.semView.1, k.semView.2) := by
  have freed : ((k.emit (.stkfreed t)).stkfree (k.thrtab t).stkbase (k.thrtab t).stklen).semView = k.semView := by
    rw [stkfree_semView]
    rfl
  have same : ((k.emit (.stkfreed t)).stkfree (k.thrtab t).stkbase (k.thrtab t).stklen).thrtab = k.thrtab := by
    unfold stkfree
    split <;> rfl
  unfold killSent killSwitch
  rw [same]
  cases state : (k.thrtab t).state with
  | wait =>
      right
      simp [killWait, killReady, emit_semView, Event.ofSems, freed, same]
  | curr => simp [freed]
  | sleep => simp [freed]
  | ready => simp [killReady, freed]
  | free => simp [freed]
  | recv => simp [freed]
  | susp => simp [freed]
  | tmout => simp [freed]

theorem kill_semView (t : Int) : (k.kill t).semView = k.semView := by
  unfold kill
  split
  · rfl
  dsimp only
  split
  · rfl
  · rw [send_semView]
    rfl

theorem wait_semView (s : Nat) : (k.wait s).semView =
    if k.isbadsem s then k.semView
    else (.wait k.thrcurrent s (decide ((k.semtab s).count ≤ 0)) :: k.semView.1, k.semView.2) := by
  have sign : decide ((k.semtab s).count - 1 < 0) = decide ((k.semtab s).count ≤ 0) := by
    rw [decide_eq_decide]
    omega
  rw [← sign, wait]
  split
  · rfl
  · dsimp only
    split
    · simp [emit_semView, Event.ofSems]
    · simp [emit_semView, Event.ofSems]

theorem signalOnce_semView (s : Nat) (r : Bool) :
    (k.signalOnce s r).semView = (.signal s :: k.semView.1, k.semView.2) ∨
      ∃ t, (k.signalOnce s r).semView = (.released t s :: .signal s :: k.semView.1, k.semView.2) := by
  unfold signalOnce
  dsimp only
  split
  · right
    exact ⟨_, by rw [ready_semView, emit_semView, dequeue_semView, emit_semView, setCount_semView]; rfl⟩
  · left
    rw [emit_semView, setCount_semView]
    rfl

theorem semfreeLoop_semView (q : Int) (fuel : Nat) : (semfreeLoop q fuel k).semView = k.semView := by
  induction fuel generalizing k with
  | zero => rfl
  | succ fuel ih =>
      unfold semfreeLoop
      split
      · simp [ih]
      · rfl

theorem semfree_semView (s : Nat) : (k.semfree s).1.semView =
    if k.isbadsem s then k.semView
    else (.semfree s :: k.semView.1, Function.update k.semView.2 s .free) := by
  unfold semfree
  split
  · rfl
  · dsimp only
    have view := semfreeLoop_semView k (k.semtab s).queue (c.nthread + 1)
    generalize semfreeLoop (k.semtab s).queue (c.nthread + 1) k = k₁ at view ⊢
    rw [← view]
    refine Prod.ext rfl (funext fun u => ?_)
    by_cases this : u = s <;> simp [semView, this]

theorem signalOnce_signalled (s : Nat) (r : Bool) :
    Signalled s 1 k.semView.1 (k.signalOnce s r).semView.1 ∧ (k.signalOnce s r).semView.2 = k.semView.2 := by
  rcases signalOnce_semView k s r with view | ⟨t, view⟩
  · rw [view]
    exact ⟨.one s _, rfl⟩
  · rw [view]
    exact ⟨(Signalled.one s _).trans (.release s t _), rfl⟩

theorem signalnLoop_signalled (s m : Nat) :
    Signalled s m k.semView.1 (signalnLoop s m k).semView.1 ∧ (signalnLoop s m k).semView.2 = k.semView.2 := by
  induction m generalizing k with
  | zero => exact ⟨.refl s _, rfl⟩
  | succ m ih =>
      obtain ⟨first, same⟩ := signalOnce_signalled k s false
      obtain ⟨rest, same'⟩ := ih (k.signalOnce s false)
      have all := first.trans rest
      rw [Nat.add_comm] at all
      exact ⟨all, same'.trans same⟩

end

structure Owed {Q : Type} (k : Kernel c Q) (s : Nat) (n : Tally) (ids : List Int) : Prop where
  history : ledger s k.semView.1 = (n, some ids)
  free : k.semView.2 s = .free → ids = []
  count : (k.semtab s).state = .used → (k.semtab s).count = n.count
  length : k.semView.2 s = .used → (ids.length : Int) = max 0 (-n.count)

section
variable {k k' : Kernel c (Quetab c)} {s : Nat} {n n' : Tally} {ids ids' : List Int} {t : Int} {call : Call}

theorem Owed.book_quiet (owed : k.Owed s n ids) (booked : account s k.semView.1 = book (k.semView.2 s) n ids)
    (owed' : k'.Owed s n' ids') (view : k'.semView = (.call t call :: k.semView.1, k.semView.2))
    (quiet : (account s k.semView.1).called s t call = account s k.semView.1) :
    account s k'.semView.1 = book (k'.semView.2 s) n' ids' := by
  have history := owed'.history
  rw [view] at history ⊢
  rw [ledger_skip rfl, owed.history, Prod.mk.injEq, Option.some.injEq] at history
  obtain ⟨rfl, rfl⟩ := history
  exact quiet.trans booked

theorem unused (booked : account s k.semView.1 = book (k.semView.2 s) n ids) (bound : s < c.nsem)
    (bad : k.isbadsem s = true) : (account s k.semView.1).used = false := by
  have free : k.semView.2 s = .free := by
    have low : ¬c.nsem ≤ s := Nat.not_le.mpr bound
    simpa [isbadsem, low, semView] using bad
  rw [booked, book, free]
  rfl

theorem Owed.book_signals {u m : Nat} (owed : k.Owed s n ids)
    (booked : account s k.semView.1 = book (k.semView.2 s) n ids) (owed' : k'.Owed s n' ids')
    (good : k.isbadsem u = false) (signalled : Signalled u m (.call t call :: k.semView.1) k'.semView.1)
    (same : k'.semView.2 = k.semView.2)
    (called : ∀ a : Account, a.called s t call = if u = s ∧ a.used = true then
      { a with signals := a.signals + m, waiting := a.waiting.drop m } else a) :
    account s k'.semView.1 = book (k'.semView.2 s) n' ids' := by
  have history : ledger s (.call t call :: k.semView.1) = (n, some ids) := (ledger_skip rfl).trans owed.history
  rw [signalled.account, same]
  show (account s k.semView.1).called s t call = _
  rw [called, booked]
  by_cases here : u = s
  · subst here
    have used : k.semView.2 u = .used := (isbadsem_eq_false.mp good).2
    have length := owed'.length
    rw [same] at length
    obtain ⟨rfl, rfl⟩ := signalled.drops history owed'.history (owed.length used) (length used)
    simp [book, used]
  · have other := signalled.other s (Ne.symm here)
    rw [owed'.history, history, Prod.mk.injEq, Option.some.injEq] at other
    obtain ⟨rfl, rfl⟩ := other
    simp [here]

theorem Owed.book_called (owed : k.Owed s n ids) (booked : account s k.semView.1 = book (k.semView.2 s) n ids)
    (owed' : k'.Owed s n' ids') (bound : s < c.nsem) (untimed : call.untimed = true) (here : t = k.thrcurrent)
    (view : k'.semView = ((k.emit (.call t call)).runCall call).semView) :
    account s k'.semView.1 = book (k'.semView.2 s) n' ids' := by
  have start : (k.emit (.call t call)).semView = (.call t call :: k.semView.1, k.semView.2) := rfl
  have quiet := @Owed.book_quiet _ _ k' _ _ n' _ ids' t call owed booked owed'
  cases call with
  | wait u =>
      rw [runCall, wait_semView, start] at view
      split at view
      · rename_i bad
        refine quiet view ?_
        rw [Account.called, if_neg]
        rintro ⟨rfl, used⟩
        rw [unused booked bound bad] at used
        cases used
      · rename_i good
        have history := owed'.history
        rw [view] at history ⊢
        show (account s k.semView.1).called s t (.wait u) = _
        rw [Account.called, booked]
        by_cases same : u = s
        · subst same
          have used : k.semView.2 u = .used := (isbadsem_eq_false.mp (Bool.eq_false_iff.mpr good)).2
          have count : (k.semtab u).count = n.count := owed.count used
          rw [ledger_cons (by simp [Event.ofSem]) ((ledger_skip rfl).trans owed.history), Prod.mk.injEq] at history
          obtain ⟨rfl, history⟩ := history
          simp only [nextWaiters, emit_frame, count, decide_eq_true_eq, Option.some.injEq] at history
          subst history here
          have balance : (book (k.semView.2 u) n ids).count = n.count := rfl
          have inUse : (book (k.semView.2 u) n ids).used = true := by simp [book, used]
          rw [if_pos ⟨rfl, inUse⟩, balance]
          by_cases none : n.count ≤ 0
          · simp [book, none, Tally.next]
          · simp [book, none, Tally.next]
        · rw [ledger_skip (by simp [Event.ofSem, same]), ledger_skip rfl, owed.history, Prod.mk.injEq,
            Option.some.injEq] at history
          obtain ⟨rfl, rfl⟩ := history
          rw [if_neg (by simp [same])]
  | signal u =>
      rw [runCall, signal] at view
      split at view
      · rename_i bad
        refine quiet (by rw [view, ret_semView, start]) ?_
        rw [Account.called, if_neg]
        rintro ⟨rfl, used⟩
        rw [unused booked bound bad] at used
        cases used
      · rename_i good
        obtain ⟨signalled, same⟩ := signalOnce_signalled ((k.emit (.call t (.signal u))).ret OK) u true
        rw [← view, ret_semView, start] at signalled same
        exact owed.book_signals booked owed' (Bool.eq_false_iff.mpr good) signalled same fun a => rfl
  | signaln u m =>
      rw [runCall, signaln] at view
      split at view
      · rename_i bad
        refine quiet (by rw [view, ret_semView, start]) ?_
        rw [Account.called, if_neg]
        rintro ⟨rfl, used, positive⟩
        rcases bad with bad | none
        · rw [unused booked bound bad] at used
          cases used
        · omega
      · rename_i good
        rw [not_or] at good
        obtain ⟨signalled, same⟩ := signalnLoop_signalled ((k.emit (.call t (.signaln u m))).ret OK) u m.toNat
        rw [resched_semView] at view
        rw [← view, ret_semView, start] at signalled same
        refine owed.book_signals booked owed' (Bool.eq_false_iff.mpr good.1) signalled same fun a => ?_
        have positive : 0 < m := by omega
        simp only [Account.called, positive, and_true]
  | semcreate v =>
      have created := semcreate_semView (k.emit (.call t (.semcreate v))) v
      have returned : k'.semView = ((k.emit (.call t (.semcreate v))).semcreate v).1.semView := view
      rw [← returned, start] at created
      rcases created with same | ⟨u, made⟩
      · exact quiet same rfl
      · have history := owed'.history
        rw [made] at history ⊢
        by_cases same : u = s
        · subst same
          rw [ledger_cons (by simp [Event.ofSem]) ((ledger_skip rfl).trans owed.history), Prod.mk.injEq] at history
          obtain ⟨rfl, history⟩ := history
          simp only [nextWaiters, Option.ite_none_right_eq_some, Option.some.injEq] at history
          obtain ⟨-, rfl⟩ := history
          simp [account, asked, book, Tally.next]
        · rw [ledger_skip (by simp [Event.ofSem, same]), ledger_skip rfl, owed.history, Prod.mk.injEq,
            Option.some.injEq] at history
          obtain ⟨rfl, rfl⟩ := history
          simpa [account, same, Account.called, Ne.symm same] using booked
  | semfree u =>
      have freed := semfree_semView (k.emit (.call t (.semfree u))) u
      have returned : k'.semView = ((k.emit (.call t (.semfree u))).semfree u).1.semView := view
      rw [← returned, start] at freed
      split at freed
      · rename_i bad
        refine quiet freed ?_
        rw [Account.called, if_neg]
        rintro ⟨rfl, used⟩
        rw [unused booked bound bad] at used
        cases used
      · rename_i good
        have history := owed'.history
        rw [freed] at history ⊢
        show (account s k.semView.1).called s t (.semfree u) = _
        rw [Account.called, booked]
        by_cases same : u = s
        · subst same
          have used : k.semView.2 u = .used := (isbadsem_eq_false.mp (Bool.eq_false_iff.mpr good)).2
          rw [ledger_cons (by simp [Event.ofSem]) ((ledger_skip rfl).trans owed.history), Prod.mk.injEq] at history
          obtain ⟨rfl, history⟩ := history
          simp only [nextWaiters, Option.some.injEq] at history
          subst history
          simp [book, used, Tally.next]
        · rw [ledger_skip (by simp [Event.ofSem, same]), ledger_skip rfl, owed.history, Prod.mk.injEq,
            Option.some.injEq] at history
          obtain ⟨rfl, rfl⟩ := history
          simp [same, Ne.symm same]
  | create m p => exact quiet (by rw [view, runCall, create_semView, start]) rfl
  | resume u => exact quiet (by rw [view, runCall, resume_semView, start]) rfl
  | suspend u => exact quiet (by rw [view, runCall, suspend_semView, start]) rfl
  | kill u => exact quiet (by rw [view, runCall, kill_semView, start]) rfl
  | chprio u p => exact quiet (by rw [view, runCall, chprio_semView, start]) rfl
  | resched => exact quiet (by rw [view, runCall, resched_semView, ret_semView, start]) rfl
  | sleep ms => exact quiet (by rw [view, runCall, sleep_semView, start]) rfl
  | send u m => exact quiet (by rw [view, runCall, send_semView, start]) rfl
  | receive => exact quiet (by rw [view, runCall, receive_semView, start]) rfl
  | recvclr => exact quiet (by rw [view, runCall, recvclr_semView, start]) rfl
  | _ => cases untimed

theorem runFrame_semView {f : Frame} (k : Kernel c (Quetab c)) (basic : f.basic = true) :
    (k.runFrame f).semView = k.semView ∨
      ∃ t u, (k.runFrame f).semView = (.waiterKilled t u :: k.semView.1, k.semView.2) := by
  cases f with
  | ret v =>
      left
      unfold runFrame
      dsimp only
      split <;> rfl
  | suspend t => exact .inl rfl
  | receive => exact .inl rfl
  | recvtime => exact .inl (recvtimeDone_semView k)
  | kill t => exact (killSent_semView k t).imp id fun view => ⟨t, _, view⟩
  | killCurr t =>
      right
      refine ⟨t, (k.thrtab t).sem, ?_⟩
      simp [runFrame, killWait, killReady, emit_semView, Event.ofSems]
  | _ => cases basic

theorem Owed.book_frame (owed : k.Owed s n ids) (booked : account s k.semView.1 = book (k.semView.2 s) n ids)
    (owed' : k'.Owed s n' ids') (view : k'.semView = k.semView ∨
      ∃ t u, k'.semView = (.waiterKilled t u :: k.semView.1, k.semView.2)) :
    account s k'.semView.1 = book (k'.semView.2 s) n' ids' := by
  have history := owed'.history
  rcases view with view | ⟨t, u, view⟩
  · rw [view, owed.history, Prod.mk.injEq, Option.some.injEq] at history
    obtain ⟨rfl, rfl⟩ := history
    rw [view]
    exact booked
  · rw [view] at history ⊢
    by_cases same : u = s
    · subst same
      rw [ledger_cons (by simp [Event.ofSem]) owed.history, Prod.mk.injEq] at history
      obtain ⟨rfl, history⟩ := history
      simp only [nextWaiters, Option.ite_none_right_eq_some, Option.some.injEq] at history
      obtain ⟨-, rfl⟩ := history
      simp [account, booked, book, Tally.next]
    · rw [ledger_skip (by simp [Event.ofSem, same]), owed.history, Prod.mk.injEq, Option.some.injEq] at history
      obtain ⟨rfl, rfl⟩ := history
      simpa [account, same] using booked

theorem Owed.book_step {x : Act} (owed : k.Owed s n ids)
    (booked : account s k.semView.1 = book (k.semView.2 s) n ids) (owed' : k'.Owed s n' ids') (bound : s < c.nsem)
    (calls : k.untimedCalls x = true) (within : ∀ t, ∀ f ∈ k.stack t, f.basic = true) (action : step x k = some k') :
    account s k'.semView.1 = book (k'.semView.2 s) n' ids' := by
  cases x with
  | call call =>
      obtain ⟨-, rfl, -⟩ := step_call action
      exact owed.book_called booked owed' bound (Bool.and_eq_true_iff.mp calls).2 rfl rfl
  | cont =>
      apply owed.book_frame booked owed'
      simp only [step, Option.filter_eq_some_iff] at action
      obtain ⟨action, -⟩ := action
      cases stack : k.stack k.thrcurrent with
      | nil => simp [stack] at action
      | cons f fs =>
          simp only [stack, Option.some.injEq] at action
          rw [← action]
          exact runFrame_semView (k.setStack k.thrcurrent fs) (within k.thrcurrent f (by simp [stack]))
  | tick =>
      apply owed.book_frame booked owed'
      simp only [step, Option.filter_eq_some_iff] at action
      obtain ⟨action, -⟩ := action
      cases stack : k.stack k.thrcurrent with
      | nil =>
          simp only [stack, Option.some.injEq] at action
          rw [← action]
          exact .inl (clkhandler_semView k)
      | cons f fs => simp [stack] at action

structure Queued (k : Kernel c (Quetab c)) (s : Nat) (ids : List Int) : Prop where
  linked : Linked k.quetab.next k.quetab.prev
    (quehead (k.semtab s).queue :: ids ++ [quetail (k.semtab s).queue])
  waiting : ∀ t : Int, 0 ≤ t → t < c.nthread → (t ∈ ids ↔ (k.thrtab t).state = .wait ∧ (k.thrtab t).sem = s)
  valid : ∀ t ∈ ids, 0 ≤ t ∧ t < (c.nthread : Int)

theorem Settled.owed (settled : k.Settled) (bound : s < c.nsem) : ∃ n ids, k.Owed s n ids ∧ k.Queued s ids := by
  obtain ⟨a, rel, inv, ⟨-, h⟩, within⟩ := settled
  obtain ⟨n, ok⟩ := h s bound
  have valid : ∀ t ∈ a.semqueue s, 0 ≤ t ∧ t < (c.nthread : Int) := fun t member => inv.valid member
  have waiting : ∀ t : Int, 0 ≤ t → t < c.nthread →
      (t ∈ a.semqueue s ↔ (a.thrtab t).state = .wait ∧ (a.thrtab t).sem = s) := by
    intro t lo hi
    constructor
    · intro member
      obtain ⟨state, sem, -⟩ := inv.layout.of_sem bound (inv.home_of_mem member)
      exact ⟨state, sem⟩
    · rintro ⟨waits, rfl⟩
      refine (inv.located.mem _ t).mpr ((home_wait lo hi waits).trans (waitQueue_sem fun f eq => ?_))
      have basic := within t f (List.mem_of_find?_eq_some eq)
      cases f <;> first | rfl | cases basic
  have good := inv.layout.good_sem bound
  refine ⟨n, a.semqueue s, ?_⟩
  cases rel with
  | @mk l repr =>
      refine ⟨⟨(ledger_filter s _).trans ok.history, ok.free, ok.count, fun used => ?_⟩, repr.linked _ good.isq good.low, waiting,
        valid⟩
      exact (ok.length used).trans (by rw [← ok.count used])

/-- A semaphore is as the calls have made it. -/
structure SemConsistent (k : Kernel c (Quetab c)) (s : Nat) : Prop where
  queued : k.Queued s (account s k.log).waiting
  used : (k.semtab s).state = .used ↔ (account s k.log).used = true
  free : (k.semtab s).state = .free → (account s k.log).waiting = []
  count : (k.semtab s).state = .used → (k.semtab s).count = (account s k.log).count
  negative : (k.semtab s).state = .used → (k.semtab s).count < 0 →
    ((account s k.log).waiting.length : Int) = -(k.semtab s).count
  positive : (k.semtab s).state = .used → 0 ≤ (k.semtab s).count → (account s k.log).waiting = []

end

theorem boot_account (c : Config) (p : Platform) {s : Nat} (bound : s < c.nsem) :
    account s (boot c p).semView.1 = book ((boot c p).semView.2 s) ⟨0, 0, 0, 0⟩ [] ∧
      ledger s (boot c p).semView.1 = (⟨0, 0, 0, 0⟩, some []) := by
  obtain ⟨fresh, -⟩ := sysinit_fresh (c := c) p (⟨fun _ => ⟨0, 0, 0⟩⟩ : Quetab c)
  have free : ((boot c p).semtab s).state = .free := by
    rw [boot, fresh.semtab]
    simp [bound]
  have log : (boot c p).log = [] := fresh.log
  constructor
  · simp [semView, log, free, account, book]
  · simp [semView, log, ledger, tally, waiters]

theorem accounted {k : Kernel c (Quetab c)} (p : Platform)
    (reach : Reach step (fun k x => k.untimedCalls x = true) (boot c p) k) {s : Nat} (bound : s < c.nsem) :
    k.Settled ∧ ∃ n ids, k.Owed s n ids ∧ k.Queued s ids ∧ account s k.semView.1 = book (k.semView.2 s) n ids := by
  induction reach with
  | init =>
      have settled := boot_settled c p
      obtain ⟨n, ids, owed, queued⟩ := settled.owed bound
      obtain ⟨start, history⟩ := boot_account c p bound
      rw [owed.history, Prod.mk.injEq, Option.some.injEq] at history
      obtain ⟨rfl, rfl⟩ := history
      exact ⟨settled, _, _, owed, queued, start⟩
  | next reach calls action ih =>
      obtain ⟨settled, n, ids, owed, queued, booked⟩ := ih
      have settled' : Settled _ := sems_kept.preserves settled calls action
      obtain ⟨n', ids', owed', queued'⟩ := settled'.owed bound
      refine ⟨settled', n', ids', owed', queued', owed.book_step booked owed' bound calls ?_ action⟩
      obtain ⟨a, rel, -, -, within⟩ := settled
      rw [rel.stack] at within
      exact within

/-- In every run without `recvtime` the semaphores are as their callers know them. -/
theorem semaphores_accounted (c : Config) (p : Platform) (k : Kernel c (Quetab c))
    (reach : Reach step (fun k x => k.untimedCalls x = true) (boot c p) k) (s : Nat) (bound : s < c.nsem) :
    k.SemConsistent s := by
  obtain ⟨-, n, ids, owed, queued, booked⟩ := accounted p reach bound
  have booked : account s (k.log.filter Event.ofSems) = _ := booked
  rw [account_filter] at booked
  have count : (account s k.log).count = n.count := by
    rw [booked]
    rfl
  have waiting : (account s k.log).waiting = ids := by rw [booked, book]
  constructor
  · rw [waiting]
    exact queued
  · rw [booked, book, decide_eq_true_iff]
    rfl
  · intro free
    rw [waiting]
    exact owed.free free
  · intro used
    rw [count]
    exact owed.count used
  · intro used negative
    have length := owed.length used
    rw [owed.count used] at negative ⊢
    rw [waiting]
    omega
  · intro used positive
    have length := owed.length used
    rw [owed.count used] at positive
    rw [waiting]
    exact List.eq_nil_of_length_eq_zero (by omega)

def waitTwice : List Act :=
  [.call (.create 128 20), .cont, .call (.resume 1), .call (.semcreate 1), .cont, .call (.wait 1),
   .cont, .call (.create 128 30), .cont, .call (.resume 2), .call (.wait 1), .cont, .call (.signal 1), .cont, .call (.wait 1), .cont,
   .call (.signaln 1 3), .cont]

theorem waitTwice_accounted : ∃ k : Kernel armRpi (Quetab armRpi),
    Reach step (fun k x => k.untimedCalls x = true) (boot armRpi rpi) k ∧
    (account 1 k.log).signals = 4 ∧ (k.semtab 1).count = 2 ∧ k.SemConsistent 1 := by
  have ran : (run step untimedCalls waitTwice (boot armRpi rpi)).map
      (fun k => ((account 1 k.log).signals, (account 1 k.log).waits, (k.semtab 1).count)) = some (4, 3, 2) := by
    decide +kernel
  obtain ⟨k, action, observed⟩ := Option.map_eq_some_iff.mp ran
  simp only [Prod.mk.injEq] at observed
  have reach := Reach.run (fun _ _ h => h) .init action
  exact ⟨k, reach, observed.1, observed.2.2, semaphores_accounted armRpi rpi k reach 1 (by decide)⟩

end Kernel
end Xinu
