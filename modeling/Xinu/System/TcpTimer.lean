import Xinu.System.Config

/-!
# TCP timer

`tcpTimerSched.c`, `tcpTimerPurge.c`, `tcpTimerRemain.c` and the loop of `tcpTimer.c`. The events are a delta queue from
the head of `tcptimertab`. Each function holds `tcpmutex`, except that the timer lets go of it to run
a trigger: it stops there, and goes on after whatever else was done in the meantime.
-/

namespace Xinu.Tcp

abbrev TCP_EVT_HEAD : Nat := 0
abbrev TCP_EVT_TIMEWT : Nat := 1
abbrev TCP_EVT_RXT : Nat := 2
abbrev TCP_EVT_PERSIST : Nat := 3

structure TcpEvent where
  used : Bool
  time : Int
  remain : Int
  type : Nat
  tcb : Nat
  next : Option Nat
  deriving Repr

structure Timers where
  tab : Nat → TcpEvent
  nextevt : Nat

namespace Timers

def set (s : Timers) (i : Nat) (evt : TcpEvent) : Timers :=
  { s with tab := Function.update s.tab i evt }

def init : Timers :=
  { tab := Function.update (fun _ => ⟨false, 0, 0, 0, 0, none⟩) TCP_EVT_HEAD ⟨true, 0, 0, 0, 0, none⟩
    nextevt := 0 }

/-- `%` binds tighter than the `+ 1` of `TCP_NEVENTS`, which stands without parentheses. -/
def succEvt (ntcp nextevt : Nat) : Nat := (nextevt + 1) % (3 * ntcp) + 1

def allocEvent (ntcp : Nat) : Nat → Timers → Timers × Option Nat
  | 0, s => (s, none)
  | evt + 1, s =>
      let s := { s with nextevt := succEvt ntcp s.nextevt }
      if s.nextevt = TCP_EVT_HEAD then allocEvent ntcp evt s
      else if (s.tab s.nextevt).used = false then
        (s.set s.nextevt { s.tab s.nextevt with used := true }, some s.nextevt)
      else allocEvent ntcp evt s

def schedWalk (s : Timers) : Nat → Nat → Option Nat → Int → Nat × Option Nat × Int
  | 0, prev, next, time => (prev, next, time)
  | _, prev, none, time => (prev, none, time)
  | fuel + 1, prev, some next, time =>
      if (s.tab next).remain ≤ time then
        schedWalk s fuel next (s.tab next).next (time - (s.tab next).remain)
      else (prev, some next, time)

/-- No list of events is longer than this. -/
def walkLimit (ntcp : Nat) : Nat := 3 * ntcp + 1

def insertEvent (s : Timers) (evt prev : Nat) (next : Option Nat) (time : Int) : Timers :=
  let s := s.set evt { s.tab evt with next }
  let s := s.set prev { s.tab prev with next := some evt }
  let s := s.set evt { s.tab evt with remain := time }
  match next with
  | none => s
  | some next => s.set next { s.tab next with remain := (s.tab next).remain - time }

def tcpTimerSched (ntcp : Nat) (s : Timers) (time : Int) (tcb type : Nat) : Timers × Int :=
  if time < 0 then (s, SYSERR)
  else
    match allocEvent ntcp (3 * ntcp + 1) s with
    | (s, none) => (s, SYSERR)
    | (s, some evt) =>
        let s := s.set evt { s.tab evt with time, type, tcb }
        let (prev, next, time) :=
          s.schedWalk (walkLimit ntcp) TCP_EVT_HEAD (s.tab TCP_EVT_HEAD).next time
        (s.insertEvent evt prev next time, OK)

def purges (s : Timers) (tcb type i : Nat) : Bool :=
  (s.tab i).tcb = tcb ∧ (type = 0 ∨ (s.tab i).type = type)

def removeEvent (s : Timers) (prev cur : Nat) : Timers :=
  let s := match (s.tab cur).next with
    | none => s
    | some next => s.set next { s.tab next with remain := (s.tab next).remain + (s.tab cur).remain }
  let s := s.set prev { s.tab prev with next := (s.tab cur).next }
  s.set cur { s.tab cur with used := false }

def purgeLoop (tcb type : Nat) : Nat → Timers → Nat → Option Nat → Int → Timers × Int
  | 0, s, _, _, result => (s, result)
  | _, s, _, none, result => (s, result)
  | fuel + 1, s, prev, some cur, result =>
      if s.purges tcb type cur then
        let result := if result = SYSERR then (s.tab cur).time - (s.tab cur).remain else result
        let s := s.removeEvent prev cur
        -- the event that has been taken out is the one before the next
        purgeLoop tcb type fuel s cur (s.tab cur).next result
      else purgeLoop tcb type fuel s cur (s.tab cur).next result

def tcpTimerPurge (ntcp : Nat) (s : Timers) (tcb type : Nat) : Timers × Int :=
  purgeLoop tcb type (walkLimit ntcp) s TCP_EVT_HEAD (s.tab TCP_EVT_HEAD).next SYSERR

def remainFor (s : Timers) (tcb type : Nat) : Nat → Option Nat → Int → Int
  | 0, _, _ => 0
  | _, none, _ => 0
  | fuel + 1, some cur, time =>
      let time := time + (s.tab cur).remain
      if (s.tab cur).tcb = tcb ∧ (s.tab cur).type = type then time
      else s.remainFor tcb type fuel (s.tab cur).next time

def tcpTimerRemain (ntcp : Nat) (s : Timers) (tcb type : Nat) : Int :=
  s.remainFor tcb type (walkLimit ntcp) (s.tab TCP_EVT_HEAD).next 0

/-- Take the first event out of the list; its trigger runs next. -/
def fire (s : Timers) (first : Nat) : Timers :=
  let s := s.set first { s.tab first with used := false }
  s.set TCP_EVT_HEAD { s.tab TCP_EVT_HEAD with next := (s.tab first).next }

/-- Go on with `elapse` milliseconds. The event that fires comes with what is left of them. -/
def advance (s : Timers) (elapse : Nat) : Timers × Option (Nat × Nat) :=
  match (s.tab TCP_EVT_HEAD).next with
  | none => (s, none)
  | some first =>
      if elapse = 0 then (s, none)
      else if (s.tab first).remain > elapse then
        (s.set first { s.tab first with remain := (s.tab first).remain - elapse }, none)
      else
        let left := elapse - (s.tab first).remain.toNat
        let s := s.set first { s.tab first with remain := 0 }
        (s.fire first, some (first, left))

def resume (s : Timers) (elapse : Nat) : Timers × Option (Nat × Nat) :=
  match (s.tab TCP_EVT_HEAD).next with
  | none => (s, none)
  | some first =>
      if (s.tab first).remain ≤ 0 then (s.fire first, some (first, elapse)) else s.advance elapse

end Timers

end Xinu.Tcp
