import Xinu.System.Queue
import Xinu.System.Memory

/-!
# Kernel state

The global tables of the kernel, the code each thread still has to run inside the kernel, and a
log of what has happened. A kernel function runs with interrupts off until it calls `resched`; the
code that follows such a call is a `Frame`, kept on the stack of the thread that made it and run
when `resched` comes back to that thread.
-/

namespace Xinu

/-- The states of `thread.h`. `THRMIGRATE` is never assigned and is left out. -/
inductive ThrState
  | curr | free | ready | recv | sleep | susp | wait | tmout
  deriving DecidableEq, Repr

structure Thrent where
  state : ThrState
  prio : Int
  stkbase : Nat
  stklen : Nat
  sem : Nat
  parent : Int
  msg : Int
  hasmsg : Bool

inductive SemState
  | free | used
  deriving DecidableEq, Repr

structure Sement where
  state : SemState
  count : Int
  queue : Int

inductive MonState
  | free | used
  deriving DecidableEq, Repr

structure Monent where
  state : MonState
  owner : Int
  count : Nat
  sem : Nat

inductive FutState
  | empty | waiting | valid
  deriving DecidableEq, Repr

inductive FutMode
  | exclusive | shared | queue
  deriving DecidableEq, Repr

structure Futent where
  value : Int
  flag : FutMode
  state : FutState
  tid : Int
  setQueue : Int
  getQueue : Int

inductive Call
  | create (ssize : Nat) (priority : Int)
  | ready (tid : Int) (resch : Bool)
  | resume (tid : Int)
  | suspend (tid : Int)
  | kill (tid : Int)
  | chprio (tid newprio : Int)
  | resched
  | wait (sem : Nat)
  | signal (sem : Nat)
  | signaln (sem : Nat) (count : Int)
  | semcreate (count : Int)
  | semfree (sem : Nat)
  | sleep (ms : Nat)
  | unsleep (tid : Int)
  | send (tid msg : Int)
  | receive
  | recvclr
  | recvtime (maxwait : Int)
  | moncreate
  | monfree (mon : Nat)
  | lock (mon : Nat)
  | unlock (mon : Nat)
  | futureAlloc (flag : Option FutMode)
  | futureFree (fut : Nat)
  | futureSet (fut : Nat) (value : Int)
  | futureGet (fut : Nat)
  deriving DecidableEq, Repr

/-- The keys that a call puts on a queue are of type `int`. -/
def Call.typed : Call → Bool
  | .recvtime maxwait => MINKEY ≤ maxwait && maxwait ≤ MAXKEY
  | _ => true

/-- What a thread still has to do after a `resched` it is in comes back. -/
inductive Frame
  | ret (value : Int)
  | suspend (tid : Int)
  | receive
  | recvtime
  -- after `send(thrptr->parent, tid)`, and after the `resched` of case `THRCURR`
  | kill (tid : Int)
  | killCurr (tid : Int)
  -- after the `wait` of a thread that found no owner, and of one that found another owner
  | lockClaimed (mon : Nat)
  | lockWaited (mon : Nat)
  -- `future_get` after `future_wait`, one for each mode
  | getExclusive (fut : Nat)
  | getShared (fut : Nat)
  | getQueue (fut : Nat)
  -- `future_get` after `future_signal`, when a setter was waiting
  | getSignalled (fut : Nat)
  -- `future_set` after `future_wait`
  | setQueue (fut : Nat) (value : Int)
  -- `future_signal` after `ready` in its loop over `get_queue`
  | signalShared (fut : Nat)
  deriving DecidableEq, Repr

/-- The log. No kernel function reads it. -/
inductive Event
  | call (tid : Int) (call : Call)
  | ret (tid value : Int)
  | tick
  -- `tid` was put on the ready list; `resched` left `tid` as the current thread
  | ready (tid : Int)
  | chosen (tid : Int)
  -- `create` handed out `tid`; `kill(tid)` decremented `thrcount`, and called `stkfree`
  | created (tid : Int)
  | killed (tid : Int)
  | stkfreed (tid : Int)
  -- `tid` went on `sleepq` for `ticks`, `timed` in `recvtime`; `wakeup` took it off
  | sleeping (tid ticks : Int) (timed : Bool)
  | woken (tid : Int)
  | semcreate (sem : Nat) (count : Int)
  | semfree (sem : Nat)
  -- `wait` decremented the count, `signal` or `signaln` incremented it
  | wait (tid : Int) (sem : Nat) (blocks : Bool)
  | signal (sem : Nat)
  -- `signal` or `signaln` took `tid` off the queue; `kill` found it in state `THRWAIT`
  | released (tid : Int) (sem : Nat)
  | waiterKilled (tid : Int) (sem : Nat)
  -- `send` accepted `msg` for `tid`; `tid` took it out of its slot, or gave up waiting
  | sent (tid msg : Int)
  | received (tid msg : Int)
  | timedout (tid : Int)
  -- `lock` returns; `unlock` passed its checks and `releases` if it made the count 0
  | locked (tid : Int) (mon : Nat)
  | unlocked (tid : Int) (mon : Nat) (releases : Bool)
  | futureMade (fut : Nat) (flag : FutMode)
  -- `future_get` stored `value` for `tid`; `future_set` of `tid` stored it in the future
  | got (tid : Int) (fut : Nat) (value : Int)
  | put (tid : Int) (fut : Nat) (value : Int)
  -- `future_signal` made `tid` ready
  | futureReady (tid : Int) (fut : Nat)
  deriving DecidableEq, Repr

structure Kernel (c : Config) (Q : Type) where
  thrtab : Int → Thrent
  semtab : Nat → Sement
  montab : Nat → Monent
  quetab : Q
  readylist : Int
  sleepq : Int
  thrcount : Int
  thrcurrent : Int
  resdefer : Int
  -- the static variables of `thrnew`, `semalloc`, `monalloc` and `queinit`
  nexttid : Nat
  nextsem : Nat
  nextmon : Nat
  nextqid : Int
  clkticks : Nat
  clktime : Nat
  heap : Heap
  future : Nat → Futent
  -- what each thread has to run before it is back in its own code, innermost call first
  stack : Int → List Frame
  -- the processor is in a loop that never ends, or was halted by `xdone`
  stopped : Bool
  -- latest event first
  log : List Event

namespace Kernel
variable {c : Config} {Q : Type} (k : Kernel c Q)

def isbadtid (x : Int) : Bool := x ≥ c.nthread || x < 0 || (k.thrtab x).state = .free
def isbadsem (s : Nat) : Bool := s ≥ c.nsem || (k.semtab s).state = .free
def isbadmon (m : Nat) : Bool := m ≥ c.nmon || (k.montab m).state = .free

def emit (e : Event) : Kernel c Q := { k with log := e :: k.log }
def stop : Kernel c Q := { k with stopped := true }

def setQuetab (tab : Q) : Kernel c Q := { k with quetab := tab }
def setThr (t : Int) (e : Thrent) : Kernel c Q := { k with thrtab := Function.update k.thrtab t e }
def setState (t : Int) (s : ThrState) : Kernel c Q := k.setThr t { k.thrtab t with state := s }
def setSem (s : Nat) (e : Sement) : Kernel c Q := { k with semtab := Function.update k.semtab s e }
def setCount (s : Nat) (v : Int) : Kernel c Q := k.setSem s { k.semtab s with count := v }
def setMon (m : Nat) (e : Monent) : Kernel c Q := { k with montab := Function.update k.montab m e }
def setFuture (f : Nat) (e : Futent) : Kernel c Q := { k with future := Function.update k.future f e }
def setStack (t : Int) (fs : List Frame) : Kernel c Q :=
  { k with stack := Function.update k.stack t fs }

def push (f : Frame) : Kernel c Q := k.setStack k.thrcurrent (f :: k.stack k.thrcurrent)

def ret (value : Int) : Kernel c Q := k.push (.ret value)

variable [Queues Q]

def isempty (q : Int) : Bool := Queues.firstid k.quetab q ≥ c.nthread
def nonempty (q : Int) : Bool := Queues.firstid k.quetab q < c.nthread
def firstkey (q : Int) : Int := Queues.key k.quetab (Queues.firstid k.quetab q)

end Kernel

def isbadqid (c : Config) (x : Int) : Bool :=
  quehead x < 0 || quehead x ≠ quetail x - 1 || quetail x ≥ c.nqent

namespace Kernel
variable {c : Config} {Q : Type} [Queues Q] (k : Kernel c Q)

def enqueue (tid q : Int) : Kernel c Q :=
  if isbadqid c q || k.isbadtid tid then k
  else k.setQuetab (Queues.enqueue k.quetab tid q)

def getitem (tid : Int) : Kernel c Q := k.setQuetab (Queues.getitem k.quetab tid)

def dequeue (q : Int) : Kernel c Q × Int :=
  if isbadqid c q then (k, SYSERR)
  else if k.isempty q then (k, EMPTY)
  else
    let tid := Queues.firstid k.quetab q
    let k := k.getitem tid
    (if k.isbadtid tid then k else k.setQuetab (Queues.clear k.quetab tid), tid)

def insert (tid q key : Int) : Kernel c Q :=
  if isbadqid c q || k.isbadtid tid then k
  else match Queues.insert k.quetab tid q key with
    | none => k.stop
    | some tab => k.setQuetab tab

def insertd (tid q key : Int) : Kernel c Q × Int :=
  if isbadqid c q || k.isbadtid tid then (k, SYSERR)
  else match Queues.insertd k.quetab tid q key with
    | none => (k.stop, OK)
    | some tab => (k.setQuetab tab, OK)

def queinit : Kernel c Q × Int :=
  if k.nextqid > c.nqent then (k, SYSERR)
  else ({ k with nextqid := k.nextqid + 2, quetab := Queues.queinit k.quetab k.nextqid }, k.nextqid)

end Kernel

end Xinu
