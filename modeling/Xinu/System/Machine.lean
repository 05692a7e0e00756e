import Xinu.System.Thread
import Xinu.System.Monitor
import Xinu.System.Future

/-!
# The machine

What the processor does from one point where a context switch can be seen to the next: the current
thread makes a call, goes on with a call it is in, or is interrupted by the clock. Interrupts are
off inside the kernel, so the first and the last happen only to a thread in its own code.
-/

namespace Xinu

inductive Act
  | call (call : Call)
  | cont
  | tick
  deriving DecidableEq, Repr

namespace Kernel
variable {c : Config} {Q : Type} [Queues Q]

def retOption (p : Kernel c Q × Option Nat) : Kernel c Q :=
  p.1.ret (match p.2 with | none => SYSERR | some i => i)

def retValue (p : Kernel c Q × Int) : Kernel c Q := p.1.ret p.2

def runCall (k : Kernel c Q) : Call → Kernel c Q
  | .create ssize priority => k.create ssize priority
  | .ready tid resch => (k.ret (if k.isbadtid tid then SYSERR else OK)).ready tid resch
  | .resume tid => k.resume tid
  | .suspend tid => k.suspend tid
  | .kill tid => k.kill tid
  | .chprio tid newprio => k.chprio tid newprio
  | .resched => (k.ret OK).resched
  | .wait sem => k.wait sem
  | .signal sem => k.signal sem
  | .signaln sem count => k.signaln sem count
  | .semcreate count => retOption (k.semcreate count)
  | .semfree sem => retValue (k.semfree sem)
  | .sleep ms => k.sleep ms
  | .unsleep tid => retValue (k.unsleep tid)
  | .send tid msg => k.send tid msg
  | .receive => k.receive
  | .recvclr => k.recvclr
  | .recvtime maxwait => k.recvtime maxwait
  | .moncreate => k.moncreate
  | .monfree mon => k.monfree mon
  | .lock mon => k.lock mon
  | .unlock mon => k.unlock mon
  | .futureAlloc flag => k.futureAlloc flag
  | .futureFree fut => k.futureFree fut
  | .futureSet fut value => k.futureSet fut value
  | .futureGet fut => k.futureGet fut

def runFrame (k : Kernel c Q) : Frame → Kernel c Q
  | .ret value =>
      if k.stack k.thrcurrent = [] then k.emit (.ret k.thrcurrent value) else k
  | .suspend tid => k.suspendDone tid
  | .receive => k.takeMessage
  | .recvtime => k.recvtimeDone
  | .kill tid => k.killSent tid
  | .killCurr tid => k.killWait tid
  | .lockClaimed mon => k.locked mon
  | .lockWaited mon => (k.claim mon).locked mon
  | .getExclusive fut => k.getExclusive fut
  | .getShared fut => k.getShared fut
  | .getQueue fut => (k.push (.ret OK)).futureGet fut
  | .getSignalled fut => (k.push (.getQueue fut)).futureWait fut
  | .setQueue fut value => k.putValue fut value
  | .signalShared fut => k.signalShared fut

/-- The state after an act, or `none` when the act cannot happen here or never ends. -/
def step (a : Act) (k : Kernel c Q) : Option (Kernel c Q) :=
  let k' := match a, k.stack k.thrcurrent with
    | .call call, [] => if call.typed then some ((k.emit (.call k.thrcurrent call)).runCall call) else none
    | .cont, f :: fs => some ((k.setStack k.thrcurrent fs).runFrame f)
    | .tick, [] => some k.clkhandler
    | _, _ => none
  k'.filter fun k => !k.stopped

def semqueues (k : Kernel c Q) : Nat → Kernel c Q
  | 0 => k
  | n + 1 =>
      let (k, q) := (semqueues k n).queinit
      k.setSem n ⟨.free, 0, q⟩

end Kernel

/-- The kernel before `sysinit`: static storage is zero and `nextqid` is `NTHREAD`. -/
def bss {c : Config} {Q : Type} (tab : Q) (heap : Heap) : Kernel c Q where
  thrtab _ := ⟨.free, 0, 0, 0, 0, 0, 0, false⟩
  semtab _ := ⟨.free, 0, 0⟩
  montab _ := ⟨.free, 0, 0, 0⟩
  quetab := tab
  readylist := 0
  sleepq := 0
  thrcount := 0
  thrcurrent := 0
  resdefer := 0
  nexttid := 0
  nextsem := 0
  nextmon := 0
  nextqid := c.nthread
  clkticks := 0
  clktime := 0
  heap := heap
  future _ := ⟨0, .exclusive, .empty, 0, 0, 0⟩
  stack _ := []
  stopped := false
  log := []

def sysinitThreads (c : Config) {Q : Type} (p : Platform) (tab : Q) : Kernel c Q :=
  let k : Kernel c Q := bss tab (heapInit p)
  let k : Kernel c Q := { k with thrcount := 1, thrcurrent := NULLTHREAD }
  k.setThr NULLTHREAD { k.thrtab NULLTHREAD with state := .curr, prio := 0 }

/-- The part of `sysinit` that sets up threads, semaphores, monitors and queues. -/
def sysinit (c : Config) {Q : Type} [Queues Q] (p : Platform) (tab : Q) : Kernel c Q :=
  let (k, q) := ((sysinitThreads c p tab).semqueues c.nsem).queinit
  let (k, q) := ({ k with readylist := q } : Kernel c Q).queinit
  { k with sleepq := q }

/-- A Raspberry Pi whose boot loader says nothing about its memory, with a kernel image that ends
below 1 MiB. -/
def rpi : Platform := ⟨0x100000, 0xBFFFFFF, by decide, by decide, by decide⟩

def boot (c : Config) (p : Platform) : Kernel c (Quetab c) :=
  sysinit c p (⟨fun _ => ⟨0, 0, 0⟩⟩ : Quetab c)

end Xinu
