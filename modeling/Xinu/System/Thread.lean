import Xinu.System.Message
import Xinu.System.Semaphore

/-!
# Creating and killing threads

`create.c` and `kill.c`, without the user heap of `UHEAP_SIZE`, which no configuration defines.
-/

namespace Xinu.Kernel
variable {c : Config} {Q : Type} [Queues Q] (k : Kernel c Q)

def thrnew : Kernel c Q × Option Nat :=
  let (i, tid) := rotate c.nthread (fun t => (k.thrtab t).state = .free) c.nthread k.nexttid
  ({ k with nexttid := i }, tid)

/-- `stkfree(p, len)`, with what it returns dropped as both callers do. -/
def stkfree (p len : Nat) : Kernel c Q :=
  match k.heap.stkfree p len with
  | none => k.stop
  | some (heap, _) => { k with heap }

def create (ssize : Nat) (priority : Int) : Kernel c Q :=
  let ssize := if ssize < MINSTK then MINSTK else ssize
  match k.heap.stkget ssize with
  | none => k.stop
  | some (_, none) => k.ret SYSERR
  | some (heap, some saddr) =>
      match { k with heap }.thrnew with
      | (k, none) => (k.stkfree saddr ssize).ret SYSERR
      | (k, some tid) =>
          let k := { k with thrcount := k.thrcount + 1 }
          let k := k.setThr tid
            { k.thrtab tid with
              state := .susp, prio := priority, stkbase := saddr, stklen := ssize,
              parent := k.thrcurrent, hasmsg := false }
          ((k.setStack tid []).emit (.created tid)).ret tid

/-- `case THRREADY:` of `kill` and what it falls through to. -/
def killReady (tid : Int) : Kernel c Q := ((k.getitem tid).setState tid .free).ret OK

def killWait (tid : Int) : Kernel c Q :=
  let sem := (k.thrtab tid).sem
  let k := (k.setCount sem ((k.semtab sem).count + 1)).emit (.waiterKilled tid sem)
  k.killReady tid

def killSwitch (tid : Int) : Kernel c Q :=
  match (k.thrtab tid).state with
  | .sleep => ((k.unsleep tid).1.setState tid .free).ret OK
  | .curr => ((k.setState tid .free).push (.killCurr tid)).resched
  | .wait => k.killWait tid
  | .ready => k.killReady tid
  | _ => (k.setState tid .free).ret OK

def killSent (tid : Int) : Kernel c Q :=
  ((k.emit (.stkfreed tid)).stkfree (k.thrtab tid).stkbase (k.thrtab tid).stklen).killSwitch tid

def kill (tid : Int) : Kernel c Q :=
  if k.isbadtid tid ∨ tid = NULLTHREAD then k.ret SYSERR
  else
    let k := { k with thrcount := k.thrcount - 1 }.emit (.killed tid)
    -- `xdone` prints its message and halts the processor
    if k.thrcount ≤ 1 then k.stop
    else (k.push (.kill tid)).send (k.thrtab tid).parent tid

end Xinu.Kernel
