import Xinu.System.Kernel

namespace Xinu.Kernel
variable {c : Config} {Q : Type} [Queues Q] (k : Kernel c Q)

/-- The last part of `resched`: the head of the ready list becomes the current thread. -/
def switch : Kernel c Q :=
  let (k, tid) := k.dequeue k.readylist
  ({ k with thrcurrent := tid }.setState tid .curr).emit (.chosen tid)

def makeReady (tid : Int) : Kernel c Q :=
  let k := k.setState tid .ready
  (k.insert tid k.readylist (k.thrtab tid).prio).emit (.ready tid)

def resched : Kernel c Q :=
  if k.resdefer > 0 then { k with resdefer := k.resdefer + 1 }
  else
    let throld := k.thrtab k.thrcurrent
    if throld.state = .curr then
      if k.nonempty k.readylist ∧ throld.prio > k.firstkey k.readylist then
        k.emit (.chosen k.thrcurrent)
      else (k.makeReady k.thrcurrent).switch
    else k.switch

def ready (tid : Int) (resch : Bool) : Kernel c Q :=
  if k.isbadtid tid then k
  else
    let k := k.makeReady tid
    if resch then k.resched else k

def resume (tid : Int) : Kernel c Q :=
  if k.isbadtid tid ∨ (k.thrtab tid).state ≠ .susp then k.ret SYSERR
  else (k.ret (k.thrtab tid).prio).ready tid true

def suspend (tid : Int) : Kernel c Q :=
  if k.isbadtid tid ∨ tid = NULLTHREAD then k.ret SYSERR
  else match (k.thrtab tid).state with
    | .ready =>
        let k := (k.getitem tid).setState tid .susp
        k.ret (k.thrtab tid).prio
    | .curr => ((k.setState tid .susp).push (.suspend tid)).resched
    | _ => k.ret SYSERR

def suspendDone (tid : Int) : Kernel c Q := k.ret (k.thrtab tid).prio

def chprio (tid newprio : Int) : Kernel c Q :=
  if k.isbadtid tid then k.ret SYSERR
  else
    let thrptr := k.thrtab tid
    (k.setThr tid { thrptr with prio := newprio }).ret thrptr.prio

end Xinu.Kernel
