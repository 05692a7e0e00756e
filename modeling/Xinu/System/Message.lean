import Xinu.System.Clock

namespace Xinu.Kernel
variable {c : Config} {Q : Type} [Queues Q] (k : Kernel c Q)

def deposit (tid msg : Int) : Kernel c Q :=
  (k.setThr tid { k.thrtab tid with msg := msg, hasmsg := true }).emit (.sent tid msg)

def send (tid msg : Int) : Kernel c Q :=
  if k.isbadtid tid then k.ret SYSERR
  else
    let thrptr := k.thrtab tid
    if thrptr.state = .free ∨ thrptr.hasmsg then k.ret SYSERR
    else
      let k := (k.deposit tid msg).ret OK
      match thrptr.state with
      | .recv => k.ready tid true
      | .tmout => (k.unsleep tid).1.ready tid true
      | _ => k

def takeMessage : Kernel c Q :=
  let thrptr := k.thrtab k.thrcurrent
  let k := k.setThr k.thrcurrent { thrptr with hasmsg := false }
  (k.emit (.received k.thrcurrent thrptr.msg)).ret thrptr.msg

def receive : Kernel c Q :=
  if (k.thrtab k.thrcurrent).hasmsg then k.takeMessage
  else ((k.setState k.thrcurrent .recv).push .receive).resched

def recvclr : Kernel c Q :=
  if (k.thrtab k.thrcurrent).hasmsg then k.takeMessage
  else
    (k.setThr k.thrcurrent { k.thrtab k.thrcurrent with hasmsg := false }).ret NOMSG

def recvtimeDone : Kernel c Q :=
  if (k.thrtab k.thrcurrent).hasmsg then k.takeMessage
  else (k.emit (.timedout k.thrcurrent)).ret TIMEOUT

def recvtime (maxwait : Int) : Kernel c Q :=
  if maxwait < 0 then k.ret SYSERR
  else if (k.thrtab k.thrcurrent).hasmsg then k.takeMessage
  else
    let (k', r) := k.insertd k.thrcurrent k.sleepq maxwait
    if r = SYSERR then k'.ret SYSERR
    else (((k'.setState k.thrcurrent .tmout).emit (.sleeping k.thrcurrent maxwait true)).push
      .recvtime).resched

end Xinu.Kernel
