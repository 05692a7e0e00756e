import Xinu.System.Sched

namespace Xinu.Kernel
variable {c : Config} {Q : Type} [Queues Q] (k : Kernel c Q)

abbrev FUTURE_SIZE : Nat := 24

def futureAlloc (flag : Option FutMode) : Kernel c Q :=
  match flag with
  | none => k.ret NULL
  | some flag =>
      match k.heap.memget FUTURE_SIZE with
      | none => k.stop
      | some (_, none) => k.ret NULL
      | some (heap, some fut) =>
          let k := ({ k with heap }.setFuture fut ⟨0, flag, .empty, -1, -1, -1⟩).emit
            (.futureMade fut flag)
          let k := if flag = .shared ∨ flag = .queue then
              let (k, q) := k.queinit
              k.setFuture fut { k.future fut with getQueue := q }
            else k
          let k := if flag = .queue then
              let (k, q) := k.queinit
              k.setFuture fut { k.future fut with setQueue := q }
            else k
          k.ret fut

def futureFree (fut : Nat) : Kernel c Q :=
  match k.heap.memfree fut FUTURE_SIZE with
  | none => k.stop
  | some (heap, r) => { k with heap }.ret r

def futureWait (fut : Nat) : Kernel c Q :=
  match (k.future fut).state with
  | .valid => k.ret OK
  | _ =>
      let k := k.setState k.thrcurrent .wait
      let k := match (k.future fut).flag with
        -- `if(fut->tid=-1)` assigns, and -1 counts as true
        | .exclusive => k.setFuture fut { k.future fut with tid := k.thrcurrent }
        | _ => k
      (k.ret OK).resched

def futureReady (fut : Nat) (tid : Int) : Kernel c Q :=
  if k.isbadtid tid then k else (k.emit (.futureReady tid fut)).ready tid true

/-- One round of the loop over `get_queue`; the rest of the loop runs when `ready` returns. -/
def signalShared (fut : Nat) : Kernel c Q :=
  let q := (k.future fut).getQueue
  if k.isempty q then k.ret OK
  else
    let (k, tid) := (k.push (.signalShared fut)).dequeue q
    k.futureReady fut tid

def futureSignal (fut : Nat) : Kernel c Q :=
  let f := k.future fut
  match f.state, f.flag with
  | .valid, .exclusive => (k.ret OK).futureReady fut f.tid
  | .valid, .shared => k.signalShared fut
  | .valid, .queue =>
      let (k, tid) := (k.ret OK).dequeue f.getQueue
      k.futureReady fut tid
  | .empty, .queue =>
      let (k, tid) := (k.ret OK).dequeue f.setQueue
      k.futureReady fut tid
  | _, _ => k.ret OK

/-- Store the value, make the future valid and signal it; `future_set` returns `OK` after that. -/
def putValue (fut : Nat) (value : Int) : Kernel c Q :=
  let k := k.setFuture fut { k.future fut with value := value, state := .valid }
  ((k.emit (.put k.thrcurrent fut value)).push (.ret OK)).futureSignal fut

def futureSet (fut : Nat) (value : Int) : Kernel c Q :=
  let f := k.future fut
  match f.state, f.flag with
  | .valid, _ => k.ret SYSERR
  | _, .queue =>
      if k.isempty f.getQueue then
        ((k.enqueue k.thrcurrent f.setQueue).push (.setQueue fut value)).futureWait fut
      else k.putValue fut value
  | _, _ => k.putValue fut value

def takeValue (fut : Nat) : Kernel c Q := k.emit (.got k.thrcurrent fut (k.future fut).value)

def setEmpty (fut : Nat) : Kernel c Q := k.setFuture fut { k.future fut with state := .empty }

def getExclusive (fut : Nat) : Kernel c Q := ((k.takeValue fut).setEmpty fut).ret OK

def getShared (fut : Nat) : Kernel c Q :=
  let k := k.takeValue fut
  (if k.isempty (k.future fut).getQueue then k.setEmpty fut else k).ret OK

def futureGet (fut : Nat) : Kernel c Q :=
  let f := k.future fut
  match f.state, f.flag with
  | .empty, .exclusive =>
      ((k.setFuture fut { f with state := .waiting }).push (.getExclusive fut)).futureWait fut
  | .empty, .shared =>
      let k := k.setFuture fut { f with state := .waiting }
      ((k.enqueue k.thrcurrent f.getQueue).push (.getShared fut)).futureWait fut
  | .empty, .queue =>
      if k.isempty f.setQueue then
        ((k.enqueue k.thrcurrent f.getQueue).push (.getQueue fut)).futureWait fut
      else
        ((k.enqueue k.thrcurrent f.getQueue).push (.getSignalled fut)).futureSignal fut
  | .waiting, .exclusive => k.ret SYSERR
  | .waiting, .shared =>
      ((k.enqueue k.thrcurrent f.getQueue).push (.getShared fut)).futureWait fut
  | .waiting, .queue => k.ret OK
  | .valid, .exclusive => k.getExclusive fut
  | .valid, .shared => k.getShared fut
  | .valid, .queue => ((k.takeValue fut).setEmpty fut).ret OK

end Xinu.Kernel
