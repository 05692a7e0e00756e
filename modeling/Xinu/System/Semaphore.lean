import Xinu.System.Sched

namespace Xinu.Kernel
variable {c : Config} {Q : Type} [Queues Q] (k : Kernel c Q)

def wait (sem : Nat) : Kernel c Q :=
  if k.isbadsem sem then k.ret SYSERR
  else
    let count := (k.semtab sem).count - 1
    let k := (k.setCount sem count).emit (.wait k.thrcurrent sem (count < 0))
    if count < 0 then
      let k := k.setThr k.thrcurrent { k.thrtab k.thrcurrent with state := .wait, sem := sem }
      ((k.enqueue k.thrcurrent (k.semtab sem).queue).ret OK).resched
    else k.ret OK

def signalOnce (sem : Nat) (resch : Bool) : Kernel c Q :=
  let count := (k.semtab sem).count
  let k := (k.setCount sem (count + 1)).emit (.signal sem)
  if count < 0 then
    let (k, tid) := k.dequeue (k.semtab sem).queue
    (k.emit (.released tid sem)).ready tid resch
  else k

def signal (sem : Nat) : Kernel c Q :=
  if k.isbadsem sem then k.ret SYSERR else (k.ret OK).signalOnce sem true

def signalnLoop (sem : Nat) : Nat → Kernel c Q → Kernel c Q
  | 0, k => k
  | n + 1, k => signalnLoop sem n (k.signalOnce sem false)

def signaln (sem : Nat) (count : Int) : Kernel c Q :=
  if k.isbadsem sem ∨ count ≤ 0 then k.ret SYSERR
  else (signalnLoop sem count.toNat (k.ret OK)).resched

def semalloc : Kernel c Q × Option Nat :=
  let (i, sem) := rotate c.nsem (fun s => (k.semtab s).state = .free) c.nsem k.nextsem
  let k := { k with nextsem := i }
  match sem with
  | none => (k, none)
  | some s => (k.setSem s { k.semtab s with state := .used }, some s)

def semcreate (count : Int) : Kernel c Q × Option Nat :=
  if count < 0 then (k, none)
  else match k.semalloc with
    | (k, none) => (k, none)
    | (k, some s) => ((k.setCount s count).emit (.semcreate s count), some s)

def semfreeLoop (q : Int) : Nat → Kernel c Q → Kernel c Q
  | 0, k => k.stop
  | fuel + 1, k =>
      if k.nonempty q then
        let (k, tid) := k.dequeue q
        semfreeLoop q fuel (k.ready tid false)
      else k

def semfree (sem : Nat) : Kernel c Q × Int :=
  if k.isbadsem sem then (k, SYSERR)
  else
    let k := semfreeLoop (k.semtab sem).queue (c.nthread + 1) k
    ((k.setSem sem { k.semtab sem with count := 0, state := .free }).emit (.semfree sem), OK)

end Xinu.Kernel
