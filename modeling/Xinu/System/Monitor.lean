import Xinu.System.Semaphore

namespace Xinu.Kernel
variable {c : Config} {Q : Type} [Queues Q] (k : Kernel c Q)

abbrev NOOWNER : Int := BADTID

def monalloc : Kernel c Q × Option Nat :=
  let (i, mon) := rotate c.nmon (fun m => (k.montab m).state = .free) c.nmon k.nextmon
  let k := { k with nextmon := i }
  match mon with
  | none => (k, none)
  | some m => (k.setMon m { k.montab m with state := .used }, some m)

def moncreate : Kernel c Q :=
  match k.monalloc with
  | (k, none) => k.ret SYSERR
  | (k, some m) =>
      let k := k.setMon m { k.montab m with owner := NOOWNER, count := 0 }
      match k.semcreate 1 with
      | (k, none) => (k.setMon m { k.montab m with sem := WORD - 1, state := .free }).ret SYSERR
      | (k, some s) => (k.setMon m { k.montab m with sem := s }).ret m

def monfree (mon : Nat) : Kernel c Q :=
  if k.isbadmon mon then k.ret SYSERR
  else
    let k := (k.semfree (k.montab mon).sem).1
    (k.setMon mon { k.montab mon with state := .free }).ret OK

def claim (mon : Nat) : Kernel c Q :=
  k.setMon mon { k.montab mon with owner := k.thrcurrent, count := ((k.montab mon).count + 1) % WORD }

def locked (mon : Nat) : Kernel c Q := (k.emit (.locked k.thrcurrent mon)).ret OK

def lock (mon : Nat) : Kernel c Q :=
  if k.isbadmon mon then k.ret SYSERR
  else
    let monptr := k.montab mon
    if monptr.owner = NOOWNER then ((k.claim mon).push (.lockClaimed mon)).wait monptr.sem
    else if k.thrcurrent = monptr.owner then (k.claim mon).locked mon
    else (k.push (.lockWaited mon)).wait monptr.sem

def unlock (mon : Nat) : Kernel c Q :=
  if k.isbadmon mon then k.ret SYSERR
  else
    let monptr := k.montab mon
    if monptr.count = 0 then k.ret SYSERR
    else
      let count := monptr.count - 1
      let k := k.emit (.unlocked k.thrcurrent mon (count = 0))
      if count = 0 then
        ((k.setMon mon { monptr with owner := NOOWNER, count := count }).push (.ret OK)).signal monptr.sem
      else (k.setMon mon { monptr with count := count }).ret OK

end Xinu.Kernel
