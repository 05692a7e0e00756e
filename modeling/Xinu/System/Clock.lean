import Xinu.System.Sched

namespace Xinu.Kernel
variable {c : Config} {Q : Type} [Queues Q] (k : Kernel c Q)

/-- `(ms * CLKTICKS_PER_SEC) / 1000` over a 32-bit `uint`; the quotient fits the `int` it goes to. -/
def sleepTicks (ms : Nat) : Int := (ms * CLKTICKS_PER_SEC % WORD / 1000 : Nat)

def sleep (ms : Nat) : Kernel c Q :=
  let ticks := sleepTicks ms
  if ticks > 0 then
    let (k', r) := k.insertd k.thrcurrent k.sleepq ticks
    if r = SYSERR then k'.ret SYSERR
    else (((k'.setState k.thrcurrent .sleep).emit (.sleeping k.thrcurrent ticks false)).ret
      OK).resched
  else (k.ret OK).resched

def unsleep (tid : Int) : Kernel c Q × Int :=
  if k.isbadtid tid then (k, SYSERR)
  else if (k.thrtab tid).state ≠ .sleep ∧ (k.thrtab tid).state ≠ .tmout then (k, SYSERR)
  else
    let next := Queues.nextid k.quetab tid
    let key := int32 (Queues.key k.quetab next + Queues.key k.quetab tid)
    let k := if next < c.nthread then k.setQuetab (Queues.setKey k.quetab next key) else k
    (k.getitem tid, OK)

/-- The loop of `wakeup`. Each round takes a thread off `sleepq`, which never holds more than
`NTHREAD` of them. -/
def wakeupLoop : Nat → Kernel c Q → Kernel c Q
  | 0, k => k.stop
  | fuel + 1, k =>
      if k.nonempty k.sleepq ∧ k.firstkey k.sleepq ≤ 0 then
        let (k, tid) := k.dequeue k.sleepq
        wakeupLoop fuel ((k.emit (.woken tid)).ready tid false)
      else k

def wakeup : Kernel c Q := (wakeupLoop (c.nthread + 1) k).resched

def countTick : Kernel c Q :=
  let clkticks := k.clkticks + 1
  if CLKTICKS_PER_SEC = clkticks then { k with clktime := k.clktime + 1, clkticks := 0 }
  else { k with clkticks := clkticks }

def clkhandler : Kernel c Q :=
  let k := k.countTick.emit .tick
  if k.nonempty k.sleepq then
    let first := Queues.firstid k.quetab k.sleepq
    let key := Queues.key k.quetab first - 1
    let k := k.setQuetab (Queues.setKey k.quetab first key)
    if k.firstkey k.sleepq ≤ 0 then k.wakeup else k.resched
  else k.resched

end Xinu.Kernel
