import Xinu.System.Machine

/-!
# Mailboxes

`mailboxInit.c`, `mailboxAlloc.c`, `mailboxFree.c`, `mailboxSend.c` and `mailboxReceive.c`, on top of
the kernel. What a thread still has to do inside one of these functions, when the kernel function it
has called returns or when it is interrupted, is an `Mframe`. The message buffer of a mailbox is a
function of the index. Threads are not killed here.
-/

namespace Xinu

inductive MboxState
  | free | alloc
  deriving DecidableEq, Repr

structure Mbox where
  -- `none` is `SYSERR`
  sender : Option Nat
  receiver : Option Nat
  max : Nat
  count : Nat
  start : Nat
  state : MboxState
  -- the address of the buffer, and what is in it
  msgs : Nat
  cells : Nat → Int

inductive Mframe
  -- in `wait(mbxptr->sender)`, and in `wait(mbxptr->receiver)`
  | send (box : Nat) (mailmsg : Int)
  | receive (box : Nat)
  -- `mailboxAlloc` in `wait(mboxtabsem)`, after `memget`, and after each `semcreate`
  | alloc (count : UInt32)
  | allocMemory (box : Nat) (count : UInt32)
  | allocSender (box : Nat)
  | allocReceiver (box : Nat)
  -- `mailboxAlloc` after `memfree`, and after the first `semfree`
  | undoSender (box : Nat)
  | undoReceiver (box : Nat)
  -- `mailboxFree` in `wait(mboxtabsem)`, after `mbxptr->state = MAILBOX_FREE`, after each `semfree`
  | free (box : Nat)
  | freeSender (box : Nat)
  | freeReceiver (box : Nat)
  | freeMemory (box : Nat)
  -- before `signal(mboxtabsem)`
  | tabDone (retval : Int)
  deriving DecidableEq

/-- `mailboxSend` and `mailboxReceive` run with interrupts off. -/
def Mframe.interruptible : Mframe → Bool
  | .send _ _ | .receive _ => false
  | _ => true

inductive MailEvent
  | allocated (box : Nat)
  | freed (box : Nat)
  -- `tid` found the mailbox allocated and called `wait`
  | began (tid : Int) (box : Nat)
  -- `tid` stored a message, took one out, or found that the mailbox was free when `wait` returned
  | sent (tid : Int) (box : Nat) (mailmsg retval : Int)
  | received (tid : Int) (box : Nat) (retval : Int)
  | refused (tid : Int) (box : Nat) (retval : Int)
  -- `mailboxAlloc`, `mailboxFree` or a call that fails at once returns
  | ended (tid retval : Int)
  deriving DecidableEq

structure Mail (c : Config) (n : Nat) (Q : Type) where
  kernel : Kernel c Q
  mboxtab : Nat → Mbox
  mboxtabsem : Nat
  -- the static variable of `mailboxAlloc`
  nextmbx : Nat
  frames : Int → Option Mframe
  -- latest event first
  log : List MailEvent

inductive MailAct
  | kernel (x : Act)
  | mailboxAlloc (count : UInt32)
  | mailboxFree (box : Nat)
  | mailboxSend (box : Nat) (mailmsg : Int)
  | mailboxReceive (box : Nat)
  -- the current thread goes on with the mailbox function it is in
  | go
  deriving DecidableEq

def msgsSize (count : Nat) : Nat := 4 * count % WORD

namespace Mail
variable {c : Config} {n : Nat} {Q : Type} (m : Mail c n Q)

abbrev current : Int := m.kernel.thrcurrent

def setFrame (f : Option Mframe) : Mail c n Q := { m with frames := Function.update m.frames m.current f }
def setMbox (box : Nat) (b : Mbox) : Mail c n Q := { m with mboxtab := Function.update m.mboxtab box b }
def emit (e : MailEvent) : Mail c n Q := { m with log := e :: m.log }

variable [Queues Q]

/-- Call a kernel function and go on with `f` when it returns. -/
def call (call : Call) (f : Option Mframe) : Option (Mail c n Q) :=
  (Kernel.step (.call call) m.kernel).map fun kernel => { m.setFrame f with kernel }

/-- Call a function of a semaphore, which does nothing for `SYSERR`. -/
def callSem (sem : Option Nat) (op : Nat → Call) (f : Option Mframe) : Option (Mail c n Q) :=
  match sem with
  | none => some (m.setFrame f)
  | some s => m.call (op s) f

def mailboxSend (box : Nat) (mailmsg : Int) : Option (Mail c n Q) :=
  if box < n ∧ (m.mboxtab box).state = .alloc then
    (m.emit (.began m.current box)).callSem (m.mboxtab box).sender .wait (some (.send box mailmsg))
  else some (m.emit (.ended m.current SYSERR))

def mailboxReceive (box : Nat) : Option (Mail c n Q) :=
  if box < n ∧ (m.mboxtab box).state = .alloc then
    (m.emit (.began m.current box)).callSem (m.mboxtab box).receiver .wait (some (.receive box))
  else some (m.emit (.ended m.current SYSERR))

def sendWaited (box : Nat) (mailmsg : Int) : Option (Mail c n Q) :=
  let b := m.mboxtab box
  if b.state = .alloc then
    let b' : Mbox := { b with
      cells := Function.update b.cells (add32 b.start b.count % b.max) mailmsg
      count := add32 b.count 1 }
    ((m.setMbox box b').emit (.sent m.current box mailmsg OK)).callSem b.receiver .signal none
  else some ((m.emit (.refused m.current box SYSERR)).setFrame none)

def receiveWaited (box : Nat) : Option (Mail c n Q) :=
  let b := m.mboxtab box
  if b.state = .alloc then
    let b' : Mbox := { b with start := add32 b.start 1 % b.max, count := sub32 b.count 1 }
    ((m.setMbox box b').emit (.received m.current box (b.cells b.start))).callSem b.sender .signal none
  else some ((m.emit (.refused m.current box SYSERR)).setFrame none)

/-- The scan of `mailboxAlloc` and its `memget`. -/
def allocScan (count : UInt32) : Option (Mail c n Q) :=
  let (i, found) := rotate n (fun j => (m.mboxtab j).state = .free) n m.nextmbx
  let m := { m with nextmbx := i }
  match found with
  | none => some (m.setFrame (some (.tabDone SYSERR)))
  | some box =>
      match m.kernel.heap.memget (msgsSize count.toNat) with
      | none => none
      | some (_, none) =>
          some ((m.setMbox box { m.mboxtab box with msgs := WORD - 1 }).setFrame (some (.tabDone SYSERR)))
      | some (heap, some msgs) =>
          let m := { m with kernel := { m.kernel with heap } }
          some ((m.setMbox box { m.mboxtab box with msgs }).setFrame (some (.allocMemory box count)))

def allocSender (box : Nat) (count : UInt32) : Option (Mail c n Q) :=
  let sem := (m.kernel.semcreate (Int32.ofUInt32 count).toInt).2
  let b : Mbox := { m.mboxtab box with count := 0, start := 0, max := count.toNat, sender := sem }
  (m.setMbox box b).call (.semcreate (Int32.ofUInt32 count).toInt) (some (.allocSender box))

def allocReceiver (box : Nat) : Option (Mail c n Q) :=
  let sem := (m.kernel.semcreate 0).2
  (m.setMbox box { m.mboxtab box with receiver := sem }).call (.semcreate 0) (some (.allocReceiver box))

def freeMsgs (box : Nat) (f : Mframe) : Option (Mail c n Q) :=
  match m.kernel.heap.memfree (m.mboxtab box).msgs (msgsSize (m.mboxtab box).max) with
  | none => none
  | some (heap, _) => some ({ m with kernel := { m.kernel with heap } }.setFrame (some f))

def allocCheck (box : Nat) : Option (Mail c n Q) :=
  let b := m.mboxtab box
  if b.sender = none ∨ b.receiver = none then m.freeMsgs box (.undoSender box)
  else some (((m.setMbox box { b with state := .alloc }).emit (.allocated box)).setFrame
    (some (.tabDone box)))

def freeMark (box : Nat) : Option (Mail c n Q) :=
  let b := m.mboxtab box
  if b.state = .alloc then
    some (((m.setMbox box { b with state := .free }).emit (.freed box)).setFrame (some (.freeSender box)))
  else some (m.setFrame (some (.tabDone SYSERR)))

def goOn : Mframe → Option (Mail c n Q)
  | .send box mailmsg => m.sendWaited box mailmsg
  | .receive box => m.receiveWaited box
  | .alloc count => m.allocScan count
  | .allocMemory box count => m.allocSender box count
  | .allocSender box => m.allocReceiver box
  | .allocReceiver box => m.allocCheck box
  | .undoSender box => m.callSem (m.mboxtab box).sender .semfree (some (.undoReceiver box))
  | .undoReceiver box => m.callSem (m.mboxtab box).receiver .semfree (some (.tabDone SYSERR))
  | .free box => m.freeMark box
  | .freeSender box => m.callSem (m.mboxtab box).sender .semfree (some (.freeReceiver box))
  | .freeReceiver box => m.callSem (m.mboxtab box).receiver .semfree (some (.freeMemory box))
  | .freeMemory box => m.freeMsgs box (.tabDone OK)
  | .tabDone retval => (m.emit (.ended m.current retval)).call (.signal m.mboxtabsem) none

/-- A thread inside a mailbox function makes no other calls, and is interrupted only where it can be. -/
def permits : Act → Bool
  | .call _ => (m.frames m.current).isNone
  | .tick => (m.frames m.current).all Mframe.interruptible
  | .cont => true

def step (a : MailAct) (m : Mail c n Q) : Option (Mail c n Q) :=
  match a with
  | .kernel x =>
      if m.permits x then (Kernel.step x m.kernel).map fun kernel => { m with kernel } else none
  | a =>
      if m.kernel.stack m.current = [] then
        match a, m.frames m.current with
        | .mailboxAlloc count, none => m.call (.wait m.mboxtabsem) (some (.alloc count))
        | .mailboxFree box, none =>
            if box < n then m.call (.wait m.mboxtabsem) (some (.free box))
            else some (m.emit (.ended m.current SYSERR))
        | .mailboxSend box mailmsg, none => m.mailboxSend box mailmsg
        | .mailboxReceive box, none => m.mailboxReceive box
        | .go, some f => m.goOn f
        | _, _ => none
      else none

end Mail

def bootMail (c : Config) (n : Nat) (p : Platform) : Mail c n (Quetab c) where
  kernel := ((boot c p).semcreate 1).1
  mboxtab _ := ⟨some 0, some 0, 0, 0, 0, .free, 0, fun _ => 0⟩
  mboxtabsem := ((boot c p).semcreate 1).2.getD (WORD - 1)
  nextmbx := 0
  frames _ := none
  log := []

end Xinu
