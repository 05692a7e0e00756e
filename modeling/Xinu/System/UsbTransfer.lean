import Xinu.Lib.Runs

/-!
# USB transfers

`usb_alloc_device`, `usb_submit_xfer_request`, `usb_complete_xfer` and `usb_free_device` on one device, with the message
slot of the thread that detaches it. Interrupts are disabled in a step. What the host controller works on and whether it
takes a request is given.
-/

namespace Xinu.Usb

inductive DeviceState
  | attached | detachmentPending
  deriving DecidableEq, Repr

/-- Where a thread is in `usb_free_device`: not there, in `receive`, or at `unbind_device`. -/
inductive Freeing
  | outside | receiving | unbinding
  deriving DecidableEq, Repr

structure Device where
  inuse : Bool
  state : DeviceState
  xfer_pending_count : Nat
  -- whether it is the thread
  quiescent_state_waiter : Bool
  freeing : Freeing
  -- whether the thread has a message
  msg : Bool
  -- requests that have been tested and not been submitted
  checked : List Nat
  -- requests that the host controller has
  pending : List Nat
  /-- What has been accepted, and the completion functions that have been called, which the code does not keep. -/
  accepted : List Nat
  completed : List Nat
  deriving DecidableEq, Repr

namespace Device

def boot : Device where
  inuse := false
  state := .attached
  xfer_pending_count := 0
  quiescent_state_waiter := false
  freeing := .outside
  msg := false
  checked := []
  pending := []
  accepted := []
  completed := []

inductive Op
  | usb_alloc_device
  -- the test of `inuse` in `usb_submit_xfer_request`, and the rest of it
  | check (req : Nat)
  | submit (req : Nat) (takes : Bool)
  | usb_complete_xfer (req : Nat)
  -- `usb_free_device` as far as `receive`, behind it, and its end
  | free
  | receive
  | release
  -- a message from elsewhere
  | send
  deriving DecidableEq, Repr

def usb_alloc_device (d : Device) : Device :=
  { d with inuse := true, state := .attached, xfer_pending_count := 0, quiescent_state_waiter := false }

def submit (req : Nat) (takes : Bool) (d : Device) : Device :=
  let d := { d with checked := d.checked.erase req }
  if d.state = .detachmentPending then d
  else
    let d := { d with xfer_pending_count := d.xfer_pending_count + 1 }
    if takes then { d with pending := d.pending ++ [req], accepted := d.accepted ++ [req] }
    else { d with xfer_pending_count := d.xfer_pending_count - 1 }

def usb_complete_xfer (req : Nat) (d : Device) : Device :=
  let d := { d with pending := d.pending.erase req, xfer_pending_count := d.xfer_pending_count - 1 }
  let d := { d with completed := d.completed ++ [req] }
  if d.state = .detachmentPending ∧ d.xfer_pending_count = 0 then
    -- `send` to `BADTID` fails
    { d with msg := d.msg || d.quiescent_state_waiter }
  else d

def free (d : Device) : Device :=
  let d := { d with state := .detachmentPending }
  if d.xfer_pending_count ≠ 0 then { d with quiescent_state_waiter := true, freeing := .receiving }
  else { d with freeing := .unbinding }

def step : Op → Device → Option Device
  | .usb_alloc_device, d => if d.inuse then none else some d.usb_alloc_device
  | .check req, d => if d.inuse then some { d with checked := d.checked ++ [req] } else none
  | .submit req takes, d => if req ∈ d.checked then some (d.submit req takes) else none
  | .usb_complete_xfer req, d => if req ∈ d.pending then some (d.usb_complete_xfer req) else none
  | .free, d => if d.inuse ∧ d.freeing = .outside then some d.free else none
  | .receive, d =>
      if d.freeing = .receiving ∧ d.msg then some { d with msg := false, freeing := .unbinding } else none
  | .release, d => if d.freeing = .unbinding then some { d with inuse := false, freeing := .outside } else none
  | .send, d => some { d with msg := true }

end Device

end Xinu.Usb
