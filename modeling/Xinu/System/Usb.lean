import Xinu.Lib.Bytes

/-!
# USB configuration descriptors

`usb_read_configuration_descriptor`. A pointer into the buffer of the configuration descriptor is an offset. What the
control messages leave in the buffers and what they return is given, and so is whether there is memory.
-/

namespace Xinu.Usb
open Lib (Byte)

abbrev USB_DEVICE_MAX_INTERFACES : Nat := 8
abbrev USB_DEVICE_MAX_ENDPOINTS : Nat := 8
abbrev USB_DESCRIPTOR_TYPE_INTERFACE : Nat := 4
abbrev USB_DESCRIPTOR_TYPE_ENDPOINT : Nat := 5

abbrev HEADER_SIZE : Nat := 2
abbrev INTERFACE_SIZE : Nat := 9
abbrev ENDPOINT_SIZE : Nat := 7

inductive Status
  | success
  | deviceDetached
  | deviceUnsupported
  | hardwareError
  | invalidData
  | invalidParameter
  | notProcessed
  | outOfMemory
  | timeout
  | unsupportedRequest
  deriving DecidableEq, Repr

section
variable (config : Nat → Byte)

def bLength (i : Nat) : Nat := (config i).toNat
def bDescriptorType (i : Nat) : Nat := (config (i + 1)).toNat
def bAlternateSetting (i : Nat) : Nat := (config (i + 3)).toNat
def bNumEndpoints (i : Nat) : Nat := (config (i + 4)).toNat
def wTotalLength : Nat := (config 2).toNat + 256 * (config 3).toNat
def bNumInterfaces : Nat := (config 4).toNat

end

structure Tables where
  interfaces : Nat → Option Nat
  endpoints : Nat → Nat → Option Nat

structure Walk where
  interface_idx : Int
  endpoint_idx : Int
  in_alternate_setting : Bool
  dev : Tables

section
variable (config : Nat → Byte) (total : Nat)

/-- The number of endpoints of the interface that ends is not the one that it has announced. -/
def miscounted (w : Walk) : Bool :=
  0 ≤ w.interface_idx ∧ ¬ w.in_alternate_setting ∧
    w.endpoint_idx + 1 ≠ ((w.dev.interfaces w.interface_idx.toNat).elim 0 (bNumEndpoints config) : Nat)

def interfaceDescriptor (i : Nat) (w : Walk) : Except Status Walk :=
  if i + INTERFACE_SIZE > total then .error .invalidData
  else if miscounted config w then .error .invalidData
  else if bAlternateSetting config i ≠ 0 then .ok { w with in_alternate_setting := true }
  else
    let interface_idx := w.interface_idx + 1
    if interface_idx ≥ USB_DEVICE_MAX_INTERFACES then .error .deviceUnsupported
    else
      .ok
        { interface_idx
          endpoint_idx := -1
          in_alternate_setting := false
          dev := { w.dev with interfaces := Function.update w.dev.interfaces interface_idx.toNat (some i) } }

def endpointDescriptor (i : Nat) (w : Walk) : Except Status Walk :=
  if w.interface_idx < 0 then .error .invalidData
  else if i + ENDPOINT_SIZE > total then .error .invalidData
  else if w.in_alternate_setting then .ok w
  else
    let endpoint_idx := w.endpoint_idx + 1
    if endpoint_idx ≥ USB_DEVICE_MAX_ENDPOINTS then .error .deviceUnsupported
    else
      let row := w.dev.endpoints w.interface_idx.toNat
      .ok
        { w with
          endpoint_idx
          dev :=
            { w.dev with
              endpoints := Function.update w.dev.endpoints w.interface_idx.toNat
                (Function.update row endpoint_idx.toNat (some i)) } }

def descriptor (i : Nat) (w : Walk) : Except Status Walk :=
  if bDescriptorType config i = USB_DESCRIPTOR_TYPE_INTERFACE then interfaceDescriptor config total i w
  else if bDescriptorType config i = USB_DESCRIPTOR_TYPE_ENDPOINT then endpointDescriptor total i w
  else .ok w

/-- The loop over the descriptors, each of which is two bytes long at least. With an error comes what has been stored. -/
def descriptors : Nat → Nat → Walk → Status × Walk
  | 0, _, w => (.success, w)
  | fuel + 1, i, w =>
      if i + HEADER_SIZE ≤ total then
        if bLength config i < HEADER_SIZE then (.invalidData, w)
        else
          match descriptor config total i w with
          | .error status => (status, w)
          | .ok w => descriptors fuel (i + bLength config i) w
      else (.success, w)

def parse (dev : Tables) : Status × Tables :=
  let (status, w) := descriptors config total total 0 ⟨-1, -1, false, dev⟩
  if status ≠ .success then (status, w.dev)
  else if w.interface_idx + 1 ≠ bNumInterfaces config then (.invalidData, w.dev)
  else (.success, w.dev)

end

/-- `first` is what the control message for the descriptor itself gives, and `second` the one for the whole buffer,
whose bytes were `held` before. -/
def usb_read_configuration_descriptor (first second : Status × (Nat → Byte)) (memory : Bool) (dev : Tables) :
    Status × Tables :=
  if first.1 ≠ .success then (first.1, dev)
  else
    let total := wTotalLength first.2
    -- `memget(0)` fails
    if total = 0 ∨ ¬ memory then (.outOfMemory, dev)
    else if second.1 ≠ .success then (second.1, dev)
    else parse second.2 total dev

end Xinu.Usb
