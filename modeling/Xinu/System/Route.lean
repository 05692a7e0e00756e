import Xinu.System.Ipv4

/-!
# The routing table

`rtInit.c`, `rtAlloc.c`, `rtAdd.c`, `rtDefault.c`, `rtRemove.c` and `rtClear.c`. A null pointer is
`none`. No call is interrupted between `rtAlloc` and the entry that it fills in, so no entry stays
pending.
-/

namespace Xinu

abbrev RT_NENTRY : Nat := 32

def Netaddr.none : Netaddr := { type := 0, addr := [], bound := empty_fits }

def RtEntry.free : RtEntry :=
  { used := false, masklen := 0, dst := .none, gateway := .none, mask := .none, nif := 0 }

abbrev RtResult := List RtEntry × Int

def rtInit : List RtEntry := List.replicate RT_NENTRY .free

def rtAlloc (rttab : List RtEntry) : Option Nat := rttab.findIdx? fun entry => !entry.used

def octetLength : Nat → Nat → Nat
  | 0, _ => 0
  | fuel + 1, octet => if 0 < octet then octet % 2 + octetLength fuel (octet / 2) else 0

def maskLength (mask : Netaddr) : Nat := (mask.addr.map fun octet => octetLength 8 octet.toNat).sum

def rtAdd (rttab : List RtEntry) (dst gate mask : Option Netaddr) (nif : Option Nat) : RtResult :=
  match dst, mask, nif with
  | some dst, some mask, some nif =>
      match rtAlloc rttab with
      | none => (rttab, SYSERR)
      | some i =>
          let old := rttab.getD i .free
          (rttab.set i
            { used := true, masklen := maskLength mask, dst := netaddrmask dst mask
              gateway := gate.getD { old.gateway with type := 0 }, mask, nif }, OK)
  | _, _, _ => (rttab, SYSERR)

def rtDefault (rttab : List RtEntry) (gate : Option Netaddr) (nif : Option Nat) : RtResult :=
  match gate, nif with
  | some gate, some nif =>
      let mask : Netaddr :=
        { type := gate.type, addr := List.replicate gate.addr.length 0
          bound := gate.replicate_fits }
      if rttab.any fun entry => entry.used && entry.mask == mask then (rttab, OK)
      else
        match rtAlloc rttab with
        | none => (rttab, SYSERR)
        | some i => (rttab.set i { used := true, masklen := 0, dst := mask, gateway := gate, mask, nif }, OK)
  | _, _ => (rttab, SYSERR)

def rtFree (rttab : List RtEntry) (drops : RtEntry → Bool) : List RtEntry :=
  rttab.map fun entry => if entry.used && drops entry then { entry with used := false } else entry

def rtRemove (rttab : List RtEntry) (dst : Option Netaddr) : RtResult :=
  match dst with
  | none => (rttab, SYSERR)
  | some dst => (rtFree rttab fun entry => dst == entry.dst, OK)

def rtClear (rttab : List RtEntry) (nif : Option Nat) : RtResult :=
  match nif with
  | none => (rttab, SYSERR)
  | some nif => (rtFree rttab fun entry => nif == entry.nif, OK)

inductive RtCall
  | rtAdd (dst gate mask : Option Netaddr) (nif : Option Nat)
  | rtDefault (gate : Option Netaddr) (nif : Option Nat)
  | rtRemove (dst : Option Netaddr)
  | rtClear (nif : Option Nat)

def RtCall.result (rttab : List RtEntry) : RtCall → RtResult
  | .rtAdd dst gate mask nif => Xinu.rtAdd rttab dst gate mask nif
  | .rtDefault gate nif => Xinu.rtDefault rttab gate nif
  | .rtRemove dst => Xinu.rtRemove rttab dst
  | .rtClear nif => Xinu.rtClear rttab nif

/-- The result of a call is ignored. -/
def RtCall.step (call : RtCall) (rttab : List RtEntry) : Option (List RtEntry) := some (call.result rttab).1

end Xinu
