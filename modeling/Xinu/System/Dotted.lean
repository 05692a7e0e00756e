import Xinu.System.Ipv4
import Xinu.System.Scanf

namespace Xinu
open Lib (Byte)

abbrev NETADDR_ETHERNET : Nat := 1
abbrev NETADDR_IPv4 : Nat := ETHER_TYPE_IPv4

def ascii (s : String) : List Byte := s.toList.map chr

def netaddrsprintf (addr : Netaddr) : List Byte :=
  let octet (i : Nat) : Printf.Arg := .int ((addr.addr.getD i 0).zeroExtend 32)
  if addr.type = NETADDR_ETHERNET then
    (Printf.sprintf (ascii "%02X:%02X:%02X:%02X:%02X:%02X") [octet 0, octet 1, octet 2, octet 3, octet 4, octet 5]).1
  else if addr.type = NETADDR_IPv4 then (Printf.sprintf (ascii "%d.%d.%d.%d") [octet 0, octet 1, octet 2, octet 3]).1
  else if addr.type = 0 then (Printf.sprintf (ascii "NULL") []).1
  else (Printf.sprintf (ascii "ERROR") []).1

def scanned : List Scanf.Stored → Option (BitVec 32 × BitVec 32 × BitVec 32 × BitVec 32)
  | [.number _ o0, .number _ o1, .number _ o2, .number _ o3] => some (o0, o1, o2, o3)
  | _ => none

/-- What `dot2ipv4` leaves in `ip`, and what it returns. -/
def dot2ipv4 (str : Option (List Byte)) (ip : Option Netaddr) : Option Netaddr × Int :=
  match str, ip with
  | some str, some ip =>
      let scan := Scanf.sscanf str (ascii "%3u.%3u.%3u.%3u%c")
      if scan.ret ≠ 4 then (some ip, SYSERR)
      else
        match scanned scan.stored with
        | none => (some ip, SYSERR)
        | some (o0, o1, o2, o3) =>
            if o0.toNat > 0xff ∨ o1.toNat > 0xff ∨ o2.toNat > 0xff ∨ o3.toNat > 0xff then (some ip, SYSERR)
            else
              (some ⟨NETADDR_IPv4, [o0.truncate 8, o1.truncate 8, o2.truncate 8, o3.truncate 8], Netaddr.ipv4_fits⟩, OK)
  | _, ip => (ip, SYSERR)

end Xinu
