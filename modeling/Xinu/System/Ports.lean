import Xinu.System.TcpInput
import Xinu.System.Udp

namespace Xinu

abbrev TCP_PSTART : Nat := 10000
abbrev TCP_PMAX : Nat := 65000
abbrev UDP_PSTART : Nat := 10000
abbrev UDP_PMAX : Nat := 65000
abbrev UDP_PORT_TRACEROUTE : Nat := 33434

/-- The loop from device `i` on. `i = 0` is followed by `i++`. -/
def allocPortLoop (taken : Nat → Nat → Bool) (ndev range : Nat) : Nat → Nat → Nat → Option Nat
  | 0, _, _ => none
  | fuel + 1, i, nextport =>
      if i < ndev then
        if taken i nextport then allocPortLoop taken ndev range fuel (0 + 1) ((nextport + 1) % range)
        else allocPortLoop taken ndev range fuel (i + 1) nextport
      else some nextport

/-- How often the loop is run for every port. -/
def allocPortFuel (ndev range : Nat) : Nat := (range + 2) * (ndev + 1)

def allocPort (taken : Nat → Nat → Bool) (ndev pstart pmax nextport : Nat) : Option (Nat × Nat) :=
  let range := pmax - pstart
  (allocPortLoop taken ndev range (allocPortFuel ndev range) 0 ((nextport + 1) % range)).map
    fun nextport => (nextport, nextport + pstart)

def tcpTaken (tcptab : List Socket) (i nextport : Nat) : Bool :=
  match tcptab[i]? with
  | none => false
  | some tcb => tcb.isOpen && tcb.localpt == nextport + TCP_PSTART

def tcpAllocPort (tcptab : List Socket) (nextport : Nat) : Option (Nat × Nat) :=
  allocPort (tcpTaken tcptab) tcptab.length TCP_PSTART TCP_PMAX nextport

def udpTaken (s : Udps) (i nextport : Nat) : Bool :=
  (s.udptab i).localpt == nextport + UDP_PSTART || UDP_PORT_TRACEROUTE == nextport + UDP_PSTART

def udpAllocPort (s : Udps) (nextport : Nat) : Option (Nat × Nat) :=
  allocPort (udpTaken s) s.nudp UDP_PSTART UDP_PMAX nextport

end Xinu
