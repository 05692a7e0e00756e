import Xinu.Lib.Best
import Xinu.System.Raw
import Xinu.System.TcpInput
import Xinu.System.Udp

namespace Xinu
open Lib (FirstBest rankOf)

/-- 3 for the four addresses of a connection, 2 for both ports, 1 for the local port alone. -/
def tcpLevel (dstpt srcpt : Nat) (dstip srcip : Netaddr) (tcb : Socket) : Nat :=
  if tcb.isOpen = true ∧ tcb.localpt = dstpt ∧ tcb.localip = dstip then
    if tcb.remotept = srcpt ∧ tcb.remoteip = srcip then 3
    else if tcb.remotept = srcpt ∧ tcb.remoteip.type = 0 then 2
    else if tcb.remotept = 0 ∧ tcb.remoteip.type = 0 then 1
    else 0
  else 0

def udpLevel (dstpt srcpt : Nat) (dstip srcip : Netaddr) (u : Udp) : Nat :=
  if u.state ≠ .free ∧ u.localpt = dstpt ∧ u.localip = dstip then
    if u.remotept = srcpt ∧ u.remoteip = srcip then 3
    else if u.remotept = srcpt ∧ u.remoteip.type = 0 then 2
    else if u.remotept = 0 ∧ u.remoteip.type = 0 then 1
    else 0
  else 0

/-- 4 for the protocol and both addresses, 3 if one address is open, 2 if both are, 1 for a socket
that takes everything. -/
def rawMatch (src dst : Netaddr) (proto : Nat) (raw : Raw) : Nat :=
  if raw.alloc = true then
    if raw.proto = proto ∧ raw.remoteip = src ∧ raw.localip = dst then 4
    else if raw.proto = proto ∧ (raw.remoteip = src ∧ raw.localip.type = 0 ∨
      raw.localip = dst ∧ raw.remoteip.type = 0) then 3
    else if raw.proto = proto ∧ raw.remoteip.type = 0 ∧ raw.localip.type = 0 then 2
    else if raw.proto = 0 ∧ raw.remoteip.type = 0 ∧ raw.localip.type = 0 then 1
    else 0
  else 0

theorem matchLevel_max (dstpt srcpt : Nat) (dstip srcip : Netaddr) (level : Nat) (tcb : Socket) :
    matchLevel dstpt srcpt dstip srcip level tcb = max level (tcpLevel dstpt srcpt dstip srcip tcb) := by
  rw [matchLevel, tcpLevel]
  grind

theorem rawLevel_max (src dst : Netaddr) (proto level : Nat) (raw : Raw) :
    rawLevel src dst proto level raw = max level (rawMatch src dst proto raw) := by
  rw [rawLevel, rawMatch]
  grind

theorem udpLevel_le (dstpt srcpt : Nat) (dstip srcip : Netaddr) (u : Udp) :
    udpLevel dstpt srcpt dstip srcip u ≤ 3 := by
  rw [udpLevel]
  grind

theorem tcpDemuxFrom_eq (dstpt srcpt : Nat) (dstip srcip : Netaddr) (i level : Nat) (best : Option Nat)
    (tcptab : List Socket) : tcpDemuxFrom dstpt srcpt dstip srcip i level best tcptab =
      Lib.bestFrom (matchLevel dstpt srcpt dstip srcip) i level best tcptab := by
  induction tcptab generalizing i level best with
  | nil => rfl
  | cons tcb rest ih => exact ih _ _ _

theorem rawDemuxFrom_eq (src dst : Netaddr) (proto i level : Nat) (best : Option Nat) (rawtab : List Raw) :
    rawDemuxFrom src dst proto i level best rawtab = Lib.bestFrom (rawLevel src dst proto) i level best rawtab := by
  induction rawtab generalizing i level best with
  | nil => rfl
  | cons raw rest ih => exact ih _ _ _

theorem udpDemuxLoop_level {udptab : Nat → Udp} {dstpt srcpt : Nat} {dstip srcip : Netaddr} {i : Nat}
    {best : Match} {found : Option Nat} (fuel : Nat) :
    udpDemuxLoop udptab dstpt srcpt dstip srcip (fuel + 1) i best found =
      if best.rank < udpLevel dstpt srcpt dstip srcip (udptab i) then
        match udpLevel dstpt srcpt dstip srcip (udptab i) with
        | 3 => some i
        | 2 => udpDemuxLoop udptab dstpt srcpt dstip srcip fuel (i + 1) .part (some i)
        | _ => udpDemuxLoop udptab dstpt srcpt dstip srcip fuel (i + 1) .dest (some i)
      else udpDemuxLoop udptab dstpt srcpt dstip srcip fuel (i + 1) best found := by
  rw [udpDemuxLoop, udpLevel]
  cases best <;> simp only [Match.rank] <;> grind

theorem udpDemuxLoop_firstBest {udptab : Nat → Udp} {dstpt srcpt : Nat} {dstip srcip : Netaddr} {fuel i : Nat}
    {best : Match} {found : Option Nat}
    (first : FirstBest (fun j => udpLevel dstpt srcpt dstip srcip (udptab j)) i found)
    (level : best.rank = rankOf (fun j => udpLevel dstpt srcpt dstip srcip (udptab j)) found) :
    FirstBest (fun j => udpLevel dstpt srcpt dstip srcip (udptab j)) (i + fuel)
      (udpDemuxLoop udptab dstpt srcpt dstip srcip fuel i best found) := by
  induction fuel generalizing i best found with
  | zero => exact first
  | succ fuel ih =>
      have past : i + (fuel + 1) = i + 1 + fuel := by omega
      rw [udpDemuxLoop_level, past]
      split
      case isFalse worse =>
        apply ih (first.worse _) level
        rw [← level]
        exact Nat.le_of_not_lt worse
      case isTrue raised =>
        have better := first.better (level ▸ raised)
        have highest := udpLevel_le dstpt srcpt dstip srcip (udptab i)
        split
        case h_1 full =>
          apply better.stop (by omega)
          intro j
          simp only [full]
          exact udpLevel_le _ _ _ _ _
        case h_2 part => exact ih better part.symm
        case h_3 full part =>
          apply ih better
          show 1 = udpLevel dstpt srcpt dstip srcip (udptab i)
          have notFull : udpLevel dstpt srcpt dstip srcip (udptab i) ≠ 3 := full
          have notPart : udpLevel dstpt srcpt dstip srcip (udptab i) ≠ 2 := part
          omega

/-- The result is the first device of the highest level, and none if no device matches at all. -/
theorem demux_best (dstpt srcpt proto : Nat) (dst src : Netaddr) :
    (∀ tcptab : List Socket, FirstBest (Lib.tableRank (tcpLevel dstpt srcpt dst src) tcptab) tcptab.length
      (tcpDemux tcptab dstpt srcpt dst src)) ∧
    (∀ s : Udps, FirstBest (fun i => udpLevel dstpt srcpt dst src (s.udptab i)) s.nudp
      (udpDemux s dstpt srcpt dst src)) ∧
    ∀ rawtab : List Raw, FirstBest (Lib.tableRank (rawMatch src dst proto) rawtab) rawtab.length
      (rawDemux rawtab src dst proto) := by
  refine ⟨?_, ?_, ?_⟩
  · intro tcptab
    rw [tcpDemux, tcpDemuxFrom_eq]
    exact Lib.bestFrom_table (matchLevel_max dstpt srcpt dst src) tcptab
  · intro s
    have scan : FirstBest (fun j => udpLevel dstpt srcpt dst src (s.udptab j)) (0 + s.nudp)
        (udpDemuxLoop s.udptab dstpt srcpt dst src s.nudp 0 .no none) := udpDemuxLoop_firstBest (.empty _) rfl
    rwa [Nat.zero_add] at scan
  · intro rawtab
    rw [rawDemux, rawDemuxFrom_eq]
    exact Lib.bestFrom_table (rawLevel_max src dst proto) rawtab

end Xinu
