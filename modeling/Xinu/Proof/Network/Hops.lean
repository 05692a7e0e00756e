import Xinu.Proof.Network.Forwarding
import Xinu.System.TcpInput

namespace Xinu
open Lib (Byte load store)

def octet (frame : List Byte) (i : Nat) : Byte := inMemory frame (ETH_HDR_LEN + i : Nat)

def frameTtl (frame : List Byte) : Byte := octet frame 8

inductive Hop (frame frame' : List Byte) : Prop
  | through (net : Net) (nif : Nat) (padding : List Byte) (pkt : Packet) (nif' : Nat)
      (received : ipv4Recv net (netRecv net nif (frame ++ padding).length (inMemory (frame ++ padding))) = .rtRecv pkt)
      (fits : ∀ route, rtLookup net (ipAddr pkt.mem (pkt.nethdr + 16)) = some route →
        ipLen net.order pkt.mem pkt.nethdr ≤ (net.netiftab route.nif).mtu)
      (sent : (nif', frame') ∈ (rtSend net pkt).1.frames) : Hop frame frame'

/-- What a frame becomes after some hops. -/
inductive Hops : Nat → List Byte → List Byte → Prop
  | here (frame : List Byte) : Hops 0 frame frame
  | hop {n : Nat} {frame between frame' : List Byte} : Hops n frame between → Hop between frame' → Hops (n + 1) frame frame'

section
variable {net : Net} {pkt : Packet} {frame frame' : List Byte} {n : Nat}

theorem inMemory_getD (frame : List Byte) (i : Nat) : inMemory frame i = frame.getD i 0 := by
  by_cases within : i < frame.length
  · rw [inMemory, Lib.store_within (by omega) 0, Int.sub_zero, Int.toNat_natCast]
  · rw [inMemory, Lib.store_off (by omega), List.getD_eq_default _ _ (by omega)]

theorem ipv4Recv_rtRecv {frame : Packet} (received : ipv4Recv net frame = .rtRecv pkt) :
    pkt = { frame with nethdr := frame.curr } := by
  rw [ipv4Recv] at received
  by_cases valid : ipv4RecvValid net.order frame.mem frame.curr = true
  · simp only [valid, not_true_eq_false, if_false] at received
    by_cases ours : ipv4RecvDemux net (ipAddr frame.mem (frame.curr + 16)) = true
    · simp only [ours, not_true_eq_false, if_false] at received
      split at received
      · cases received
      · split at received
        · split at received
          · cases received
          · split at received
            · cases received
            · cases received
        · split at received
          · cases received
          · split at received
            · cases received
            · cases received
    · simpa [ours] using received.symm
  · simp [valid] at received

theorem rtSend_frame {nif : Nat} (curr : pkt.curr = pkt.nethdr)
    (fits : ∀ route, rtLookup net (ipAddr pkt.mem (pkt.nethdr + 16)) = some route →
      ipLen net.order pkt.mem pkt.nethdr ≤ (net.netiftab route.nif).mtu)
    (sent : (nif, frame) ∈ (rtSend net pkt).1.frames) :
    pkt.mem (pkt.nethdr + 8) ≠ 1 ∧
      ∃ route, frame.drop ETH_HDR_LEN = (routed net pkt route).bytes ∧ frame.length = ETH_HDR_LEN + pkt.len := by
  cases found : rtLookup net (ipAddr pkt.mem (pkt.nethdr + 16)) with
  | none =>
      rw [rtSend_no_route found] at sent
      cases sent
  | some route =>
      by_cases last : pkt.mem (pkt.nethdr + 8) = 1
      · obtain ⟨_, -, expired⟩ := rtSend_expired found last
        rw [expired] at sent
        cases sent
      · refine ⟨last, route, ?_⟩
        obtain ⟨frames, _⟩ := rtSend_routed found last
        rw [frames, ipv4SendFrag_routed curr (fits route found)] at sent
        cases sends : netSends net (routed net pkt route).nif (routed net pkt route).len (hopHwaddr net pkt.dst route)
            (nextHop pkt.dst route) with
        | false =>
            rw [(netSend_fails ETHER_TYPE_IPv4 sends).1] at sent
            cases sent
        | true =>
            obtain ⟨frame', traffic, _, packet, length⟩ := netSend_sends ETHER_TYPE_IPv4 sends
            rw [traffic] at sent
            obtain ⟨rfl, rfl⟩ := Prod.mk.inj (List.mem_singleton.mp sent)
            rw [(net.netiftab _).ethernet] at packet length
            exact ⟨packet, length⟩

theorem Hop.octets (hop : Hop frame frame') (header : 34 ≤ frame.length) :
    frame.length ≤ frame'.length ∧ frameTtl frame ≠ 1 ∧ frameTtl frame' = frameTtl frame - 1 ∧
      ∀ i, ETH_HDR_LEN + i < frame.length → i ≠ 8 → i ≠ 10 → i ≠ 11 → octet frame' i = octet frame i := by
  obtain ⟨net, nif, padding, pkt, nif', received, fits, sent⟩ := hop
  have whole := ipv4Recv_rtRecv received
  have nethdr : pkt.nethdr = (ETH_HDR_LEN : Nat) := by
    rw [whole]
    exact congrArg Int.ofNat (net.netiftab nif).ethernet
  have curr : pkt.curr = pkt.nethdr := by rw [whole]
  have len : pkt.len = (frame ++ padding).length := by
    rw [whole]
    rfl
  have mem : pkt.mem = inMemory (frame ++ padding) := by
    rw [whole]
    rfl
  obtain ⟨last, route, packet, length⟩ := rtSend_frame curr fits sent
  have longer : frame.length ≤ pkt.len := by
    rw [len, List.length_append]
    omega
  have old (i : Nat) (within : ETH_HDR_LEN + i < frame.length) : pkt.mem (pkt.nethdr + i) = octet frame i := by
    have place : pkt.nethdr + i = (ETH_HDR_LEN + i : Nat) := by
      rw [nethdr]
      omega
    rw [place, mem, octet, inMemory_getD, inMemory_getD, List.getD_append _ _ _ _ within]
  have new (i : Nat) (within : i < pkt.len) : octet frame' i = (routed net pkt route).mem (pkt.nethdr + i) := by
    have byte : frame'.getD (ETH_HDR_LEN + i) 0 = (frame'.drop ETH_HDR_LEN).getD i 0 := by
      rw [List.getD_eq_getElem?_getD, List.getD_eq_getElem?_getD, List.getElem?_drop]
    rw [octet, inMemory_getD, byte, packet, Packet.bytes]
    have place : (routed net pkt route).curr = pkt.nethdr := curr
    rw [place]
    exact Lib.getD_load within 0
  have eth : ETH_HDR_LEN = 14 := rfl
  have ttl := old 8 (by omega)
  refine ⟨by omega, ?_, ?_, fun i within first second third => ?_⟩
  · rw [frameTtl, ← ttl]
    exact last
  · rw [frameTtl, frameTtl, new 8 (by omega), ← ttl]
    exact routed_ttl
  · rw [new i (by omega), ← old i within]
    exact routed_off (by omega) (by omega) (by omega)

/-- A packet goes through 255 routers at most, each of which decreases its TTL, and it keeps its other bytes but for the
checksum. -/
theorem Hops.only_ttl (hops : Hops n frame frame') (header : 34 ≤ frame.length) :
    (∀ i, ETH_HDR_LEN + i < frame.length → i ≠ 8 → i ≠ 10 → i ≠ 11 → octet frame' i = octet frame i) ∧
      (0 < n → (frameTtl frame').toNat + n = if frameTtl frame = 0 then 256 else (frameTtl frame).toNat) ∧ n ≤ 255 := by
  have all : frame.length ≤ frame'.length ∧
      (∀ i, ETH_HDR_LEN + i < frame.length → i ≠ 8 → i ≠ 10 → i ≠ 11 → octet frame' i = octet frame i) ∧
      (n = 0 → frame' = frame) ∧
      (0 < n → 0 < (frameTtl frame').toNat ∧
        (frameTtl frame').toNat + n = if frameTtl frame = 0 then 256 else (frameTtl frame).toNat) := by
    induction hops with
    | here frame => exact ⟨Nat.le_refl _, fun _ _ _ _ _ => rfl, fun _ => rfl, fun h => absurd h (Nat.lt_irrefl 0)⟩
    | @hop n frame between frame' hops hop ih =>
        obtain ⟨longer, same, start, decreased⟩ := ih header
        obtain ⟨longer', last, ttl, same'⟩ := hop.octets (Nat.le_trans header longer)
        refine ⟨Nat.le_trans longer longer', fun i within a b c => ?_, fun h => absurd h (Nat.succ_ne_zero n), fun _ => ?_⟩
        · rw [same' i (Nat.lt_of_lt_of_le within longer) a b c, same i within a b c]
        · have before := (frameTtl between).isLt
          have alive : (frameTtl between).toNat ≠ 1 := fun one => last (BitVec.eq_of_toNat_eq one)
          have value : (frameTtl frame').toNat = ((frameTtl between).toNat + 255) % 256 := by
            rw [ttl, BitVec.toNat_sub, Nat.add_comm]
            rfl
          by_cases first : n = 0
          · subst first
            rw [start rfl] at before alive value
            by_cases zero : frameTtl frame = 0
            · rw [if_pos zero]
              rw [zero] at value
              exact ⟨by rw [value]; decide, by rw [value]; decide⟩
            · rw [if_neg zero]
              have positive : (frameTtl frame).toNat ≠ 0 := fun none => zero (BitVec.eq_of_toNat_eq none)
              omega
          · obtain ⟨positive, sum⟩ := decreased (Nat.pos_of_ne_zero first)
            omega
  obtain ⟨-, same, -, decreased⟩ := all
  refine ⟨same, fun some => (decreased some).2, ?_⟩
  by_contra many
  obtain ⟨positive, sum⟩ := decreased (by omega)
  have bound := (frameTtl frame).isLt
  split at sum
  · omega
  · omega

end

def onWire : List Byte := load transit.mem 0 42

def arrived : Packet := netRecv router 0 onWire.length (inMemory onWire)

theorem onWire_hop : ∃ frame, Hop onWire frame := by
  have received : ipv4Recv router arrived = .rtRecv { arrived with nethdr := arrived.curr } := by
    rw [ipv4Recv, if_neg (by decide +kernel), if_pos (by decide +kernel)]
  have sends : (rtSend router { arrived with nethdr := arrived.curr }).1.frames.length = 1 := by decide +kernel
  obtain ⟨⟨nif, frame⟩, sent⟩ := List.length_eq_one_iff.mp sends
  refine ⟨frame, .through router 0 [] { arrived with nethdr := arrived.curr } nif ?_ ?_ (sent ▸ List.mem_singleton_self _)⟩
  · rw [List.append_nil]
    exact received
  · intro route _
    exact show ipLen .little arrived.mem 14 ≤ 68 by decide +kernel

theorem onWire_octets : ∃ frame, Hops 1 onWire frame ∧ (frameTtl frame).toNat = 63 := by
  obtain ⟨frame, hop⟩ := onWire_hop
  have hops : Hops 1 onWire frame := .hop (.here onWire) hop
  obtain ⟨-, ttl, -⟩ := hops.only_ttl (by decide)
  have before : frameTtl onWire = 64 := by decide +kernel
  have after := ttl (by decide)
  rw [before, if_neg (by decide)] at after
  exact ⟨frame, hops, Nat.succ.inj after⟩

end Xinu
