import Xinu.Proof.Network.Checksum

namespace Xinu
open Lib (Byte load store)

def inMemory (f : List Byte) : Int → Byte := store (fun _ => 0) 0 f

theorem inMemory_load {mem : Int → Byte} {a i : Int} {n : Nat} (lower : 0 ≤ i) (upper : i < n) :
    inMemory (load mem a n) i = mem (a + i) := by
  have within : 0 ≤ i ∧ i < 0 + (load mem a n).length := by
    rw [Lib.length_load]
    omega
  rw [inMemory, Lib.store_within within 0, Lib.getD_load (by omega)]
  congr 1
  omega

namespace Datagram

def froff (order : ByteOrder) (f : List Byte) : Nat := ipFlagsFroff order (inMemory f) 0 &&& IPv4_FROFF

def mf (order : ByteOrder) (f : List Byte) : Bool :=
  ipFlagsFroff order (inMemory f) 0 &&& IPv4_FLAG_MF ≠ 0

def payload (f : List Byte) : List Byte := f.drop (ipIhl (inMemory f) 0 * 4)

end Datagram

structure Fragmented (order : ByteOrder) (mtu : Nat) (datagram : List Byte)
    (fragments : List (List Byte)) : Prop where
  version : ∀ f ∈ fragments, (inMemory f 0).toNat / 16 = IPv4_VERSION
  length : ∀ f ∈ fragments, ipLen order (inMemory f) 0 = f.length
  fits : ∀ f ∈ fragments, f.length ≤ mtu
  verifies : ∀ f ∈ fragments, netChksum order (inMemory f) 0 (ipIhl (inMemory f) 0 * 4) = 0
  eights : ∀ f ∈ fragments.dropLast, 8 ∣ (Datagram.payload f).length
  tiled : (fragments.map Datagram.payload).flatten = Datagram.payload datagram
  -- each fragment is placed where those before it end
  placed : ∀ i < fragments.length,
    8 * Datagram.froff order (fragments.getD i []) =
      8 * Datagram.froff order datagram + ((fragments.take i).map Datagram.payload).flatten.length
  more : ∀ f ∈ fragments.dropLast, Datagram.mf order f
  last : ∀ f ∈ fragments.getLast?, Datagram.mf order f = Datagram.mf order datagram

theorem netSend_passed (net : Net) (pkt : Packet) (hwaddr : Option Netaddr) (praddr : Netaddr)
    (type : Nat) : (netSend net pkt hwaddr praddr type).2.1.passed = [pkt.bytes] := by
  simp only [netSend]
  split
  · rfl
  · split
    · rfl
    · split <;> rfl

variable {net : Net} {pkt : Packet}

def firstFragment (net : Net) (pkt : Packet) : Packet :=
  let ip := pkt.curr
  let ihl := ipIhl pkt.mem ip * 4
  let froff := ipFlagsFroff net.order pkt.mem ip &&& IPv4_FROFF
  let dLen := ((net.netiftab pkt.nif).mtu - ihl) / 8 * 8 % 2 ^ 16
  let mem := put16 net.order pkt.mem (ip + 2) (hs2net net.order (ihl + dLen))
  let mem := put16 net.order mem (ip + 6) (hs2net net.order (IPv4_FLAG_MF &&& froff))
  { pkt with mem := setChksum net.order mem ip ihl, len := ihl + dLen }

theorem ipv4SendFrag_passed (nxthop : Netaddr)
    (long : (net.netiftab pkt.nif).mtu < ipLen net.order pkt.mem pkt.curr)
    (df : ipFlagsFroff net.order pkt.mem pkt.curr &&& IPv4_FLAG_DF = 0) :
    ∃ rest, (ipv4SendFrag net pkt nxthop).1.passed = (firstFragment net pkt).bytes :: rest := by
  have passed := netSend_passed net (firstFragment net pkt) none nxthop ETHER_TYPE_IPv4
  simp only [ipv4SendFrag, if_neg (Nat.not_le.mpr long), df, ne_eq, not_true_eq_false, if_false]
  split
  · exact ⟨[], passed⟩
  · simp only [Traffic.add]
    rw [show ∀ l r : List (List Byte), l = [(firstFragment net pkt).bytes] →
      l ++ r = (firstFragment net pkt).bytes :: r by rintro l r rfl; rfl]
    · exact ⟨_, rfl⟩
    · exact passed

theorem flag_and_froff (flags : Nat) : IPv4_FLAG_MF &&& (flags &&& IPv4_FROFF) = 0 := by
  rw [Nat.and_comm flags, ← Nat.and_assoc]
  exact Nat.zero_and flags

theorem firstFragment_header (long : 20 ≤ (firstFragment net pkt).len) :
    ipIhl (inMemory (firstFragment net pkt).bytes) 0 = ipIhl pkt.mem pkt.curr ∧
      ipFlagsFroff net.order (inMemory (firstFragment net pkt).bytes) 0 = 0 := by
  have byte : ∀ i : Int, 0 ≤ i → i < 20 →
      inMemory (firstFragment net pkt).bytes i = (firstFragment net pkt).mem (pkt.curr + i) := by
    intro i lower upper
    exact inMemory_load lower (by omega)
  constructor
  · have kept : (firstFragment net pkt).mem pkt.curr = pkt.mem pkt.curr := by
      simp only [firstFragment]
      rw [setChksum_off (by omega) (by omega), put16_off (by omega) (by omega),
        put16_off (by omega) (by omega)]
    rw [ipIhl, byte 0 (by omega) (by omega), Int.add_zero, kept, ipIhl]
  · have field : get16 net.order (inMemory (firstFragment net pkt).bytes) (0 + 6) =
        get16 net.order (firstFragment net pkt).mem (pkt.curr + 6) := by
      apply get16_congr
      · exact byte 6 (by omega) (by omega)
      · rw [Int.add_assoc pkt.curr]
        exact byte 7 (by omega) (by omega)
    have kept : get16 net.order (firstFragment net pkt).mem (pkt.curr + 6) =
        get16 net.order (put16 net.order (put16 net.order pkt.mem (pkt.curr + 2)
          (hs2net net.order (firstFragment net pkt).len)) (pkt.curr + 6) (hs2net net.order 0))
          (pkt.curr + 6) := by
      rw [firstFragment]
      simp only [flag_and_froff]
      exact get16_congr (setChksum_off (by omega) (by omega)) (setChksum_off (by omega) (by omega))
    rw [ipFlagsFroff, field, kept, net2hs_put16 (by decide)]

theorem ipLen_lt {order : ByteOrder} {mem : Int → Byte} {ip : Int} : ipLen order mem ip < 65536 :=
  hs2net_lt get16_lt

/-- No datagram that is longer than the MTU and may be fragmented is. -/
theorem ipv4SendFrag_not_fragmented (nxthop : Netaddr)
    (ihl : IPv4_MIN_IHL ≤ ipIhl pkt.mem pkt.curr)
    (mtu : 68 ≤ (net.netiftab pkt.nif).mtu)
    (long : (net.netiftab pkt.nif).mtu < ipLen net.order pkt.mem pkt.curr)
    (df : ipFlagsFroff net.order pkt.mem pkt.curr &&& IPv4_FLAG_DF = 0) :
    ¬ Fragmented net.order (net.netiftab pkt.nif).mtu
      (load pkt.mem pkt.curr (ipLen net.order pkt.mem pkt.curr))
      (ipv4SendFrag net pkt nxthop).1.passed := by
  intro fragmented
  obtain ⟨rest, passed⟩ := ipv4SendFrag_passed nxthop long df
  rw [passed] at fragmented
  have small : ipIhl pkt.mem pkt.curr < 16 := Nat.mod_lt _ (by decide)
  have total : ipLen net.order pkt.mem pkt.curr < 65536 := ipLen_lt
  have len : (firstFragment net pkt).len =
      ipIhl pkt.mem pkt.curr * 4 +
        ((net.netiftab pkt.nif).mtu - ipIhl pkt.mem pkt.curr * 4) / 8 * 8 % 2 ^ 16 := rfl
  rw [IPv4_MIN_IHL] at ihl
  obtain ⟨header, flags⟩ := firstFragment_header (show 20 ≤ (firstFragment net pkt).len by omega)
  cases rest with
  | nil =>
      -- the datagram does not fit into one fragment
      have tiled := congrArg List.length fragmented.tiled
      have datagram : ipIhl (inMemory (load pkt.mem pkt.curr (ipLen net.order pkt.mem pkt.curr))) 0 =
          ipIhl pkt.mem pkt.curr := by
        rw [ipIhl, inMemory_load (by omega) (by omega), Int.add_zero, ipIhl]
      simp only [List.map_cons, List.map_nil, List.flatten_cons, List.flatten_nil, List.append_nil,
        Datagram.payload, List.length_drop, header, datagram, Lib.length_load] at tiled
      rw [Packet.bytes, Lib.length_load] at tiled
      omega
  | cons second rest =>
      have more := fragmented.more _ (List.mem_cons_self ..)
      rw [Datagram.mf, flags] at more
      exact absurd more (by decide)

def narrow : Net where
  order := .little
  netiftab _ :=
    { up := true
      mtu := 68
      linkhdrlen := ETH_HDR_LEN
      ip := { type := ETHER_TYPE_IPv4, addr := [10, 0, 0, 1] }
      ipbrc := { type := ETHER_TYPE_IPv4, addr := [10, 0, 0, 255] }
      hwaddr := { type := 1, addr := [2, 0, 0, 0, 0, 1] } }
  nnetif := 1
  rttab := []
  arp _ _ := some { type := 1, addr := [2, 0, 0, 0, 0, 2] }
  writes _ _ := true
  getbuf := true

def oversize : Packet where
  nif := 0
  len := 100
  nethdr := 14
  curr := 14
  mem := setChksum .little (store (fun _ => 7) 14
    [0x45, 0, 0, 100, 0, 1, 0, 0, 64, 17, 0, 0, 10, 0, 0, 1, 10, 0, 0, 2]) 14 20

theorem oversize_not_fragmented :
    IPv4_MIN_IHL ≤ ipIhl oversize.mem oversize.curr ∧ 68 ≤ (narrow.netiftab oversize.nif).mtu ∧
      (narrow.netiftab oversize.nif).mtu < ipLen narrow.order oversize.mem oversize.curr ∧
      ipFlagsFroff narrow.order oversize.mem oversize.curr &&& IPv4_FLAG_DF = 0 ∧
      ¬ Fragmented narrow.order (narrow.netiftab oversize.nif).mtu
        (load oversize.mem oversize.curr (ipLen narrow.order oversize.mem oversize.curr))
        (ipv4SendFrag narrow oversize NETADDR_GLOBAL_ETH_BRC).1.passed :=
  ⟨by decide, by decide, by decide +kernel, by decide +kernel,
    ipv4SendFrag_not_fragmented NETADDR_GLOBAL_ETH_BRC (by decide) (by decide) (by decide +kernel)
      (by decide +kernel)⟩

theorem oversize_first_mf :
    ¬ Fragmented narrow.order (narrow.netiftab oversize.nif).mtu
        (load oversize.mem oversize.curr (ipLen narrow.order oversize.mem oversize.curr))
        (ipv4SendFrag narrow oversize NETADDR_GLOBAL_ETH_BRC).1.passed := by
  intro fragmented
  have more : ∀ f ∈ (ipv4SendFrag narrow oversize NETADDR_GLOBAL_ETH_BRC).1.passed.dropLast,
      Datagram.mf narrow.order f = true := fragmented.more
  exact absurd more (by decide +kernel)

end Xinu
