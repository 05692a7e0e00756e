import Xinu.Proof.Network.Input
import Xinu.System.Udp

namespace Xinu
open Lib (Byte load store)

variable {order : ByteOrder} {mem mem' : Int → Byte} {a : Int} {len proto : Nat} {src dst : Netaddr}

def Netaddr.Ipv4 (addr : Netaddr) : Prop := addr.type = ETHER_TYPE_IPv4 ∧ addr.addr.length = IPv4_ADDR_LEN

theorem Netaddr.Ipv4.take {addr : Netaddr} (ipv4 : addr.Ipv4) : addr.addr.take IPv4_ADDR_LEN = addr.addr :=
  List.take_of_length_le (Nat.le_of_eq ipv4.2)

theorem ipAddr_of_load {addr : Netaddr} (ipv4 : addr.Ipv4) (holds : load mem a IPv4_ADDR_LEN = addr.addr) :
    ipAddr mem a = addr := by
  obtain ⟨type, bytes, bound⟩ := addr
  obtain ⟨rfl, -⟩ := ipv4
  subst holds
  rfl

structure Ipv4Fields (mem : Int → Byte) (a : Int) (len proto : Nat) (src dst : Netaddr) : Prop where
  version : mem a = 0x45
  len : load mem (a + 2) 2 = net16 len
  froff : load mem (a + 6) 2 = net16 0
  proto : mem (a + 9) = BitVec.ofNat 8 proto
  src : load mem (a + 12) IPv4_ADDR_LEN = src.addr
  dst : load mem (a + 16) IPv4_ADDR_LEN = dst.addr
  verifies : ∀ order, netChksum order mem a IPv4_HDR_LEN = 0

theorem setChksum_load {n : Nat} {b : Int} (apart : b + n ≤ a + 10 ∨ a + 12 ≤ b) :
    load (setChksum order mem a len) b n = load mem b n := by
  apply Lib.load_congr
  intro i lo hi
  exact setChksum_off (by omega) (by omega)

theorem ipv4Header_fields (order : ByteOrder) (mem : Int → Byte) (a : Int) (len proto : Nat) (hsrc : src.Ipv4)
    (hdst : dst.Ipv4) : Ipv4Fields (ipv4Header order mem a len proto src dst) a len proto src dst := by
  have srcLength := hsrc.2
  have dstLength := hdst.2
  rw [IPv4_ADDR_LEN] at srcLength dstLength
  rw [ipv4Header, putAddr, putAddr, hsrc.take, hdst.take, put16_net, put16_zero, put16_zero]
  generalize written : store (store (store _ _ _) _ _) (a + 16) dst.addr = header
  have version : header a = 0x45 := by
    rw [← written]
    repeat rw [Lib.store_before (by omega)]
    rw [Lib.store_within (by simp only [List.length_cons, List.length_nil]; omega) 0, Int.sub_self]
    rfl
  have proto : header (a + 9) = BitVec.ofNat 8 proto := by
    rw [← written]
    rw [Lib.store_before (by omega), Lib.store_before (by omega),
      Lib.store_within (by simp only [List.length_cons, List.length_nil]; omega) 0,
      show a + 9 - (a + 8) = 1 by omega]
    rfl
  constructor
  · rw [setChksum_off (by omega) (by omega)]
    exact version
  · rw [setChksum_load (by omega), ← written]
    repeat rw [Lib.load_store_apart (by simp; omega)]
    exact Lib.load_stored rfl
  · rw [setChksum_load (by omega), ← written]
    repeat rw [Lib.load_store_apart (by simp; omega)]
    exact Lib.load_stored rfl
  · rw [setChksum_off (by omega) (by omega)]
    exact proto
  · rw [setChksum_load (by simp), ← written, Lib.load_store_apart (by simp; omega)]
    exact Lib.load_stored srcLength
  · rw [setChksum_load (by omega), ← written]
    exact Lib.load_stored dstLength
  · intro order'
    apply (netChksum_order order' (by decide)).mp
    exact setChksum_verifies (by decide)

theorem ipv4Header_after {i : Int} (hsrc : src.Ipv4) (hdst : dst.Ipv4) (behind : a + 20 ≤ i) :
    ipv4Header order mem a len proto src dst i = mem i := by
  have srcLength := hsrc.2
  have dstLength := hdst.2
  rw [IPv4_ADDR_LEN] at srcLength dstLength
  rw [ipv4Header, putAddr, putAddr, hsrc.take, hdst.take, setChksum_off (by omega) (by omega),
    Lib.store_after (by omega), Lib.store_after (by omega), Lib.store_after (by simp; omega),
    put16_off (by omega) (by omega), put16_off (by omega) (by omega), put16_off (by omega) (by omega),
    Lib.store_after (by simp; omega)]

theorem Ipv4Fields.shift {b : Int} (fields : Ipv4Fields mem a len proto src dst)
    (same : ∀ i : Int, 0 ≤ i → i < 20 → mem' (b + i) = mem (a + i)) : Ipv4Fields mem' b len proto src dst := by
  have field {n : Nat} {bytes : List Byte} (k : Nat) (within : k + n ≤ 20) (holds : load mem (a + k) n = bytes) :
      load mem' (b + k) n = bytes := by
    rw [← holds]
    apply Lib.load_shift
    intro i lo hi
    rw [Int.add_assoc, Int.add_assoc]
    exact same (k + i) (by omega) (by omega)
  constructor
  · have := same 0 (by omega) (by omega)
    rw [Int.add_zero, Int.add_zero] at this
    rw [this, fields.version]
  · exact field 2 (by decide) fields.len
  · exact field 6 (by decide) fields.froff
  · rw [same 9 (by omega) (by omega), fields.proto]
  · exact field 12 (by decide) fields.src
  · exact field 16 (by decide) fields.dst
  · intro order
    rw [netChksum_shift same]
    exact fields.verifies order

structure UdpFields (mem : Int → Byte) (a : Int) (srcPort dstPort : Nat) (payload : List Byte) (src dst : Netaddr) :
    Prop where
  srcPort : load mem a 2 = net16 srcPort
  dstPort : load mem (a + 2) 2 = net16 dstPort
  len : load mem (a + 4) 2 = net16 (payload.length + UDP_HDR_LEN)
  data : load mem (a + UDP_HDR_LEN) payload.length = payload
  verifies : ∀ order, udpChksum order mem a (payload.length + UDP_HDR_LEN) src dst = 0

def udpSegment (srcPort dstPort : Nat) (data : List Byte) : List Byte :=
  net16 srcPort ++ net16 dstPort ++ net16 (data.length + UDP_HDR_LEN) ++ net16 0 ++ data

def pseudoBytes (src dst : Netaddr) (len : Nat) : List Byte :=
  src.addr ++ dst.addr ++ [0, BitVec.ofNat 8 IPv4_PROTO_UDP] ++ net16 len

theorem udpHeader_store (order : ByteOrder) (mem : Int → Byte) (a : Int) (srcPort dstPort : Nat)
    (data : List Byte) :
    store (udpHeader order mem a srcPort dstPort (data.length + UDP_HDR_LEN)) (a + UDP_HDR_LEN) data =
      store mem a (udpSegment srcPort dstPort data) := by
  rw [udpHeader, put16_net, put16_net, put16_net, put16_zero, udpSegment, ← Lib.store_append, ← Lib.store_append,
    ← Lib.store_append, ← Lib.store_append]
  rfl

theorem pseudoHdr_store (order : ByteOrder) (mem : Int → Byte) (a : Int) (len : Nat) (hsrc : src.Ipv4)
    (hdst : dst.Ipv4) : pseudoHdr order mem a (hs2net order len) src dst = store mem a (pseudoBytes src dst len) := by
  rw [pseudoHdr, put16_net, putAddr, putAddr, hsrc.take, hdst.take, pseudoBytes, ← Lib.store_append,
    ← Lib.store_append, ← Lib.store_append]
  simp only [List.length_append, hsrc.2, hdst.2]
  rfl

theorem length_pseudoBytes (hsrc : src.Ipv4) (hdst : dst.Ipv4) :
    (pseudoBytes src dst len).length = UDP_PSEUDO_LEN := by
  rw [pseudoBytes, List.length_append, List.length_append, List.length_append, hsrc.2, hdst.2]
  rfl

theorem udpChksum_shift {b : Int} (hsrc : src.Ipv4) (hdst : dst.Ipv4)
    (same : ∀ i : Int, 0 ≤ i → i < len → mem' (b + i) = mem (a + i)) :
    udpChksum order mem' b len src dst = udpChksum order mem a len src dst := by
  have length : (pseudoBytes src dst len).length = 12 := length_pseudoBytes hsrc hdst
  rw [udpChksum, udpChksum, pseudoHdr_store _ _ _ _ hsrc hdst, pseudoHdr_store _ _ _ _ hsrc hdst, UDP_PSEUDO_LEN]
  apply netChksum_shift
  intro i lo hi
  by_cases pseudo : i < 12
  · rw [Lib.store_within (by omega) 0, Lib.store_within (by omega) 0]
    congr 1
    omega
  · rw [Lib.store_off (by omega), Lib.store_off (by omega)]
    have byte := same (i - 12) (by omega) (by omega)
    rw [show b - (12 : Nat) + i = b + (i - 12) by omega, show a - (12 : Nat) + i = a + (i - 12) by omega]
    exact byte

theorem put16_comm {bytes : List Byte} {b : Int} {v : Nat} (apart : a + bytes.length ≤ b ∨ b + 2 ≤ a) :
    store (put16 order mem b v) a bytes = put16 order (store mem a bytes) b v := by
  cases order <;>
  · apply Lib.store_comm
    simp only [List.length_cons, List.length_nil]
    omega

theorem udpChksum_verifies {packet : Int → Byte} (order order' : ByteOrder) (hsrc : src.Ipv4) (hdst : dst.Ipv4)
    (header : UDP_HDR_LEN ≤ len) (bound : len + UDP_PSEUDO_LEN < 65536) (cleared : load packet (a + 6) 2 = net16 0) :
    udpChksum order' (put16 order packet (a + 6) (udpChksum order packet a len src dst)) a len src dst = 0 := by
  have length : (pseudoBytes src dst len).length = 12 := length_pseudoBytes hsrc hdst
  rw [UDP_HDR_LEN] at header
  rw [UDP_PSEUDO_LEN] at bound
  rw [udpChksum, udpChksum, pseudoHdr_store _ _ _ _ hsrc hdst, pseudoHdr_store _ _ _ _ hsrc hdst,
    put16_comm (by rw [length, UDP_PSEUDO_LEN]; omega), UDP_PSEUDO_LEN]
  generalize pseudoBytes src dst len = pseudo at *
  apply (@netChksum_order order _ _ _ order' (by omega)).mp
  have place : a + 6 = a - (12 : Nat) + 2 * (9 : Nat) := by omega
  rw [place]
  apply stored_verifies (by omega)
  rw [← place]
  rw [Lib.load_two, net16] at cleared
  simp only [List.cons.injEq, and_true] at cleared
  have byte : (BitVec.ofNat 8 0).toNat = 0 := rfl
  rw [← get16_congr (Lib.store_after (by omega)).symm (Lib.store_after (by omega)).symm]
  cases order <;> simp only [get16, cleared, Nat.zero_div, byte, Nat.mul_zero]

theorem udp_fields (order : ByteOrder) (mem : Int → Byte) (a : Int) (srcPort dstPort : Nat) (data : List Byte)
    (hsrc : src.Ipv4) (hdst : dst.Ipv4) (bound : data.length ≤ UDP_MAX_DATALEN) :
    UdpFields (put16 order (store mem a (udpSegment srcPort dstPort data)) (a + 6)
        (udpChksum order (store mem a (udpSegment srcPort dstPort data)) a (data.length + UDP_HDR_LEN) src dst))
      a srcPort dstPort data src dst := by
  rw [UDP_MAX_DATALEN] at bound
  have whole : load (store mem a (udpSegment srcPort dstPort data)) a (2 + (2 + (2 + (2 + data.length)))) =
      udpSegment srcPort dstPort data := by
    apply Lib.load_stored
    simp [udpSegment, net16]
    omega
  generalize store mem a (udpSegment srcPort dstPort data) = packet at *
  simp only [Lib.load_append, udpSegment, List.append_assoc] at whole
  obtain ⟨first, rest⟩ := List.append_inj whole (by simp [net16])
  obtain ⟨second, rest⟩ := List.append_inj rest (by simp [net16])
  obtain ⟨third, rest⟩ := List.append_inj rest (by simp [net16])
  obtain ⟨fourth, last⟩ := List.append_inj rest (by simp [net16])
  constructor
  · rw [load_put16_apart (by omega)]
    exact first
  · rw [load_put16_apart (by omega)]
    exact second
  · rw [load_put16_apart (by omega)]
    simpa [Int.add_assoc] using third
  · rw [load_put16_apart (by rw [UDP_HDR_LEN]; omega)]
    simpa [Int.add_assoc] using last
  · intro order'
    apply udpChksum_verifies order order' hsrc hdst (by simp)
    · rw [UDP_HDR_LEN, UDP_PSEUDO_LEN]
      omega
    · simpa [Int.add_assoc] using fourth

theorem UdpFields.shift {b : Int} {srcPort dstPort : Nat} {payload : List Byte}
    (fields : UdpFields mem a srcPort dstPort payload src dst) (hsrc : src.Ipv4) (hdst : dst.Ipv4)
    (same : ∀ i : Int, 0 ≤ i → i < payload.length + UDP_HDR_LEN → mem' (b + i) = mem (a + i)) :
    UdpFields mem' b srcPort dstPort payload src dst := by
  rw [UDP_HDR_LEN] at same
  have field {n : Nat} {bytes : List Byte} (k : Nat) (within : k + n ≤ payload.length + 8)
      (holds : load mem (a + k) n = bytes) : load mem' (b + k) n = bytes := by
    rw [← holds]
    apply Lib.load_shift
    intro i lo hi
    rw [Int.add_assoc, Int.add_assoc]
    exact same (k + i) (by omega) (by omega)
  constructor
  · have := field 0 (n := 2) (by omega) (by simpa using fields.srcPort)
    simpa using this
  · exact field 2 (by omega) fields.dstPort
  · exact field 4 (by omega) fields.len
  · exact field 8 (by omega) fields.data
  · intro order
    rw [udpChksum_shift hsrc hdst (by simpa using same)]
    exact fields.verifies order

structure Framed (frame : List Byte) (pkt : Packet) : Prop where
  length : frame.length = ETH_HDR_LEN + pkt.len
  same : ∀ i : Int, 0 ≤ i → i < pkt.len → inMemory frame (ETH_HDR_LEN + i) = pkt.mem (pkt.curr + i)

theorem netSend_framed {net : Net} {pkt : Packet} {hwaddr : Option Netaddr} {praddr : Netaddr} {type : Nat}
    (up : (net.netiftab pkt.nif).up = true) (resolved : hwaddr = none → (net.arp pkt.nif praddr).isSome)
    (writes : net.writes pkt.nif (pkt.len + ETH_HDR_LEN) = true) :
    ∃ pkt' frame, netSend net pkt hwaddr praddr type = (pkt', ⟨[pkt.bytes], [(pkt.nif, frame)], []⟩, OK) ∧
      Framed frame pkt := by
  have ether := (net.netiftab pkt.nif).ethernet
  have src := (net.netiftab pkt.nif).hwaddr.bound
  obtain ⟨hw, address⟩ : ∃ hw, hwaddr.or (net.arp pkt.nif praddr) = some hw := by
    cases hwaddr with
    | some hw => exact ⟨hw, rfl⟩
    | none => exact Option.isSome_iff_exists.mp (resolved rfl)
  have dst := hw.bound
  simp only [netSend, up, not_true_eq_false, if_false, Packet.pushHeader, ether, address, writes, if_true]
  refine ⟨_, _, rfl, ?_, ?_⟩
  · rw [Packet.bytes, Lib.length_load]
    exact Nat.add_comm ..
  · intro i lo hi
    rw [NET_MAX_ALEN] at src dst
    simp only [Packet.bytes, ETH_HDR_LEN]
    rw [inMemory_load (by omega) (by omega), Lib.store_after (by omega), Lib.store_after (by omega),
      put16_off (by omega) (by omega)]
    congr 1
    omega

structure Sender (u : Udp) : Prop where
  active : u.passive = false
  localip : u.localip.Ipv4
  remoteip : u.remoteip.Ipv4
  localpt : u.localpt < 65536
  remotept : u.remotept < 65536
  bound : u.remotept ≠ 0

def gatewayOr (route : RtEntry) (dst : Netaddr) : Netaddr := if route.gateway.type = 0 then dst else route.gateway

/-- The network takes the datagrams of `len` bytes of data. -/
structure Path (net : Net) (u : Udp) (len : Nat) (route : RtEntry) : Prop where
  buffer : net.getbuf = true
  found : rtLookup net u.remoteip = some route
  up : (net.netiftab route.nif).up = true
  mtu : IPv4_HDR_LEN + UDP_HDR_LEN + min len UDP_MAX_DATALEN ≤ (net.netiftab route.nif).mtu
  resolved : (net.netiftab route.nif).ipbrc ≠ gatewayOr route u.remoteip →
    (net.arp route.nif (gatewayOr route u.remoteip)).isSome
  writes : ∀ n ≤ ETH_HDR_LEN + IPv4_HDR_LEN + UDP_HDR_LEN + min len UDP_MAX_DATALEN, net.writes route.nif n = true

structure Carries (u : Udp) (payload frame : List Byte) : Prop where
  length : frame.length = ETH_HDR_LEN + IPv4_HDR_LEN + UDP_HDR_LEN + payload.length
  ip : ∀ padding, Ipv4Fields (inMemory (frame ++ padding)) ETH_HDR_LEN (payload.length + UDP_HDR_LEN + IPv4_HDR_LEN)
    IPv4_PROTO_UDP u.localip u.remoteip
  udp : ∀ padding, UdpFields (inMemory (frame ++ padding)) (ETH_HDR_LEN + IPv4_HDR_LEN : Nat) u.localpt u.remotept
    payload u.localip u.remoteip

theorem inMemory_append {frame padding : List Byte} {i : Int} (lo : 0 ≤ i) (hi : i < frame.length) :
    inMemory (frame ++ padding) i = inMemory frame i := by
  rw [inMemory, inMemory, Lib.store_within (by rw [List.length_append]; omega) 0, Lib.store_within (by omega) 0,
    List.getD_append _ _ _ _ (by omega)]

variable {net : Net} {u : Udp} {route : RtEntry}

theorem ipv4SendFrag_whole {pkt : Packet} {nxthop : Netaddr} (up : (net.netiftab pkt.nif).up = true)
    (fits : ipLen net.order pkt.mem pkt.curr ≤ (net.netiftab pkt.nif).mtu)
    (resolved : (net.netiftab pkt.nif).ipbrc ≠ nxthop → (net.arp pkt.nif nxthop).isSome)
    (writes : net.writes pkt.nif (pkt.len + ETH_HDR_LEN) = true) :
    ∃ frame, ipv4SendFrag net pkt nxthop = (⟨[pkt.bytes], [(pkt.nif, frame)], []⟩, OK) ∧ Framed frame pkt := by
  simp only [ipv4SendFrag, fits, if_true]
  obtain ⟨pkt', frame, sent, framed⟩ := @netSend_framed _ _ (if (net.netiftab pkt.nif).ipbrc = nxthop then
    some NETADDR_GLOBAL_ETH_BRC else none) nxthop ETHER_TYPE_IPv4 up
    (fun none => resolved (by rintro same; simp [same] at none)) writes
  exact ⟨frame, by rw [sent], framed⟩

theorem udpChksumSend_carries {payload : List Byte} {len : Nat} (sender : Sender u)
    (path : Path net u len route) (bound : payload.length ≤ min len UDP_MAX_DATALEN) :
    ∃ frame passed, udpChksumSend net (store (fun _ => 0) (udpStart (payload.length + UDP_HDR_LEN))
          (udpSegment u.localpt u.remotept payload)) (payload.length + UDP_HDR_LEN) u.localip u.remoteip =
        (⟨passed, [(route.nif, frame)], []⟩, OK) ∧ Carries u payload frame := by
  have small : payload.length ≤ UDP_MAX_DATALEN := Nat.le_trans bound (Nat.min_le_right ..)
  have mtu := path.mtu
  rw [UDP_MAX_DATALEN] at small
  have srcType : u.localip.type ≠ 0 := by
    rw [sender.localip.1]
    decide
  have fields := udp_fields net.order (fun _ => 0) (udpStart (payload.length + UDP_HDR_LEN)) u.localpt u.remotept payload
    sender.localip sender.remoteip small
  simp only [udpChksumSend, ipv4Send, sender.remoteip.1, ne_eq, not_true_eq_false, if_false, path.found, srcType]
  generalize put16 net.order _ _ _ = packet at *
  generalize udpStart (payload.length + UDP_HDR_LEN) = curr at *
  have header := ipv4Header_fields net.order packet (curr - (IPv4_HDR_LEN : Nat))
    (payload.length + UDP_HDR_LEN + IPv4_HDR_LEN) IPv4_PROTO_UDP sender.localip sender.remoteip
  have behind {i : Int} (later : curr ≤ i) : ipv4Header net.order packet (curr - (IPv4_HDR_LEN : Nat))
      (payload.length + UDP_HDR_LEN + IPv4_HDR_LEN) IPv4_PROTO_UDP u.localip u.remoteip i = packet i :=
    ipv4Header_after sender.localip sender.remoteip (by rw [IPv4_HDR_LEN]; omega)
  generalize ipv4Header net.order packet (curr - (IPv4_HDR_LEN : Nat))
      (payload.length + UDP_HDR_LEN + IPv4_HDR_LEN) IPv4_PROTO_UDP u.localip u.remoteip = mem at *
  have total : ipLen net.order mem (curr - (IPv4_HDR_LEN : Nat)) = payload.length + UDP_HDR_LEN + IPv4_HDR_LEN :=
    net2hs_net16 header.len (by rw [UDP_HDR_LEN, IPv4_HDR_LEN]; omega)
  obtain ⟨frame, sent, framed⟩ := @ipv4SendFrag_whole _
    ⟨route.nif, payload.length + UDP_HDR_LEN + IPv4_HDR_LEN, 0, curr - (IPv4_HDR_LEN : Nat), mem⟩
    (gatewayOr route u.remoteip) path.up
    (by rw [total]; show _ ≤ (net.netiftab route.nif).mtu; omega) path.resolved
    (path.writes _ (by show payload.length + UDP_HDR_LEN + IPv4_HDR_LEN + ETH_HDR_LEN ≤ _; omega))
  refine ⟨frame, _, sent, ?_⟩
  have length := framed.length
  simp only [ETH_HDR_LEN, UDP_HDR_LEN, IPv4_HDR_LEN] at length
  have same (padding : List Byte) (i : Int) (lo : 0 ≤ i) (hi : i < payload.length + 28) :
      inMemory (frame ++ padding) (14 + i) = mem (curr - 20 + i) := by
    rw [inMemory_append (by omega) (by omega)]
    exact framed.same i lo (by simp only [UDP_HDR_LEN, IPv4_HDR_LEN]; omega)
  constructor
  · simp only [ETH_HDR_LEN, UDP_HDR_LEN, IPv4_HDR_LEN]
    omega
  · intro padding
    exact header.shift fun i lo hi => same padding i lo (by omega)
  · intro padding
    apply fields.shift sender.localip sender.remoteip
    intro i lo hi
    rw [UDP_HDR_LEN] at hi
    have byte := same padding (20 + i) (by omega) (by omega)
    rw [show curr - 20 + (20 + i) = curr + i by omega, behind (by omega)] at byte
    rw [← byte]
    congr 1
    simp only [ETH_HDR_LEN, IPv4_HDR_LEN]
    omega

theorem udpSend_carries {buf : List Byte} {len datalen : Nat} (sender : Sender u) (path : Path net u len route)
    (enough : datalen ≤ buf.length) (bound : datalen ≤ min len UDP_MAX_DATALEN) :
    ∃ frame passed, udpSend net u datalen buf = (⟨passed, [(route.nif, frame)], []⟩, OK) ∧
      Carries u (buf.take datalen) frame := by
  have small : datalen ≤ UDP_MAX_DATALEN := Nat.le_trans bound (Nat.min_le_right ..)
  have length : (buf.take datalen).length = datalen := by
    rw [List.length_take]
    omega
  have total : (datalen + UDP_HDR_LEN) % 2 ^ 16 = (buf.take datalen).length + UDP_HDR_LEN := by
    rw [length]
    apply Nat.mod_eq_of_lt
    rw [UDP_MAX_DATALEN] at small
    rw [UDP_HDR_LEN]
    omega
  have data : (buf.take datalen).length + UDP_HDR_LEN - UDP_HDR_LEN = datalen := by rw [length, Nat.add_sub_cancel]
  simp only [udpSend, path.buffer, not_true_eq_false, if_false, sender.active, Bool.false_eq_true, total, data]
  rw [udpHeader_store]
  exact udpChksumSend_carries sender path (by rw [length]; exact bound)

def udpPayloads : Nat → List Byte → List (List Byte)
  | 0, _ => []
  | fuel + 1, buf =>
      if buf.length = 0 then [] else buf.take UDP_MAX_DATALEN :: udpPayloads fuel (buf.drop UDP_MAX_DATALEN)

theorem udpPayloads_flatten {fuel : Nat} {buf : List Byte} (enough : buf.length ≤ fuel) :
    (udpPayloads fuel buf).flatten = buf := by
  induction fuel generalizing buf with
  | zero => exact (List.eq_nil_of_length_eq_zero (by omega)).symm
  | succ fuel ih =>
      rw [udpPayloads]
      split
      · rename_i empty
        exact (List.eq_nil_of_length_eq_zero empty).symm
      · rw [List.flatten_cons, ih, List.take_append_drop]
        rw [List.length_drop, UDP_MAX_DATALEN]
        omega

theorem udpPayloads_length {fuel : Nat} {buf payload : List Byte} (member : payload ∈ udpPayloads fuel buf) :
    payload.length = UDP_MAX_DATALEN ∨ payload.length = buf.length % UDP_MAX_DATALEN ∧ payload.length ≠ 0 := by
  induction fuel generalizing buf with
  | zero => cases member
  | succ fuel ih =>
      rw [udpPayloads] at member
      split at member
      · cases member
      · rcases List.mem_cons.mp member with rfl | later
        · rw [List.length_take, UDP_MAX_DATALEN]
          omega
        · have := ih later
          rw [List.length_drop, UDP_MAX_DATALEN] at this
          rw [UDP_MAX_DATALEN]
          omega

theorem udpPayloads_last {fuel : Nat} {buf : List Byte} (enough : buf.length ≤ fuel)
    (left : buf.length % UDP_MAX_DATALEN ≠ 0) :
    ∃ payload ∈ udpPayloads fuel buf, payload.length = buf.length % UDP_MAX_DATALEN := by
  induction fuel generalizing buf with
  | zero =>
      rw [show buf.length = 0 by omega] at left
      cases left rfl
  | succ fuel ih =>
      rw [UDP_MAX_DATALEN] at left
      rw [udpPayloads, if_neg (by omega)]
      by_cases last : buf.length < UDP_MAX_DATALEN
      · exact ⟨_, .head _, by rw [List.length_take, Nat.mod_eq_of_lt last, Nat.min_eq_right (Nat.le_of_lt last)]⟩
      · rw [UDP_MAX_DATALEN] at last
        obtain ⟨payload, member, length⟩ := @ih (buf.drop UDP_MAX_DATALEN)
          (by rw [List.length_drop, UDP_MAX_DATALEN]; omega) (by rw [List.length_drop, UDP_MAX_DATALEN]; omega)
        refine ⟨payload, .tail _ member, ?_⟩
        rw [length, List.length_drop, UDP_MAX_DATALEN]
        omega

theorem udpWriteLoop_carries {buf : List Byte} {len fuel count : Nat} (sender : Sender u)
    (path : Path net u len route) (within : buf.length ≤ len) (enough : buf.length ≤ fuel) :
    ∃ passed frames : List (List Byte), udpWriteLoop net u fuel count buf =
        (Traffic.mk passed (frames.map fun frame => (route.nif, frame)) [], ((count + buf.length : Nat) : Int)) ∧
      List.Forall₂ (Carries u) (udpPayloads fuel buf) frames := by
  induction fuel generalizing buf count with
  | zero => exact ⟨[], [], by rw [udpWriteLoop, show buf.length = 0 by omega]; rfl, .nil⟩
  | succ fuel ih =>
      rw [udpWriteLoop, udpPayloads]
      by_cases empty : buf.length = 0
      · rw [if_pos empty, if_pos empty]
        exact ⟨[], [], by rw [empty]; rfl, .nil⟩
      · rw [if_neg empty, if_neg empty]
        have pktsize : (if UDP_MAX_DATALEN ≤ buf.length then UDP_MAX_DATALEN else buf.length) =
            min buf.length UDP_MAX_DATALEN := by
          split <;> omega
        have taken : buf.take (min buf.length UDP_MAX_DATALEN) = buf.take UDP_MAX_DATALEN := by
          rw [List.take_eq_take_iff]
          omega
        have dropped : buf.drop (min buf.length UDP_MAX_DATALEN) = buf.drop UDP_MAX_DATALEN := by
          rw [List.drop_eq_drop_iff]
          omega
        obtain ⟨frame, passed, sent, carries⟩ := @udpSend_carries _ _ _ buf _ _ sender path
          (show min buf.length UDP_MAX_DATALEN ≤ buf.length by omega) (by omega)
        obtain ⟨passed', frames, rest, others⟩ := @ih (buf.drop UDP_MAX_DATALEN)
          (count + min buf.length UDP_MAX_DATALEN) (by rw [List.length_drop]; omega)
          (by rw [List.length_drop, UDP_MAX_DATALEN]; omega)
        rw [taken] at carries
        simp only [pktsize, sent, dropped, rest, ne_eq, not_true_eq_false, if_false]
        refine ⟨passed ++ passed', frame :: frames, ?_, .cons carries others⟩
        rw [List.length_drop]
        simp only [Traffic.add, List.map_cons, List.singleton_append, List.append_nil, Prod.mk.injEq, true_and]
        omega

theorem udpWrite_carries {buf : List Byte} (sender : Sender u) (path : Path net u buf.length route) :
    ∃ passed frames : List (List Byte), udpWrite net u buf =
        (Traffic.mk passed (frames.map fun frame => (route.nif, frame)) [], (buf.length : Int)) ∧
      List.Forall₂ (Carries u) (udpPayloads buf.length buf) frames := by
  have remote : ¬ (u.remotept = 0 ∨ u.remoteip.type = 0) := by
    rw [sender.remoteip.1]
    simp [sender.bound]
  simp only [udpWrite, sender.active, Bool.false_eq_true, if_false, remote]
  simpa using @udpWriteLoop_carries _ _ _ _ _ _ 0 sender path (Nat.le_refl _) (Nat.le_refl _)

end Xinu
