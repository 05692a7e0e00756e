import Xinu.Proof.Network.Fragments

namespace Xinu
open Lib (Byte load store)

def Icmp.isError : Icmp → Bool
  | .destUnreach _ => true
  | .timeExceeded _ => true
  | .redirect _ => false

structure Emitted (net : Net) (pkt : Packet) (nif : Nat) (frame : List Byte) : Prop where
  length : frame.length = (net.netiftab nif).linkhdrlen + ipLen net.order pkt.mem pkt.nethdr
  header : ipIhl pkt.mem pkt.nethdr * 4 ≤ ipLen net.order pkt.mem pkt.nethdr
  ttl : inMemory (frame.drop (net.netiftab nif).linkhdrlen) 8 = pkt.mem (pkt.nethdr + 8) - 1
  same : ∀ i < ipLen net.order pkt.mem pkt.nethdr, i ≠ 8 → i ≠ 10 → i ≠ 11 →
    inMemory (frame.drop (net.netiftab nif).linkhdrlen) i = pkt.mem (pkt.nethdr + i)
  verifies : netChksum net.order (inMemory (frame.drop (net.netiftab nif).linkhdrlen)) 0
    (ipIhl pkt.mem pkt.nethdr * 4) = 0

/-- A packet is dropped and its source is told, or one frame goes out and nothing else. -/
structure Forwarded (net : Net) (pkt : Packet) (sent : Routing) : Prop where
  once : (sent.frames = [] ∧ ∃ r ∈ sent.reports, r.message.isError ∧ r.result = OK) ∨
    ∃ route frame, rtLookup net (ipAddr pkt.mem (pkt.nethdr + 16)) = some route ∧
      sent.frames = [(route.nif, frame)] ∧ Emitted net pkt route.nif frame ∧
      ∀ r ∈ sent.reports, r.result ≠ OK ∧ r.frames = []
  expired : (pkt.mem (pkt.nethdr + 8)).toNat ≤ 1 → sent.frames = []

def netSends (net : Net) (nif len : Nat) (hwaddr : Option Netaddr) (praddr : Netaddr) : Bool :=
  (net.netiftab nif).up && (hwaddr.or (net.arp nif praddr)).isSome &&
    net.writes nif (len + (net.netiftab nif).linkhdrlen)

theorem netSend_fails {net : Net} {pkt : Packet} {hwaddr : Option Netaddr} {praddr : Netaddr}
    (type : Nat) (fails : netSends net pkt.nif pkt.len hwaddr praddr = false) :
    (netSend net pkt hwaddr praddr type).2.1.frames = [] ∧
      (netSend net pkt hwaddr praddr type).2.1.icmps = [] ∧
      (netSend net pkt hwaddr praddr type).2.2 = SYSERR := by
  simp only [netSends] at fails
  cases up : (net.netiftab pkt.nif).up with
  | false => simp [netSend, up]
  | true =>
      cases found : hwaddr.or (net.arp pkt.nif praddr) with
      | none => simp [netSend, up, Packet.pushHeader, found]
      | some dst =>
          simp only [up, found, Option.isSome_some, Bool.true_and] at fails
          simp [netSend, up, Packet.pushHeader, found, fails]

theorem drop_load {mem : Int → Byte} {a : Int} (n off : Nat) :
    (load mem a n).drop off = load mem (a + off) (n - off) := by
  by_cases within : off ≤ n
  · rw [← Lib.load_part off (show off + (n - off) ≤ n by omega), List.take_of_length_le (by simp)]
  · rw [List.drop_of_length_le (by rw [Lib.length_load]; omega), Nat.sub_eq_zero_of_le (by omega)]
    rfl

theorem linkHeader_apart {net : Net} {pkt : Packet} {src dst : Netaddr} {i : Int} (type : Nat)
    (ether : (net.netiftab pkt.nif).linkhdrlen = ETH_HDR_LEN) (within : pkt.curr ≤ i) :
    store (store (put16 net.order pkt.mem (pkt.curr - (net.netiftab pkt.nif).linkhdrlen + 12) type)
      (pkt.curr - (net.netiftab pkt.nif).linkhdrlen + 6) src.addr)
      (pkt.curr - (net.netiftab pkt.nif).linkhdrlen) dst.addr i = pkt.mem i := by
  have srcBound := src.bound
  have dstBound := dst.bound
  rw [ether, ETH_HDR_LEN] at *
  rw [NET_MAX_ALEN] at srcBound dstBound
  rw [Lib.store_off (by omega), Lib.store_off (by omega), put16_off (by omega) (by omega)]

theorem netSend_sends {net : Net} {pkt : Packet} {hwaddr : Option Netaddr} {praddr : Netaddr}
    (type : Nat) (sends : netSends net pkt.nif pkt.len hwaddr praddr = true) :
    ∃ frame, (netSend net pkt hwaddr praddr type).2.1 = ⟨[pkt.bytes], [(pkt.nif, frame)], []⟩ ∧
      (netSend net pkt hwaddr praddr type).2.2 = OK ∧
      frame.drop (net.netiftab pkt.nif).linkhdrlen = pkt.bytes ∧
      frame.length = (net.netiftab pkt.nif).linkhdrlen + pkt.len := by
  simp only [netSends, Bool.and_eq_true, Option.isSome_iff_exists] at sends
  obtain ⟨⟨up, dst, found⟩, writes⟩ := sends
  simp only [netSend, up, not_true_eq_false, if_false, Packet.pushHeader, found, writes, if_true]
  refine ⟨_, rfl, trivial, ?_, ?_⟩
  · rw [Packet.bytes, drop_load, Int.sub_add_cancel, Packet.bytes, Nat.add_sub_cancel]
    apply Lib.load_congr
    intro i lower upper
    exact linkHeader_apart _ (net.netiftab pkt.nif).ethernet lower
  · rw [Packet.bytes, Lib.length_load]
    exact Nat.add_comm ..

variable {net : Net} {pkt : Packet} {route : RtEntry}

theorem netSend_result {hwaddr : Option Netaddr} {praddr : Netaddr} (type : Nat) :
    (netSend net pkt hwaddr praddr type).2.2 = OK ↔ netSends net pkt.nif pkt.len hwaddr praddr = true := by
  cases sends : netSends net pkt.nif pkt.len hwaddr praddr with
  | false => simp [(netSend_fails type sends).2.2, OK, SYSERR]
  | true =>
      obtain ⟨_, -, result, -⟩ := netSend_sends type sends
      exact iff_of_true result rfl

def nextHop (dst : Netaddr) (route : RtEntry) : Netaddr := if route.gateway.type = 0 then dst else route.gateway

def hopHwaddr (net : Net) (dst : Netaddr) (route : RtEntry) : Option Netaddr :=
  if (net.netiftab route.nif).ipbrc = nextHop dst route then some NETADDR_GLOBAL_ETH_BRC else none

theorem ipv4Header_off {order : ByteOrder} {mem : Int → Byte} {ip i : Int} {len proto : Nat} {src dst : Netaddr}
    (below : i < ip + 8) : ipv4Header order mem ip len proto src dst i =
      put16 order (put16 order (put16 order (store mem ip
        [BitVec.ofNat 8 (IPv4_VERSION * 16 + IPv4_HDR_LEN / 4), BitVec.ofNat 8 IPv4_TOS_ROUTINE])
        (ip + 2) (hs2net order len)) (ip + 4) 0) (ip + 6) 0 i := by
  rw [ipv4Header, setChksum_off (by omega) (by omega), putAddr, putAddr, Lib.store_before (by omega),
    Lib.store_before (by omega), Lib.store_before (by omega)]

theorem ipv4Header_len {order : ByteOrder} {mem : Int → Byte} {ip : Int} {len proto : Nat} {src dst : Netaddr}
    (small : len < 65536) : ipLen order (ipv4Header order mem ip len proto src dst) ip = len := by
  rw [ipLen, get16_congr (ipv4Header_off (by omega)) (ipv4Header_off (by omega)), get16_put16_apart (by omega),
    get16_put16_apart (by omega), net2hs_put16 small]

theorem ipv4Header_flags {order : ByteOrder} {mem : Int → Byte} {ip : Int} {len proto : Nat} {src dst : Netaddr} :
    ipFlagsFroff order (ipv4Header order mem ip len proto src dst) ip = 0 := by
  rw [ipFlagsFroff, get16_congr (ipv4Header_off (by omega)) (ipv4Header_off (by omega)), get16_put16]
  cases order <;> rfl

def Reaches (net : Net) (len : Nat) (dst : Netaddr) : Prop :=
  ∃ route, rtLookup net dst = some route ∧
    if len ≤ (net.netiftab route.nif).mtu then
      netSends net route.nif len (hopHwaddr net dst route) (nextHop dst route) = true
    else net.getbuf = true

theorem ipv4Send_result {src dst : Netaddr} {proto : Nat} (type : dst.type = ETHER_TYPE_IPv4)
    (small : pkt.len + IPv4_HDR_LEN < 65536) :
    ((ipv4Send net pkt src dst proto).2 = OK ↔ Reaches net (pkt.len + IPv4_HDR_LEN) dst) ∧
      ((ipv4Send net pkt src dst proto).2 ≠ OK → net.getbuf = true → (ipv4Send net pkt src dst proto).1.frames = []) := by
  cases found : rtLookup net dst with
  | none =>
      have fails : ipv4Send net pkt src dst proto = (.none, SYSERR) := by simp [ipv4Send, type, found]
      rw [fails]
      refine ⟨iff_of_false (by decide) ?_, fun _ _ => rfl⟩
      rintro ⟨route, found', -⟩
      rw [found] at found'
      cases found'
  | some route =>
      have only : Reaches net (pkt.len + IPv4_HDR_LEN) dst ↔
          if pkt.len + IPv4_HDR_LEN ≤ (net.netiftab route.nif).mtu then
            netSends net route.nif (pkt.len + IPv4_HDR_LEN) (hopHwaddr net dst route) (nextHop dst route) = true
          else net.getbuf = true := by
        constructor
        · rintro ⟨route', found', reaches⟩
          rw [found] at found'
          cases found'
          exact reaches
        · exact fun reaches => ⟨route, found, reaches⟩
      obtain ⟨out, sent, nif, len, length, flags⟩ : ∃ out : Packet,
          ipv4Send net pkt src dst proto = ipv4SendFrag net out (nextHop dst route) ∧ out.nif = route.nif ∧
          out.len = pkt.len + IPv4_HDR_LEN ∧ ipLen net.order out.mem out.curr = pkt.len + IPv4_HDR_LEN ∧
          ipFlagsFroff net.order out.mem out.curr = 0 := by
        refine ⟨{ pkt with
          nif := route.nif, len := pkt.len + IPv4_HDR_LEN, curr := pkt.curr - IPv4_HDR_LEN
          mem := ipv4Header net.order pkt.mem (pkt.curr - IPv4_HDR_LEN) (pkt.len + IPv4_HDR_LEN) proto
            (if src.type = 0 then (net.netiftab route.nif).ip else src) dst }, ?_, rfl, rfl, ipv4Header_len small,
          ipv4Header_flags⟩
        simp only [ipv4Send, type, ne_eq, not_true_eq_false, if_false, found, nextHop]
      rw [only, sent, ipv4SendFrag]
      simp only [nif, length, flags, Nat.zero_and, ne_eq, not_true_eq_false, if_false]
      split
      · have result := @netSend_result net out (hopHwaddr net dst route) (nextHop dst route) ETHER_TYPE_IPv4
        rw [nif, len] at result
        refine ⟨result, fun fails _ => ?_⟩
        have silent : netSends net out.nif out.len (hopHwaddr net dst route) (nextHop dst route) = false := by
          rw [nif, len, Bool.eq_false_iff]
          exact fun sends => fails (result.mpr sends)
        exact (netSend_fails ETHER_TYPE_IPv4 silent).1
      · cases net.getbuf with
        | false => exact ⟨by simp [OK, SYSERR], fun _ held => absurd held (by decide)⟩
        | true => exact ⟨by simp, fun fails => absurd rfl fails⟩

def errorLen (mem : Int → Byte) (ip : Int) : Nat := ipIhl mem ip * 4 + 92

def Answers (net : Net) (mem : Int → Byte) (ip : Int) : Prop :=
  net.getbuf = true ∧ Reaches net (errorLen mem ip) (ipAddr mem (ip + 12))

theorem icmpError_result (net : Net) (pkt : Packet) (type code : Nat) (octets : List Byte) :
    ((icmpError net pkt type code octets).2 = OK ↔ Answers net pkt.mem pkt.nethdr) ∧
      ((icmpError net pkt type code octets).2 ≠ OK → (icmpError net pkt type code octets).1.frames = []) := by
  have small : ipIhl pkt.mem pkt.nethdr < 16 := Nat.mod_lt _ (by decide)
  rw [Answers]
  cases held : net.getbuf with
  | false => simp [icmpError, held, OK, SYSERR, Traffic.none]
  | true =>
      simp only [icmpError, held, not_true_eq_false, if_false, icmpSend, true_and]
      generalize given : put16 net.order _ _ _ = mem
      have sent := @ipv4Send_result net
        { nif := 0, len := ipIhl pkt.mem pkt.nethdr * 4 + ICMP_DEF_DATALEN + 4 + ICMP_HEADER_LEN, nethdr := 0
          curr := NET_MAX_PKTLEN - (ipIhl pkt.mem pkt.nethdr * 4 + ICMP_DEF_DATALEN : Nat) - 4 - ICMP_HEADER_LEN, mem }
        { type := 0, addr := [] } (ipAddr pkt.mem (pkt.nethdr + 12)) IPv4_PROTO_ICMP rfl
        (by simp only [ICMP_DEF_DATALEN, ICMP_HEADER_LEN, IPv4_HDR_LEN]; omega)
      have length : ipIhl pkt.mem pkt.nethdr * 4 + ICMP_DEF_DATALEN + 4 + ICMP_HEADER_LEN + IPv4_HDR_LEN =
          errorLen pkt.mem pkt.nethdr := by
        simp only [ICMP_DEF_DATALEN, ICMP_HEADER_LEN, IPv4_HDR_LEN, errorLen]
      rw [length] at sent
      exact ⟨sent.1, fun fails => sent.2 fails held⟩

theorem Answers.congr {mem mem' : Int → Byte} {ip : Int} (first : mem' ip = mem ip)
    (source : ∀ i, 12 ≤ i → i < 16 → mem' (ip + i) = mem (ip + i)) : Answers net mem' ip ↔ Answers net mem ip := by
  have ihl : ipIhl mem' ip = ipIhl mem ip := by rw [ipIhl, first, ipIhl]
  have addr : load mem' (ip + 12) 4 = load mem (ip + 12) 4 := by
    apply Lib.load_congr
    intro i lower upper
    have same := source (i - ip) (by omega) (by omega)
    rwa [show ip + (i - ip) = i by omega] at same
  have src : ipAddr mem' (ip + 12) = ipAddr mem (ip + 12) := by simp only [ipAddr, addr]
  rw [Answers, Answers, errorLen, errorLen, ihl, src]

def routed (net : Net) (pkt : Packet) (route : RtEntry) : Packet :=
  { pkt with
    nif := route.nif
    mem := setChksum net.order (store pkt.mem (pkt.nethdr + 8) [pkt.mem (pkt.nethdr + 8) - 1])
      pkt.nethdr IPv4_HDR_LEN }

theorem routed_off {i : Int} (ttl : i ≠ pkt.nethdr + 8) (fst : i ≠ pkt.nethdr + 10)
    (snd : i ≠ pkt.nethdr + 11) : (routed net pkt route).mem i = pkt.mem i := by
  simp only [routed]
  rw [setChksum_off fst snd, Lib.store_off]
  simp only [List.length_cons, List.length_nil]
  omega

theorem routed_ttl :
    (routed net pkt route).mem (pkt.nethdr + 8) = pkt.mem (pkt.nethdr + 8) - 1 := by
  simp only [routed]
  rw [setChksum_off (by omega) (by omega), Lib.store_within (by simp only [List.length_cons, List.length_nil]; omega) 0]
  simp

theorem routed_length :
    ipLen net.order (routed net pkt route).mem pkt.nethdr = ipLen net.order pkt.mem pkt.nethdr := by
  rw [ipLen, get16_congr (routed_off (by omega) (by omega) (by omega))
    (routed_off (by omega) (by omega) (by omega)), ipLen]

abbrev Packet.dst (pkt : Packet) : Netaddr := ipAddr pkt.mem (pkt.nethdr + 16)

theorem routed_answers : Answers net (routed net pkt route).mem pkt.nethdr ↔ Answers net pkt.mem pkt.nethdr :=
  Answers.congr (routed_off (by omega) (by omega) (by omega))
    fun i lower upper => routed_off (by omega) (by omega) (by omega)

def redirects (net : Net) (pkt : Packet) (route : RtEntry) : List Report :=
  if route.nif = pkt.nif then
    let code := if route.gateway.type = 0 then ICMP_RHST else ICMP_RNET
    [(Icmp.redirect code).report (icmpRedirect net pkt code route)]
  else []

theorem redirects_silent : (∀ r ∈ redirects net pkt route, r.result ≠ OK ∧ r.frames = []) ↔
    (route.nif = pkt.nif → ¬ Answers net pkt.mem pkt.nethdr) := by
  rw [redirects]
  by_cases same : route.nif = pkt.nif
  · obtain ⟨sent, silent⟩ := icmpError_result net pkt ICMP_REDIRECT
      (if route.gateway.type = 0 then ICMP_RHST else ICMP_RNET) (route.gateway.addr.take IPv4_ADDR_LEN)
    simp only [same, if_true, List.mem_singleton, forall_eq, forall_true_left]
    constructor
    · exact fun quiet answers => quiet.1 (sent.mpr answers)
    · exact fun quiet => ⟨fun ok => quiet (sent.mp ok), silent fun ok => quiet (sent.mp ok)⟩
  · simp [same]

theorem redirects_no_error : ∀ r ∈ redirects net pkt route, r.message.isError = false := by
  rw [redirects]
  split
  · intro r member
    rw [List.mem_singleton.mp member]
    rfl
  · exact fun r member => absurd member (List.not_mem_nil)

theorem rtSend_no_route (lost : rtLookup net pkt.dst = none) : (rtSend net pkt).1 =
    ⟨[], [(Icmp.destUnreach ICMP_NET_UNR).report (icmpDestUnreach net pkt ICMP_NET_UNR)]⟩ := by
  simp only [Packet.dst] at lost
  simp only [rtSend, lost]

theorem rtSend_expired (found : rtLookup net pkt.dst = some route) (last : pkt.mem (pkt.nethdr + 8) = 1) :
    ∃ mem : Int → Byte, (∀ i, i ≠ pkt.nethdr + 8 → mem i = pkt.mem i) ∧ (rtSend net pkt).1 =
      ⟨[], redirects net pkt route ++
        [(Icmp.timeExceeded ICMP_TTL_EXC).report (icmpTimeExceeded net { pkt with mem } ICMP_TTL_EXC)]⟩ := by
  have zero : store pkt.mem (pkt.nethdr + 8) [pkt.mem (pkt.nethdr + 8) - 1] (pkt.nethdr + 8) = 0 := by
    rw [Lib.store_within (by simp only [List.length_cons, List.length_nil]; omega) 0, last]
    simp
  refine ⟨store pkt.mem (pkt.nethdr + 8) [pkt.mem (pkt.nethdr + 8) - 1], fun i other => ?_, ?_⟩
  · apply Lib.store_off
    simp only [List.length_cons, List.length_nil]
    omega
  · simp only [Packet.dst] at found
    simp only [rtSend, found, if_pos zero]
    rfl

theorem rtSend_routed (found : rtLookup net pkt.dst = some route) (ttl : pkt.mem (pkt.nethdr + 8) ≠ 1) :
    (rtSend net pkt).1.frames = (ipv4SendFrag net (routed net pkt route) (nextHop pkt.dst route)).1.frames ∧
      (rtSend net pkt).1.reports = redirects net pkt route ++
        ((ipv4SendFrag net (routed net pkt route) (nextHop pkt.dst route)).1.icmps.map fun m =>
          m.report (icmpDestUnreach net (routed net pkt route) m.code)) ++
        if (ipv4SendFrag net (routed net pkt route) (nextHop pkt.dst route)).2 = SYSERR then
          [(Icmp.destUnreach ICMP_HST_UNR).report (icmpDestUnreach net (routed net pkt route) ICMP_HST_UNR)]
        else [] := by
  have left : store pkt.mem (pkt.nethdr + 8) [pkt.mem (pkt.nethdr + 8) - 1] (pkt.nethdr + 8) ≠ 0 := by
    rw [Lib.store_within (by simp only [List.length_cons, List.length_nil]; omega) 0]
    simp only [Int.sub_self, Int.toNat_zero, List.getD_cons_zero]
    intro zero
    apply ttl
    rw [← BitVec.sub_add_cancel (pkt.mem (pkt.nethdr + 8)) 1, zero]
    rfl
  simp only [Packet.dst] at found ⊢
  by_cases error : (ipv4SendFrag net (routed net pkt route)
      (nextHop (ipAddr pkt.mem (pkt.nethdr + 16)) route)).2 = SYSERR
  · rw [if_pos error]
    simp only [routed, nextHop] at error
    simp only [rtSend, found, if_neg left, if_pos error]
    exact ⟨rfl, rfl⟩
  · rw [if_neg error, List.append_nil]
    simp only [routed, nextHop] at error
    simp only [rtSend, found, if_neg left, if_neg error]
    exact ⟨rfl, rfl⟩

theorem ipv4SendFrag_routed (curr : pkt.curr = pkt.nethdr)
    (fits : ipLen net.order pkt.mem pkt.nethdr ≤ (net.netiftab route.nif).mtu) :
    ipv4SendFrag net (routed net pkt route) (nextHop pkt.dst route) =
      (netSend net (routed net pkt route) (hopHwaddr net pkt.dst route) (nextHop pkt.dst route)
        ETHER_TYPE_IPv4).2 := by
  have length : ipLen net.order (routed net pkt route).mem (routed net pkt route).curr ≤
      (net.netiftab (routed net pkt route).nif).mtu := by
    rw [show (routed net pkt route).curr = pkt.nethdr from curr, routed_length]
    exact fits
  rw [ipv4SendFrag, if_pos length]
  rfl

theorem routed_verifies (ihl : 5 ≤ ipIhl pkt.mem pkt.nethdr) :
    netChksum net.order (routed net pkt route).mem pkt.nethdr (ipIhl pkt.mem pkt.nethdr * 4) = 0 ↔
      chksumAdd net.order pkt.mem (pkt.nethdr + 20) (ipIhl pkt.mem pkt.nethdr * 4 - 20) % 65535 = 0 := by
  have small : ipIhl pkt.mem pkt.nethdr < 16 := Nat.mod_lt _ (by decide)
  have fixed : netChksum net.order (routed net pkt route).mem pkt.nethdr 20 = 0 :=
    setChksum_verifies (by decide)
  rw [netChksum_eq_zero (by decide)] at fixed
  have options : chksumAdd net.order (routed net pkt route).mem (pkt.nethdr + 20)
      (ipIhl pkt.mem pkt.nethdr * 4 - 20) =
        chksumAdd net.order pkt.mem (pkt.nethdr + 20) (ipIhl pkt.mem pkt.nethdr * 4 - 20) := by
    apply chksumAdd_congr
    intro i lower upper
    exact routed_off (by omega) (by omega) (by omega)
  have whole := chksumAdd_append net.order (routed net pkt route).mem pkt.nethdr 10
    (ipIhl pkt.mem pkt.nethdr * 4 - 20)
  rw [show 2 * 10 + (ipIhl pkt.mem pkt.nethdr * 4 - 20) = ipIhl pkt.mem pkt.nethdr * 4 by omega,
    show 2 * 10 = 20 from rfl,
    show pkt.nethdr + 2 * ((10 : Nat) : Int) = pkt.nethdr + 20 from rfl, options] at whole
  rw [netChksum_eq_zero (by omega), whole]
  omega

theorem Emitted.iff {frame : List Byte} (curr : pkt.curr = pkt.nethdr) (ihl : 5 ≤ ipIhl pkt.mem pkt.nethdr)
    (packet : frame.drop (net.netiftab route.nif).linkhdrlen = (routed net pkt route).bytes)
    (length : frame.length = (net.netiftab route.nif).linkhdrlen + pkt.len) :
    Emitted net pkt route.nif frame ↔
      ipIhl pkt.mem pkt.nethdr * 4 ≤ ipLen net.order pkt.mem pkt.nethdr ∧
        pkt.len = ipLen net.order pkt.mem pkt.nethdr ∧
        chksumAdd net.order pkt.mem (pkt.nethdr + 20) (ipIhl pkt.mem pkt.nethdr * 4 - 20) % 65535 = 0 := by
  have byte : ∀ i : Int, 0 ≤ i → i < pkt.len →
      inMemory (frame.drop (net.netiftab route.nif).linkhdrlen) i =
        (routed net pkt route).mem (pkt.nethdr + i) := by
    intro i lower upper
    rw [packet, Packet.bytes, show (routed net pkt route).curr = pkt.nethdr from curr]
    exact inMemory_load lower upper
  have chksum (header : ipIhl pkt.mem pkt.nethdr * 4 ≤ pkt.len) :
      netChksum net.order (inMemory (frame.drop (net.netiftab route.nif).linkhdrlen)) 0
        (ipIhl pkt.mem pkt.nethdr * 4) =
      netChksum net.order (routed net pkt route).mem pkt.nethdr (ipIhl pkt.mem pkt.nethdr * 4) := by
    apply netChksum_shift
    intro i lower upper
    rw [Int.zero_add, byte i lower (by omega)]
  constructor
  · intro emitted
    have total : pkt.len = ipLen net.order pkt.mem pkt.nethdr := by
      have := emitted.length
      omega
    have verifies := emitted.verifies
    rw [chksum (total ▸ emitted.header), routed_verifies ihl] at verifies
    exact ⟨emitted.header, total, verifies⟩
  · rintro ⟨header, total, options⟩
    exact {
      length := by omega
      header
      ttl := by rw [byte 8 (by omega) (by omega), routed_ttl]
      same := by
        intro i bound ttl fst snd
        rw [byte i (by omega) (by omega)]
        exact routed_off (by omega) (by omega) (by omega)
      verifies := by rw [chksum (total ▸ header), routed_verifies ihl, options] }

structure Sendable (net : Net) (pkt : Packet) (route : RtEntry) : Prop where
  alive : 2 ≤ (pkt.mem (pkt.nethdr + 8)).toNat
  header : ipIhl pkt.mem pkt.nethdr * 4 ≤ ipLen net.order pkt.mem pkt.nethdr
  length : pkt.len = ipLen net.order pkt.mem pkt.nethdr
  options : chksumAdd net.order pkt.mem (pkt.nethdr + 20) (ipIhl pkt.mem pkt.nethdr * 4 - 20) % 65535 = 0
  onward : route.nif = pkt.nif → ¬ Answers net pkt.mem pkt.nethdr

/-- A packet that cannot be sent on needs a source that can be told. -/
def Forwardable (net : Net) (pkt : Packet) : Prop :=
  match rtLookup net pkt.dst with
  | none => Answers net pkt.mem pkt.nethdr
  | some route =>
      if (pkt.mem (pkt.nethdr + 8)).toNat ≠ 1 ∧
          netSends net route.nif pkt.len (hopHwaddr net pkt.dst route) (nextHop pkt.dst route) = true then
        Sendable net pkt route
      else Answers net pkt.mem pkt.nethdr

theorem forwarded_dropped {sent : Routing} {front : List Report} {last : Report} (frames : sent.frames = [])
    (reports : sent.reports = front ++ [last]) (others : ∀ r ∈ front, r.message.isError = false)
    (error : last.message.isError = true) : Forwarded net pkt sent ↔ last.result = OK := by
  constructor
  · rintro ⟨⟨-, r, member, isError, ok⟩ | ⟨route, frame, -, some, -⟩, -⟩
    · rw [reports, List.mem_append, List.mem_singleton] at member
      rcases member with member | rfl
      · rw [others r member] at isError
        cases isError
      · exact ok
    · rw [frames] at some
      cases some
  · intro ok
    exact ⟨.inl ⟨frames, last, by simp [reports], error, ok⟩, fun _ => frames⟩

theorem forwarded_unsent (found : rtLookup net pkt.dst = some route)
    (curr : pkt.curr = pkt.nethdr) (ttl : pkt.mem (pkt.nethdr + 8) ≠ 1)
    (fits : ipLen net.order pkt.mem pkt.nethdr ≤ (net.netiftab route.nif).mtu)
    (fails : netSends net route.nif pkt.len (hopHwaddr net pkt.dst route) (nextHop pkt.dst route) = false) :
    Forwarded net pkt (rtSend net pkt).1 ↔ Answers net pkt.mem pkt.nethdr := by
  obtain ⟨frames, reports⟩ := rtSend_routed found ttl
  rw [ipv4SendFrag_routed curr fits] at frames reports
  obtain ⟨none, silent, error⟩ := @netSend_fails _ (routed net pkt route) _ _ ETHER_TYPE_IPv4 fails
  rw [none] at frames
  rw [error, silent, if_pos rfl, List.map_nil, List.append_nil] at reports
  rw [forwarded_dropped frames reports redirects_no_error rfl, ← @routed_answers net pkt route]
  exact (icmpError_result net (routed net pkt route) ICMP_UNREACH ICMP_HST_UNR [0, 0, 0, 0]).1

theorem forwarded_sent (found : rtLookup net pkt.dst = some route)
    (curr : pkt.curr = pkt.nethdr) (ttl : pkt.mem (pkt.nethdr + 8) ≠ 1)
    (fits : ipLen net.order pkt.mem pkt.nethdr ≤ (net.netiftab route.nif).mtu)
    (ihl : 5 ≤ ipIhl pkt.mem pkt.nethdr)
    (sends : netSends net route.nif pkt.len (hopHwaddr net pkt.dst route) (nextHop pkt.dst route) = true) :
    Forwarded net pkt (rtSend net pkt).1 ↔ Sendable net pkt route := by
  obtain ⟨frames, reports⟩ := rtSend_routed found ttl
  rw [ipv4SendFrag_routed curr fits] at frames reports
  obtain ⟨frame, sent, result, packet, length⟩ :=
    @netSend_sends _ (routed net pkt route) _ _ ETHER_TYPE_IPv4 sends
  rw [sent] at frames
  rw [sent, result, if_neg (by decide), List.map_nil, List.append_nil, List.append_nil] at reports
  have emitted := Emitted.iff curr ihl packet length
  constructor
  · rintro ⟨once, expired⟩
    have alive : 2 ≤ (pkt.mem (pkt.nethdr + 8)).toNat := by
      by_contra low
      rw [expired (by omega)] at frames
      cases frames
    rcases once with ⟨none, _⟩ | ⟨route', frame', found', frames', emitted', alone⟩
    · rw [none] at frames
      cases frames
    · rw [found] at found'
      cases found'
      rw [frames] at frames'
      cases frames'
      obtain ⟨header, total, options⟩ := emitted.mp emitted'
      rw [reports, redirects_silent] at alone
      exact ⟨alive, header, total, options, alone⟩
  · rintro ⟨alive, header, total, options, onward⟩
    refine ⟨.inr ⟨route, frame, found, frames, emitted.mpr ⟨header, total, options⟩, ?_⟩, fun low => absurd alive (by omega)⟩
    rw [reports, redirects_silent]
    exact onward

theorem ipv4Recv_routed {frame : Packet} (received : ipv4Recv net frame = .rtRecv pkt) :
    pkt.curr = pkt.nethdr ∧ pkt.mem pkt.nethdr ≠ 0 ∧ 5 ≤ ipIhl pkt.mem pkt.nethdr := by
  have unchanged : pkt = { frame with nethdr := frame.curr } ∧
      ipv4RecvValid net.order frame.mem frame.curr = true := by
    rw [ipv4Recv] at received
    by_cases valid : ipv4RecvValid net.order frame.mem frame.curr = true
    · refine ⟨?_, valid⟩
      simp only [valid, not_true_eq_false, if_false] at received
      by_cases ours : ipv4RecvDemux net (ipAddr frame.mem (frame.curr + 16)) = true
      · simp only [ours, not_true_eq_false, if_false] at received
        split at received
        · cases received
        · split at received
          · split at received
            · cases received
            · split at received <;> cases received
          · split at received
            · cases received
            · split at received <;> cases received
      · simpa [ours] using received.symm
    · simp [valid] at received
  obtain ⟨rfl, valid⟩ := unchanged
  simp only [ipv4RecvValid, decide_eq_true_eq, IPv4_VERSION, IPv4_MIN_IHL] at valid
  refine ⟨rfl, ?_, valid.2.1⟩
  intro zero
  simp only at zero
  simp [zero] at valid

theorem rtSend_forwards_iff {frame : Packet} (received : ipv4Recv net frame = .rtRecv pkt)
    (fits : ∀ route, rtLookup net (ipAddr pkt.mem (pkt.nethdr + 16)) = some route →
      ipLen net.order pkt.mem pkt.nethdr ≤ (net.netiftab route.nif).mtu) :
    Forwarded net pkt (rtSend net pkt).1 ↔ Forwardable net pkt := by
  obtain ⟨curr, -, ihl⟩ := ipv4Recv_routed received
  rw [Forwardable]
  cases found : rtLookup net pkt.dst with
  | none =>
      have sent := rtSend_no_route found
      have frames : (rtSend net pkt).1.frames = [] := by rw [sent]
      have reports : (rtSend net pkt).1.reports =
          [] ++ [(Icmp.destUnreach ICMP_NET_UNR).report (icmpDestUnreach net pkt ICMP_NET_UNR)] := by rw [sent]; rfl
      rw [forwarded_dropped frames reports (by simp) rfl]
      exact (icmpError_result net pkt ICMP_UNREACH ICMP_NET_UNR [0, 0, 0, 0]).1
  | some route =>
      simp only
      by_cases last : pkt.mem (pkt.nethdr + 8) = 1
      · have one : ¬ ((pkt.mem (pkt.nethdr + 8)).toNat ≠ 1 ∧
            netSends net route.nif pkt.len (hopHwaddr net pkt.dst route) (nextHop pkt.dst route) = true) :=
          fun both => both.1 (by rw [last]; rfl)
        obtain ⟨mem, same, sent⟩ := rtSend_expired found last
        have frames : (rtSend net pkt).1.frames = [] := by rw [sent]
        have reports : (rtSend net pkt).1.reports = redirects net pkt route ++
            [(Icmp.timeExceeded ICMP_TTL_EXC).report (icmpTimeExceeded net { pkt with mem } ICMP_TTL_EXC)] := by rw [sent]
        have answers : Answers net mem pkt.nethdr ↔ Answers net pkt.mem pkt.nethdr :=
          Answers.congr (same _ (by omega)) fun i lower upper => same _ (by omega)
        rw [if_neg one, forwarded_dropped frames reports redirects_no_error rfl, ← answers]
        exact (icmpError_result net { pkt with mem } ICMP_TIMEEXCD ICMP_TTL_EXC [0, 0, 0, 0]).1
      · have ttl : (pkt.mem (pkt.nethdr + 8)).toNat ≠ 1 := fun one => last (BitVec.eq_of_toNat_eq one)
        cases sends : netSends net route.nif pkt.len (hopHwaddr net pkt.dst route) (nextHop pkt.dst route) with
        | false =>
            rw [if_neg (by simp)]
            exact forwarded_unsent found curr last (fits route found) sends
        | true =>
            rw [if_pos ⟨ttl, rfl⟩]
            exact forwarded_sent found curr last (fits route found) ihl sends

def router : Net :=
  { narrow with
    nnetif := 2
    rttab :=
      [{ used := true
         masklen := 24
         dst := { type := ETHER_TYPE_IPv4, addr := [10, 0, 1, 0], bound := Netaddr.ipv4_fits }
         gateway := { type := 0, addr := [], bound := Netaddr.empty_fits }
         mask := { type := ETHER_TYPE_IPv4, addr := [255, 255, 255, 0], bound := Netaddr.ipv4_fits }
         nif := 1 },
       { used := true
         masklen := 24
         dst := { type := ETHER_TYPE_IPv4, addr := [10, 0, 0, 0], bound := Netaddr.ipv4_fits }
         gateway := { type := 0, addr := [], bound := Netaddr.empty_fits }
         mask := { type := ETHER_TYPE_IPv4, addr := [255, 255, 255, 0], bound := Netaddr.ipv4_fits }
         nif := 0 }] }

def transit : Packet where
  nif := 0
  len := 42
  nethdr := 0
  curr := 14
  mem := setChksum .little (store (fun _ => 7) 14
    [0x45, 0, 0, 28, 0, 1, 0, 0, 64, 17, 0, 0, 10, 0, 0, 2, 10, 0, 1, 2]) 14 20

theorem transit_routed :
    ipv4Recv router transit = .rtRecv { transit with nethdr := transit.curr } := by
  rw [ipv4Recv, if_neg (by decide +kernel), if_pos (by decide +kernel)]

theorem transit_fits : ∀ route, rtLookup router (ipAddr transit.mem (transit.curr + 16)) = some route →
    ipLen router.order transit.mem transit.curr ≤ (router.netiftab route.nif).mtu := by
  intro route _
  exact show ipLen .little transit.mem 14 ≤ 68 by decide +kernel

def expiring : Packet where
  nif := 0
  len := 42
  nethdr := 14
  curr := 14
  mem := setChksum .little (store (fun _ => 7) 14
    [0x45, 0, 0, 28, 0, 1, 0, 0, 1, 17, 0, 0, 10, 0, 0, 2, 10, 0, 1, 2]) 14 20

theorem expiring_routed : ipv4Recv router { expiring with nethdr := 0 } = .rtRecv expiring := by
  rw [ipv4Recv, if_neg (by decide +kernel), if_pos (by decide +kernel)]
  rfl

theorem transit_forwards_iff :
    (Forwarded router { transit with nethdr := transit.curr }
        (rtSend router { transit with nethdr := transit.curr }).1 ↔
      Forwardable router { transit with nethdr := transit.curr }) ∧
      Forwarded router expiring (rtSend router expiring).1 := by
  refine ⟨rtSend_forwards_iff transit_routed transit_fits, ?_⟩
  refine (rtSend_forwards_iff expiring_routed fun route _ => show ipLen .little expiring.mem 14 ≤ 68 by decide +kernel).mpr ?_
  have ttl : (expiring.mem (expiring.nethdr + 8)).toNat = 1 := by decide +kernel
  have answers : Answers router expiring.mem expiring.nethdr := by
    have back : (rtLookup router (ipAddr expiring.mem (expiring.nethdr + 12))).map RtEntry.nif = some 0 := by decide +kernel
    obtain ⟨route, found, -⟩ := Option.map_eq_some_iff.mp back
    have long : ¬ errorLen expiring.mem expiring.nethdr ≤ (router.netiftab route.nif).mtu :=
      show ¬ errorLen expiring.mem 14 ≤ 68 by decide +kernel
    exact ⟨rfl, route, found, by rw [if_neg long]; rfl⟩
  rw [Forwardable]
  split
  · exact answers
  · rw [if_neg fun alive => alive.1 ttl]
    exact answers

theorem transit_not_forwarded :
    ipv4Recv router transit = .rtRecv { transit with nethdr := transit.curr } ∧
      ¬ Forwarded router { transit with nethdr := transit.curr }
        (rtSend router { transit with nethdr := transit.curr }).1 := by
  refine ⟨transit_routed, ?_⟩
  rintro ⟨once, _⟩
  have lengths : (rtSend router { transit with nethdr := transit.curr }).1.frames.map
      (fun frame => frame.2.length) = [56] := by decide +kernel
  rcases once with ⟨none, _⟩ | ⟨route, frame, _, frames, emitted, _⟩
  · rw [none] at lengths
    cases lengths
  · have length := emitted.length
    have total : ipLen router.order transit.mem transit.curr = 28 := by decide +kernel
    rw [(router.netiftab route.nif).ethernet, ETH_HDR_LEN, total] at length
    rw [frames, List.map_cons, length] at lengths
    cases lengths

end Xinu
