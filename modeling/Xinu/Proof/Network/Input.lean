import Xinu.Proof.Network.Forwarding
import Xinu.System.TcpInput

namespace Xinu
open Lib (Byte load store)

def optsStop (mem : Int → Byte) (endopt : Int) : Nat → Int → Int
  | 0, options => options
  | fuel + 1, options =>
      if (mem options).toNat ≠ TCP_OPT_END ∧ options < endopt then
        optsStop mem endopt fuel
          (options + if (mem options).toNat = TCP_OPT_MSS then TCP_OPT_MSS_LEN else 1)
      else options

variable {mem : Int → Byte} {endopt options : Int} {fuel : Nat}

theorem optsStop_ge : options ≤ optsStop mem endopt fuel options := by
  induction fuel generalizing options with
  | zero => exact Int.le_refl _
  | succ fuel ih =>
      rw [optsStop]
      split
      · refine Int.le_trans ?_ ih
        split <;> omega
      · exact Int.le_refl _

theorem optsStop_read (sndmss : Nat) (enough : endopt - options < fuel) (some : 0 < fuel) :
    optsStop mem endopt fuel options ∈ (optsLoop mem endopt fuel options sndmss).2 := by
  induction fuel generalizing options sndmss with
  | zero => cases some
  | succ fuel ih =>
      by_cases goes : (mem options).toNat ≠ TCP_OPT_END ∧ options < endopt
      · rw [optsStop, if_pos goes, optsLoop, if_pos goes]
        by_cases mss : (mem options).toNat = TCP_OPT_MSS
        · rw [if_pos mss, if_pos mss]
          have shorter : endopt - (options + (TCP_OPT_MSS_LEN : Nat)) < fuel := by
            rw [TCP_OPT_MSS_LEN]
            omega
          exact .tail _ (.tail _ (.tail _ (ih _ shorter (by omega))))
        · rw [if_neg mss, if_neg mss]
          exact .tail _ (ih sndmss (by omega) (by omega))
      · rw [optsStop, if_neg goes, optsLoop, if_neg goes]
        exact .head _

theorem optsLoop_within (sndmss : Nat) :
    ∀ a ∈ (optsLoop mem endopt fuel options sndmss).2,
      options ≤ a ∧ a ≤ optsStop mem endopt fuel options := by
  induction fuel generalizing options sndmss with
  | zero => simp [optsLoop]
  | succ fuel ih =>
      by_cases goes : (mem options).toNat ≠ TCP_OPT_END ∧ options < endopt
      · rw [optsStop, if_pos goes, optsLoop, if_pos goes]
        by_cases mss : (mem options).toNat = TCP_OPT_MSS
        · rw [if_pos mss, if_pos mss]
          have later : options + 4 ≤ optsStop mem endopt fuel (options + (TCP_OPT_MSS_LEN : Nat)) :=
            optsStop_ge
          intro a member
          simp only [List.mem_cons] at member
          rcases member with rfl | rfl | rfl | member
          · omega
          · omega
          · omega
          · obtain ⟨lower, upper⟩ := ih _ a member
            exact ⟨by omega, upper⟩
        · rw [if_neg mss, if_neg mss]
          have later : options + 1 ≤ optsStop mem endopt fuel (options + 1) := optsStop_ge
          intro a member
          simp only [List.mem_cons] at member
          rcases member with rfl | member
          · exact ⟨Int.le_refl _, by simpa using (by omega : a ≤ optsStop mem endopt fuel (a + 1))⟩
          · obtain ⟨lower, upper⟩ := ih _ a member
            exact ⟨by omega, upper⟩
      · rw [optsStop, if_neg goes, optsLoop, if_neg goes]
        intro a member
        simp only [List.mem_singleton] at member
        omega

theorem tcpRecvOpts_within {tcp limit : Int} {offset : Nat} (sndmss : Nat) :
    (∀ a ∈ (tcpRecvOpts mem tcp offset sndmss).2, tcp ≤ a ∧ a < limit) ↔
      (offset2octets offset ≠ TCP_HDR_LEN →
        optsStop mem (tcp + offset2octets offset) (offset2octets offset + 1) (tcp + TCP_HDR_LEN) <
          limit) := by
  rw [tcpRecvOpts]
  split
  · simp_all
  · rename_i options
    have fin : tcp + (TCP_HDR_LEN : Nat) + ((offset2octets offset : Int) - (TCP_HDR_LEN : Nat)) =
        tcp + offset2octets offset := by omega
    simp only [fin]
    constructor
    · intro reads _
      exact (reads _ (optsStop_read sndmss (by rw [TCP_HDR_LEN]; omega) (by omega))).2
    · intro stops a member
      obtain ⟨lower, upper⟩ := optsLoop_within sndmss a member
      have := stops options
      exact ⟨by omega, by omega⟩

def dataOffset (mem : Int → Byte) (tcp : Int) : Nat := offset2octets (mem (tcp + 12)).toNat

/-- A segment that `ipv4Recv` passes on lies in its frame, and one whose checksum verifies says where
its data is. -/
structure Contained (net : Net) (tcptab : List Socket) (frame pkt : Packet) (src dst : Netaddr) :
    Prop where
  total : (tcplen pkt : Int) =
    (ipLen net.order frame.mem frame.curr : Int) - ipIhl frame.mem frame.curr * 4
  header : TCP_HDR_LEN ≤ tcplen pkt
  received : pkt.curr + tcplen pkt ≤ frame.len
  offset : tcpRecv net.order tcptab pkt src dst ≠ .badChecksum →
    TCP_HDR_LEN ≤ dataOffset pkt.mem pkt.curr ∧ dataOffset pkt.mem pkt.curr ≤ tcplen pkt
  seglen : tcpRecv net.order tcptab pkt src dst ≠ .badChecksum →
    tcpSeglen (tcplen pkt) (pkt.mem (pkt.curr + 12)).toNat + dataOffset pkt.mem pkt.curr = tcplen pkt
  options : ∀ i, tcpRecv net.order tcptab pkt src dst = .socket i → ∀ sndmss,
    ∀ a ∈ (tcpRecvOpts pkt.mem pkt.curr (pkt.mem (pkt.curr + 12)).toNat sndmss).2,
      pkt.curr ≤ a ∧ a < frame.len
  data : ∀ i, tcpRecv net.order tcptab pkt src dst = .socket i →
    pkt.curr + dataOffset pkt.mem pkt.curr +
      tcpSeglen (tcplen pkt) (pkt.mem (pkt.curr + 12)).toNat ≤ frame.len

def tcpAt (frame : Packet) : Int := frame.curr + ipIhl frame.mem frame.curr * 4
def tcpTotal (net : Net) (frame : Packet) : Nat :=
  ipLen net.order frame.mem frame.curr - ipIhl frame.mem frame.curr * 4

/-- The frame is for this host, valid, not fragmented and TCP. -/
def isTcp (net : Net) (frame : Packet) : Bool :=
  ipv4RecvValid net.order frame.mem frame.curr ∧ ipv4RecvDemux net (ipAddr frame.mem (frame.curr + 16)) ∧
    ¬ (IPv4_FLAG_MF &&& ipFlagsFroff net.order frame.mem frame.curr ≠ 0 ∨
      ipFlagsFroff net.order frame.mem frame.curr &&& IPv4_FROFF ≠ 0) ∧
    (frame.mem (frame.curr + 9)).toNat = IPv4_PROTO_TCP

structure Agreeing (net : Net) (tcptab : List Socket) (frame : Packet) : Prop where
  header : ipIhl frame.mem frame.curr * 4 + TCP_HDR_LEN ≤ ipLen net.order frame.mem frame.curr
  received : frame.curr + ipLen net.order frame.mem frame.curr ≤ frame.len
  offset : tcpChksum net.order frame.mem (tcpAt frame) (tcpTotal net frame)
      (ipAddr frame.mem (frame.curr + 12)) (ipAddr frame.mem (frame.curr + 16)) = 0 →
    TCP_HDR_LEN ≤ dataOffset frame.mem (tcpAt frame) ∧
      dataOffset frame.mem (tcpAt frame) ≤ tcpTotal net frame
  -- the options are closed, or followed by enough octets
  options : tcpChksum net.order frame.mem (tcpAt frame) (tcpTotal net frame)
      (ipAddr frame.mem (frame.curr + 12)) (ipAddr frame.mem (frame.curr + 16)) = 0 →
    (tcpDemux tcptab (net2hs net.order (get16 net.order frame.mem (tcpAt frame + 2)))
      (net2hs net.order (get16 net.order frame.mem (tcpAt frame)))
      (ipAddr frame.mem (frame.curr + 16)) (ipAddr frame.mem (frame.curr + 12))).isSome →
    dataOffset frame.mem (tcpAt frame) ≠ TCP_HDR_LEN →
      optsStop frame.mem (tcpAt frame + dataOffset frame.mem (tcpAt frame))
        (dataOffset frame.mem (tcpAt frame) + 1) (tcpAt frame + TCP_HDR_LEN) < frame.len

def transport (net : Net) (frame : Packet) : Packet :=
  { frame with
    nethdr := frame.curr
    len := if sub32 frame.len (net.netiftab frame.nif).linkhdrlen > ipLen net.order frame.mem frame.curr
      then (net.netiftab frame.nif).linkhdrlen + ipLen net.order frame.mem frame.curr else frame.len
    curr := tcpAt frame }

variable {net : Net} {frame pkt : Packet} {src dst : Netaddr}

theorem ipv4Recv_transport (valid : ipv4RecvValid net.order frame.mem frame.curr = true)
    (ours : ipv4RecvDemux net (ipAddr frame.mem (frame.curr + 16)) = true)
    (whole : ¬ (IPv4_FLAG_MF &&& ipFlagsFroff net.order frame.mem frame.curr ≠ 0 ∨
      ipFlagsFroff net.order frame.mem frame.curr &&& IPv4_FROFF ≠ 0)) :
    ipv4Recv net frame =
      if (frame.mem (frame.curr + 9)).toNat = IPv4_PROTO_UDP then
        .udpRecv (transport net frame) (ipAddr frame.mem (frame.curr + 12)) (ipAddr frame.mem (frame.curr + 16))
      else if (frame.mem (frame.curr + 9)).toNat = IPv4_PROTO_TCP then
        .tcpRecv (transport net frame) (ipAddr frame.mem (frame.curr + 12)) (ipAddr frame.mem (frame.curr + 16))
      else .other (frame.mem (frame.curr + 9)).toNat := by
  simp only [ipv4Recv, valid, ours, whole, not_true_eq_false, if_false]
  by_cases long : sub32 frame.len (net.netiftab frame.nif).linkhdrlen > ipLen net.order frame.mem frame.curr
  · simp only [long, if_true, transport, tcpAt]
  · simp only [long, if_false, transport, tcpAt]

theorem ipv4Recv_tcp : ipv4Recv net frame = .tcpRecv pkt src dst ↔
    isTcp net frame = true ∧ pkt = transport net frame ∧ src = ipAddr frame.mem (frame.curr + 12) ∧
      dst = ipAddr frame.mem (frame.curr + 16) := by
  rw [isTcp, decide_eq_true_eq]
  by_cases valid : ipv4RecvValid net.order frame.mem frame.curr = true
  · by_cases ours : ipv4RecvDemux net (ipAddr frame.mem (frame.curr + 16)) = true
    · by_cases whole : IPv4_FLAG_MF &&& ipFlagsFroff net.order frame.mem frame.curr ≠ 0 ∨
          ipFlagsFroff net.order frame.mem frame.curr &&& IPv4_FROFF ≠ 0
      · simp [ipv4Recv, valid, ours, whole]
      · rw [ipv4Recv_transport valid ours whole]
        split
        · rename_i udp
          have other : (frame.mem (frame.curr + 9)).toNat ≠ IPv4_PROTO_TCP := by rw [udp]; decide
          simp [other]
        · split
          · rename_i tcp
            simp only [valid, ours, whole, tcp, Handed.tcpRecv.injEq, not_false_eq_true, and_true, true_and, eq_comm]
          · rename_i tcp
            simp [tcp]
    · simp [ipv4Recv, valid, ours]
  · simp [ipv4Recv, valid]

theorem sub32_lt {a b : Nat} (small : a < WORD) (smaller : b < WORD) :
    sub32 a b = if b ≤ a then a - b else a + WORD - b := by
  rw [sub32, Nat.mod_eq_of_lt smaller]
  split
  · rw [show a + (WORD - b) = (a - b) + WORD by omega, Nat.add_mod_right, Nat.mod_eq_of_lt (by omega)]
  · rw [show a + (WORD - b) = a + WORD - b by omega, Nat.mod_eq_of_lt (by omega)]

theorem transport_lengths (start : frame.curr = ETH_HDR_LEN) (bound : frame.len < WORD) :
    ((tcplen (transport net frame) : Int) =
        (ipLen net.order frame.mem frame.curr : Int) - ipIhl frame.mem frame.curr * 4 ∧
      TCP_HDR_LEN ≤ tcplen (transport net frame) ∧
      (transport net frame).curr + tcplen (transport net frame) ≤ frame.len) ↔
    ipIhl frame.mem frame.curr * 4 + TCP_HDR_LEN ≤ ipLen net.order frame.mem frame.curr ∧
      frame.curr + ipLen net.order frame.mem frame.curr ≤ frame.len := by
  have small : ipIhl frame.mem frame.curr < 16 := Nat.mod_lt _ (by decide)
  have total : ipLen net.order frame.mem frame.curr < 65536 := ipLen_lt
  have ether := (net.netiftab frame.nif).ethernet
  simp only [tcplen, transport, tcpAt, ether, ETH_HDR_LEN, TCP_HDR_LEN] at *
  generalize ipIhl frame.mem frame.curr = ihl at *
  generalize ipLen net.order frame.mem frame.curr = iplen at *
  rw [sub32_lt bound (by decide), start]
  rw [WORD] at bound ⊢
  split <;> split <;> omega

theorem tcplen_transport (start : frame.curr = ETH_HDR_LEN) (bound : frame.len < WORD)
    (header : ipIhl frame.mem frame.curr * 4 + TCP_HDR_LEN ≤ ipLen net.order frame.mem frame.curr)
    (received : frame.curr + ipLen net.order frame.mem frame.curr ≤ frame.len) :
    tcplen (transport net frame) = tcpTotal net frame := by
  have lengths := (transport_lengths start bound).mpr ⟨header, received⟩
  rw [tcpTotal]
  omega

theorem tcpRecv_verified (order : ByteOrder) (tcptab : List Socket) (pkt : Packet) (src dst : Netaddr) :
    tcpRecv order tcptab pkt src dst ≠ .badChecksum ↔
      tcpChksum order pkt.mem pkt.curr (tcplen pkt) src dst = 0 := by
  simp only [tcpRecv]
  split
  · simp_all
  · split <;> simp_all

theorem tcpRecv_socket (order : ByteOrder) (tcptab : List Socket) (pkt : Packet) (src dst : Netaddr) :
    (∃ i, tcpRecv order tcptab pkt src dst = .socket i) ↔
      tcpChksum order pkt.mem pkt.curr (tcplen pkt) src dst = 0 ∧
        (tcpDemux tcptab (net2hs order (get16 order pkt.mem (pkt.curr + 2)))
          (net2hs order (get16 order pkt.mem pkt.curr)) dst src).isSome := by
  simp only [tcpRecv]
  split
  · simp_all
  · split <;> simp_all

theorem tcplen_lt : tcplen pkt < 65536 := by
  rw [tcplen]
  omega

theorem tcpSeglen_add {tcp : Int} (within : dataOffset mem tcp ≤ tcplen pkt) :
    tcpSeglen (tcplen pkt) (mem (tcp + 12)).toNat + dataOffset mem tcp = tcplen pkt := by
  have bound : tcplen pkt < 65536 := tcplen_lt
  rw [dataOffset] at within
  rw [tcpSeglen, dataOffset]
  omega

/-- A frame of any length and contents is safe to take exactly when its lengths agree. -/
theorem segments_contained_iff (tcptab : List Socket) (nif len : Nat) (mem : Int → Byte)
    (bound : len < WORD) :
    (∀ pkt src dst, ipv4Recv net (netRecv net nif len mem) = .tcpRecv pkt src dst →
      Contained net tcptab (netRecv net nif len mem) pkt src dst) ↔
    (isTcp net (netRecv net nif len mem) → Agreeing net tcptab (netRecv net nif len mem)) := by
  have start : (netRecv net nif len mem).curr = ETH_HDR_LEN := by
    rw [netRecv, (net.netiftab nif).ethernet]
  generalize taken : netRecv net nif len mem = frame at *
  have bounded : frame.len < WORD := by
    rw [← taken]
    exact bound
  constructor
  · intro contained tcp
    have ok := contained _ _ _ (ipv4Recv_tcp.mpr ⟨tcp, rfl, rfl, rfl⟩)
    obtain ⟨header, received⟩ :=
      (transport_lengths start bounded).mp ⟨ok.total, ok.header, ok.received⟩
    have length := tcplen_transport start bounded header received
    refine ⟨header, received, ?_, ?_⟩
    · intro verified
      rw [← length] at verified ⊢
      exact ok.offset ((tcpRecv_verified ..).mpr verified)
    · intro verified found
      rw [← length] at verified
      obtain ⟨i, socket⟩ := (tcpRecv_socket _ tcptab (transport net frame) _ _).mpr ⟨verified, found⟩
      exact (tcpRecvOpts_within 0).mp (ok.options i socket 0)
  · intro agreeing pkt src dst passed
    obtain ⟨tcp, rfl, rfl, rfl⟩ := ipv4Recv_tcp.mp passed
    have ok := agreeing tcp
    obtain ⟨total, header, received⟩ :=
      (transport_lengths start bounded).mpr ⟨ok.header, ok.received⟩
    have length := tcplen_transport start bounded ok.header ok.received
    have offset (verified : tcpRecv net.order tcptab (transport net frame)
        (ipAddr frame.mem (frame.curr + 12)) (ipAddr frame.mem (frame.curr + 16)) ≠ .badChecksum) :
        TCP_HDR_LEN ≤ dataOffset frame.mem (tcpAt frame) ∧
          dataOffset frame.mem (tcpAt frame) ≤ tcplen (transport net frame) := by
      rw [tcpRecv_verified, length] at verified
      rw [length]
      exact ok.offset verified
    have seglen (verified : tcpRecv net.order tcptab (transport net frame)
        (ipAddr frame.mem (frame.curr + 12)) (ipAddr frame.mem (frame.curr + 16)) ≠ .badChecksum) :
        tcpSeglen (tcplen (transport net frame)) (frame.mem (tcpAt frame + 12)).toNat +
          dataOffset frame.mem (tcpAt frame) = tcplen (transport net frame) :=
      tcpSeglen_add (offset verified).2
    refine ⟨total, header, received, offset, seglen, ?_, ?_⟩
    · intro i socket sndmss
      obtain ⟨verified, found⟩ := (tcpRecv_socket ..).mp ⟨i, socket⟩
      rw [length] at verified
      exact (tcpRecvOpts_within sndmss).mpr (ok.options verified found)
    · intro i socket
      have sum := seglen (by rw [socket]; simp)
      change tcpAt frame + _ + _ ≤ _
      change tcpAt frame + _ ≤ _ at received
      simp only [transport] at sum received ⊢
      omega

def listening : List Socket :=
  [{ isOpen := true
     localpt := 80
     remotept := 0
     localip := { type := ETHER_TYPE_IPv4, addr := [10, 0, 0, 1], bound := Netaddr.ipv4_fits }
     remoteip := { type := 0, addr := [], bound := Netaddr.empty_fits } }]

def overlongOffset : Int → Byte :=
  let mem := store (fun _ => 0) 14
    [0x45, 0, 0, 40, 0, 1, 0, 0, 64, 6, 0, 0, 10, 0, 0, 2, 10, 0, 0, 1,
      4, 0, 0, 80, 0, 0, 0, 1, 0, 0, 0, 0, 0xF0, 2, 4, 0, 0, 0, 0, 0]
  let mem := setChksum .little mem 14 20
  put16 .little mem 50 (tcpChksum .little mem 34 20 (ipAddr mem 26) (ipAddr mem 30))

theorem overlongOffset_contained_iff :
    54 < WORD ∧ ((∀ pkt src dst, ipv4Recv narrow (netRecv narrow 0 54 overlongOffset) =
        .tcpRecv pkt src dst →
        Contained narrow listening (netRecv narrow 0 54 overlongOffset) pkt src dst) ↔
      (isTcp narrow (netRecv narrow 0 54 overlongOffset) →
        Agreeing narrow listening (netRecv narrow 0 54 overlongOffset))) :=
  ⟨by decide, segments_contained_iff listening 0 54 overlongOffset (by decide)⟩

theorem overlongOffset_not_contained :
    ¬ ∀ pkt src dst, ipv4Recv narrow (netRecv narrow 0 54 overlongOffset) = .tcpRecv pkt src dst →
      Contained narrow listening (netRecv narrow 0 54 overlongOffset) pkt src dst := by
  intro contained
  have ok := contained (transport narrow (netRecv narrow 0 54 overlongOffset)) _ _
    (ipv4Recv_tcp.mpr ⟨by decide +kernel, rfl, rfl, rfl⟩)
  have taken : tcpRecv narrow.order listening (transport narrow (netRecv narrow 0 54 overlongOffset))
      (ipAddr (netRecv narrow 0 54 overlongOffset).mem ((netRecv narrow 0 54 overlongOffset).curr + 12))
      (ipAddr (netRecv narrow 0 54 overlongOffset).mem ((netRecv narrow 0 54 overlongOffset).curr + 16)) =
      .socket 0 := by decide +kernel
  have offset := (ok.offset (by rw [taken]; decide)).2
  exact absurd offset (by decide +kernel)

end Xinu
