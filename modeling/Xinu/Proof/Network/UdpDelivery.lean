import Xinu.Proof.Network.UdpFrame
import Xinu.Proof.Network.UdpInput

namespace Xinu
open Lib (Byte load store)

variable {order : ByteOrder} {mem : Int → Byte} {a : Int} {u : Udp} {payload frame : List Byte}

def Receivable (order : ByteOrder) (len : Nat) : Prop := order = .big ∨ len % 256 ≠ 228

instance {len : Nat} : Decidable (Receivable order len) := inferInstanceAs (Decidable (_ ∨ _))

theorem ipv4RecvValid_iff {len proto : Nat} {src dst : Netaddr} (fields : Ipv4Fields mem a len proto src dst)
    (bound : len < 65536) : ipv4RecvValid order mem a = true ↔ 20 ≤ hs2net order len := by
  have version : (mem a).toNat = 69 := by
    rw [fields.version]
    rfl
  have raw : get16 order mem (a + 2) = hs2net order len := by
    rw [← @net2hs_net16 order _ _ _ fields.len bound]
    exact (net2hs_hs2net get16_lt).symm
  have verifies := fields.verifies order
  rw [IPv4_HDR_LEN] at verifies
  simp [ipv4RecvValid, ipIhl, version, raw, verifies, IPv4_VERSION, IPv4_MIN_IHL, IPv4_MAX_IHL]

theorem receivable_iff {n : Nat} (bound : n ≤ 1024) : 20 ≤ hs2net order (n + 28) ↔ Receivable order n := by
  cases order with
  | big => simp [hs2net, Receivable]
  | little =>
      simp only [hs2net, Receivable, reduceCtorEq, false_or]
      omega

def received (net : Net) (nif : Nat) (frame padding : List Byte) : Packet :=
  netRecv net nif (frame ++ padding).length (inMemory (frame ++ padding))

variable {net : Net} {nif : Nat} {padding : List Byte}

theorem received_curr : (received net nif frame padding).curr = ETH_HDR_LEN := by
  rw [received, netRecv, (net.netiftab nif).ethernet]

theorem Carries.valid (carries : Carries u payload frame) (bound : payload.length ≤ UDP_MAX_DATALEN) :
    ipv4RecvValid net.order (received net nif frame padding).mem (received net nif frame padding).curr = true ↔
      Receivable net.order payload.length := by
  rw [UDP_MAX_DATALEN] at bound
  rw [received_curr, ← receivable_iff bound]
  exact ipv4RecvValid_iff (carries.ip padding) (by omega)

theorem Carries.handed (carries : Carries u payload frame) (sender : Sender u)
    (bound : payload.length ≤ UDP_MAX_DATALEN)
    (ours : ipv4RecvDemux net u.remoteip = true)
    (valid : ipv4RecvValid net.order (received net nif frame padding).mem (received net nif frame padding).curr = true) :
    ∃ pkt, ipv4Recv net (received net nif frame padding) = .udpRecv pkt u.localip u.remoteip ∧
      pkt.curr = (ETH_HDR_LEN + IPv4_HDR_LEN : Nat) ∧ pkt.mem = inMemory (frame ++ padding) ∧
      ETH_HDR_LEN + IPv4_HDR_LEN + UDP_HDR_LEN + payload.length ≤ pkt.len := by
  have fields : Ipv4Fields (received net nif frame padding).mem _ _ _ _ _ := carries.ip padding
  rw [← @received_curr frame net nif padding] at fields
  have src := ipAddr_of_load sender.localip fields.src
  have dst := ipAddr_of_load sender.remoteip fields.dst
  have whole : ipFlagsFroff net.order (received net nif frame padding).mem (received net nif frame padding).curr = 0 :=
    net2hs_net16 fields.froff (by decide)
  have proto : ((received net nif frame padding).mem ((received net nif frame padding).curr + 9)).toNat =
      IPv4_PROTO_UDP := by
    rw [fields.proto]
    rfl
  have ihl : ipIhl (received net nif frame padding).mem (received net nif frame padding).curr = 5 := by
    rw [ipIhl, fields.version]
    rfl
  have total : ipLen net.order (received net nif frame padding).mem (received net nif frame padding).curr =
      payload.length + UDP_HDR_LEN + IPv4_HDR_LEN :=
    net2hs_net16 fields.len (by rw [UDP_MAX_DATALEN] at bound; rw [UDP_HDR_LEN, IPv4_HDR_LEN]; omega)
  refine ⟨transport net (received net nif frame padding), ?_, ?_, rfl, ?_⟩
  · rw [ipv4Recv_transport valid (by rw [dst]; exact ours) (by rw [whole]; decide), if_pos proto, src, dst]
  · rw [transport, tcpAt, ihl, received_curr]
    rfl
  · have length := carries.length
    rw [transport, (net.netiftab _).ethernet, total]
    split
    · show _ ≤ ETH_HDR_LEN + _
      omega
    · show _ ≤ (frame ++ padding).length
      rw [List.length_append]
      omega

namespace Udps

structure Holds (order : ByteOrder) (u : Udp) (payload : List Byte) (buffer : Int → Byte) : Prop where
  len : udpLen order buffer UDP_PSEUDO_LEN = payload.length + UDP_HDR_LEN
  data : load buffer (UDP_PSEUDO_LEN + UDP_HDR_LEN) payload.length = payload
  srcIp : load buffer 0 IPv4_ADDR_LEN = u.localip.addr
  srcPort : udpSrcPort order buffer UDP_PSEUDO_LEN = u.localpt

theorem hostHeader_src (order : ByteOrder) (mem : Int → Byte) (a : Int) :
    udpSrcPort order (hostHeader order mem a) a = net2hs order (udpSrcPort order mem a) := by
  rw [hostHeader, udpSrcPort, get16_put16_apart (by omega), get16_put16_apart (by omega), get16_put16]
  exact Nat.mod_eq_of_lt (hs2net_lt get16_lt)

theorem hostHeader_dst (order : ByteOrder) (mem : Int → Byte) (a : Int) :
    udpDstPort order (hostHeader order mem a) a = net2hs order (udpDstPort order mem a) := by
  have first : udpDstPort order (put16 order mem a (net2hs order (udpSrcPort order mem a))) a =
      udpDstPort order mem a := get16_put16_apart (by omega)
  rw [hostHeader, first, udpDstPort, get16_put16_apart (by omega), get16_put16]
  exact Nat.mod_eq_of_lt (hs2net_lt get16_lt)

theorem hostHeader_after {i : Int} (behind : a + 6 ≤ i) : hostHeader order mem a i = mem i := by
  rw [hostHeader, put16_off (by omega) (by omega), put16_off (by omega) (by omega),
    put16_off (by omega) (by omega)]

variable {src dst : Netaddr} {srcPort dstPort : Nat}

theorem udpBuffer_holds (fields : UdpFields mem a u.localpt dstPort payload u.localip dst) (localip : u.localip.Ipv4)
    (localpt : u.localpt < 65536) (bound : payload.length ≤ UDP_MAX_DATALEN) :
    Holds order u payload (udpBuffer order (hostHeader order mem a) a u.localip dst) := by
  rw [UDP_MAX_DATALEN] at bound
  have len : udpLen order (hostHeader order mem a) a = payload.length + UDP_HDR_LEN := by
    rw [hostHeader_len]
    exact net2hs_net16 fields.len (by rw [UDP_HDR_LEN]; omega)
  have src : udpSrcPort order (hostHeader order mem a) a = u.localpt := by
    rw [hostHeader_src]
    exact net2hs_net16 fields.srcPort localpt
  have copied (k : Nat) (within : k < payload.length + UDP_HDR_LEN) :
      udpBuffer order (hostHeader order mem a) a u.localip dst ((UDP_PSEUDO_LEN : Int) + k) =
        hostHeader order mem a (a + k) := udpBuffer_copied (by rw [len]; exact within)
  constructor
  · rw [udpBuffer_len (by rw [len]; omega), len]
  · rw [← fields.data]
    simp only [Lib.length_load]
    apply Lib.load_shift
    intro i lo hi
    obtain ⟨k, rfl⟩ := Int.eq_ofNat_of_zero_le lo
    have byte := copied (UDP_HDR_LEN + k) (by omega)
    rw [hostHeader_after (by rw [UDP_HDR_LEN]; omega), Int.natCast_add, ← Int.add_assoc, ← Int.add_assoc] at byte
    exact byte
  · rw [udpBuffer, Lib.load_store_apart (by simp), pseudoHdr, load_put16_apart (by simp),
      Lib.load_store_apart (by simp), putAddr, Lib.load_store_apart (by simp), putAddr, localip.take]
    exact Lib.load_stored localip.2
  · rw [← src]
    apply get16_congr
    · have := copied 0 (by rw [UDP_HDR_LEN]; omega)
      simpa using this
    · exact copied 1 (by rw [UDP_HDR_LEN]; omega)

section
variable {tab tab' : Nat → Udp} {dstpt srcpt : Nat} {dstip srcip : Netaddr}

structure SameDevice (u u' : Udp) : Prop where
  passive : u'.passive = u.passive
  state : u'.state = u.state
  localpt : u'.localpt = u.localpt
  remotept : u'.remotept = u.remotept
  localip : u'.localip = u.localip
  remoteip : u'.remoteip = u.remoteip

theorem udpDemuxLoop_congr {fuel i : Nat} {best : Match} {found : Option Nat}
    (same : ∀ k, SameDevice (tab k) (tab' k)) :
    udpDemuxLoop tab' dstpt srcpt dstip srcip fuel i best found =
      udpDemuxLoop tab dstpt srcpt dstip srcip fuel i best found := by
  induction fuel generalizing i best found with
  | zero => rfl
  | succ fuel ih =>
      have here := same i
      simp only [udpDemuxLoop, here.state, here.localpt, here.remotept, here.localip, here.remoteip, ih]

theorem part_not_dest : ¬ Match.part.rank < Match.dest.rank := by decide

theorem udpDemuxLoop_next (tab : Nat → Udp) (dstpt srcpt : Nat) (dstip srcip : Netaddr) (fuel i : Nat) (best : Match)
    (found : Option Nat) :
    (udpDemuxLoop tab dstpt srcpt dstip srcip (fuel + 1) i best found = some i ∧ (tab i).state ≠ .free ∧
      (tab i).localip = dstip ∧ (tab i).localpt = dstpt ∧ best.rank < Match.full.rank ∧ (tab i).remotept = srcpt ∧
        (tab i).remoteip = srcip) ∨
    ∃ best' found', udpDemuxLoop tab dstpt srcpt dstip srcip (fuel + 1) i best found =
        udpDemuxLoop tab dstpt srcpt dstip srcip fuel (i + 1) best' found' ∧
      (best' = best ∧ found' = found ∨ best'.rank < Match.full.rank ∧ found' = some i ∧ (tab i).state ≠ .free ∧
        (tab i).localip = dstip ∧ (tab i).localpt = dstpt) := by
  by_cases free : (tab i).state = .free
  · exact .inr ⟨best, found, by simp [udpDemuxLoop, free], .inl ⟨rfl, rfl⟩⟩
  by_cases elsewhere : (tab i).localip = dstip
  · by_cases full : best.rank < Match.full.rank ∧ (tab i).localpt = dstpt ∧ (tab i).remotept = srcpt ∧
        (tab i).remoteip = srcip
    · exact .inl ⟨by simp [udpDemuxLoop, free, elsewhere, full], free, elsewhere, full.2.1, full.1, full.2.2⟩
    · right
      have matched (best' : Match) (rank : best'.rank < Match.full.rank) (port : (tab i).localpt = dstpt) :
          best'.rank < Match.full.rank ∧ some i = some i ∧ (tab i).state ≠ .free ∧ (tab i).localip = dstip ∧
            (tab i).localpt = dstpt := ⟨rank, rfl, free, elsewhere, port⟩
      rw [udpDemuxLoop]
      simp only
      rw [if_neg free, if_neg (not_not.mpr elsewhere), if_neg full]
      by_cases part : best.rank < Match.part.rank ∧ (tab i).localpt = dstpt ∧ (tab i).remotept = srcpt ∧
          (tab i).remoteip.type = 0
      · rw [if_pos part, if_neg (fun dest => part_not_dest dest.1)]
        exact ⟨_, _, rfl, .inr (matched .part (by decide) part.2.1)⟩
      · rw [if_neg part]
        by_cases dest : best.rank < Match.dest.rank ∧ (tab i).localpt = dstpt ∧ (tab i).remotept = 0 ∧
            (tab i).remoteip.type = 0
        · rw [if_pos dest]
          exact ⟨_, _, rfl, .inr (matched .dest (by decide) dest.2.1)⟩
        · rw [if_neg dest]
          exact ⟨_, _, rfl, .inl ⟨rfl, rfl⟩⟩
  · exact .inr ⟨best, found, by simp [udpDemuxLoop, free, elsewhere], .inl ⟨rfl, rfl⟩⟩

theorem udpDemuxLoop_some {fuel i j : Nat} {best : Match} {found : Option Nat}
    (result : udpDemuxLoop tab dstpt srcpt dstip srcip fuel i best found = some j) :
    found = some j ∨ i ≤ j ∧ (tab j).state ≠ .free ∧ (tab j).localip = dstip ∧ (tab j).localpt = dstpt := by
  induction fuel generalizing i best found with
  | zero => exact .inl result
  | succ fuel ih =>
      rcases udpDemuxLoop_next tab dstpt srcpt dstip srcip fuel i best found with
        ⟨full, state, localip, localpt, -⟩ | ⟨best', found', next, update⟩
      · rw [full] at result
        cases result
        exact .inr ⟨Nat.le_refl _, state, localip, localpt⟩
      · rw [next] at result
        rcases ih result with before | ⟨later, rest⟩
        · rcases update with ⟨-, rfl⟩ | ⟨-, rfl, rest⟩
          · exact .inl before
          · cases before
            exact .inr ⟨Nat.le_refl _, rest⟩
        · exact .inr ⟨by omega, rest⟩

theorem udpDemuxLoop_bound {fuel i j : Nat} {best : Match} {found : Option Nat}
    (same : ∀ k ≠ j, SameDevice (tab k) (tab' k)) (state : (tab' j).state = (tab j).state)
    (localpt : (tab' j).localpt = (tab j).localpt) (localip : (tab' j).localip = dstip)
    (remotept : (tab' j).remotept = srcpt) (remoteip : (tab' j).remoteip = srcip)
    (rank : best.rank < Match.full.rank) (new : found ≠ some j)
    (result : udpDemuxLoop tab dstpt srcpt dstip srcip fuel i best found = some j) :
    udpDemuxLoop tab' dstpt srcpt dstip srcip fuel i best found = some j := by
  induction fuel generalizing i best found with
  | zero => exact absurd result new
  | succ fuel ih =>
      by_cases self : i = j
      · subst self
        rcases udpDemuxLoop_some result with before | ⟨-, opened, -, port⟩
        · exact absurd before new
        · have full : best.rank < Match.full.rank ∧ (tab' i).localpt = dstpt ∧ (tab' i).remotept = srcpt ∧
              (tab' i).remoteip = srcip := ⟨rank, localpt.trans port, remotept, remoteip⟩
          rw [udpDemuxLoop]
          simp only
          rw [if_neg (by rw [state]; exact opened), if_neg (not_not.mpr localip), if_pos full]
      · have here := same i self
        have other : some i ≠ some j := by
          rintro ⟨⟩
          exact self rfl
        simp only [udpDemuxLoop, here.state, here.localpt, here.remotept, here.localip, here.remoteip] at result ⊢
        by_cases free : (tab i).state = .free
        · rw [if_pos free] at result ⊢
          exact ih rank new result
        rw [if_neg free] at result ⊢
        by_cases elsewhere : (tab i).localip ≠ dstip
        · rw [if_pos elsewhere] at result ⊢
          exact ih rank new result
        rw [if_neg elsewhere] at result ⊢
        split at result
        · exact absurd result other
        · rename_i full
          rw [if_neg full]
          by_cases part : best.rank < Match.part.rank ∧ (tab i).localpt = dstpt ∧ (tab i).remotept = srcpt ∧
              (tab i).remoteip.type = 0
          · rw [if_pos part, if_neg (fun dest => part_not_dest dest.1)] at result ⊢
            exact ih (show Match.part.rank < Match.full.rank by decide) other result
          · rw [if_neg part] at result ⊢
            by_cases dest : best.rank < Match.dest.rank ∧ (tab i).localpt = dstpt ∧ (tab i).remotept = 0 ∧
                (tab i).remoteip.type = 0
            · rw [if_pos dest] at result ⊢
              exact ih (show Match.dest.rank < Match.full.rank by decide) other result
            · rw [if_neg dest] at result ⊢
              exact ih rank new result
end

theorem udpTarget_some {s : Udps} {pkt : Packet} {j : Nat} (fields : UdpFields pkt.mem pkt.curr srcPort dstPort payload src dst)
    (srcBound : srcPort < 65536) (dstBound : dstPort < 65536) (bound : payload.length ≤ UDP_MAX_DATALEN)
    (found : udpDemux s dstPort srcPort dst src = some j) (room : (s.udptab j).icount < UDP_MAX_PKTS) :
    s.udpTarget pkt src dst = some j := by
  rw [UDP_MAX_DATALEN] at bound
  have len : net2hs s.order (udpLen s.order pkt.mem pkt.curr) = payload.length + UDP_HDR_LEN :=
    net2hs_net16 fields.len (by rw [UDP_HDR_LEN]; omega)
  have srcpt : udpSrcPort s.order (hostHeader s.order pkt.mem pkt.curr) pkt.curr = srcPort := by
    rw [hostHeader_src]
    exact net2hs_net16 fields.srcPort srcBound
  have dstpt : udpDstPort s.order (hostHeader s.order pkt.mem pkt.curr) pkt.curr = dstPort := by
    rw [hostHeader_dst]
    exact net2hs_net16 fields.dstPort dstBound
  simp only [udpTarget, len, fields.verifies, ne_eq, not_true_eq_false, and_false, if_false, srcpt, dstpt, found]
  rw [if_neg (by omega)]

theorem SameDevice.refl (u : Udp) : SameDevice u u := ⟨rfl, rfl, rfl, rfl, rfl, rfl⟩

structure Quiet (s s' : Udps) : Prop where
  order : s'.order = s.order
  nudp : s'.nudp = s.nudp
  arrived : s'.arrived = s.arrived
  devices : ∀ k, SameDevice (s.udptab k) (s'.udptab k)

theorem Quiet.trans {s₁ s₂ s₃ : Udps} (fst : Quiet s₁ s₂) (snd : Quiet s₂ s₃) : Quiet s₁ s₃ := by
  refine ⟨snd.order.trans fst.order, snd.nudp.trans fst.nudp, snd.arrived.trans fst.arrived, fun k => ?_⟩
  have first := fst.devices k
  have second := snd.devices k
  exact ⟨second.passive.trans first.passive, second.state.trans first.state, second.localpt.trans first.localpt,
    second.remotept.trans first.remotept, second.localip.trans first.localip, second.remoteip.trans first.remoteip⟩

theorem setUdp_same {s : Udps} {i : Nat} {v : Udp} (same : SameDevice (s.udptab i) v) :
    ∀ k, SameDevice (s.udptab k) ((s.setUdp i v).udptab k) := by
  intro k
  by_cases self : k = i
  · rw [self, setUdp_self]
    exact same
  · rw [setUdp_other _ _ self]
    exact .refl _

theorem signal_quiet (s : Udps) (i : Nat) : Quiet s (s.signal i) :=
  ⟨rfl, rfl, rfl, setUdp_same ⟨rfl, rfl, rfl, rfl, rfl, rfl⟩⟩

theorem udpTake_quiet (s : Udps) (t : Nat) (reader : UdpReader) : Quiet s (s.udpTake t reader) := by
  simp only [udpTake]
  split
  · exact ⟨rfl, rfl, rfl, fun k => .refl _⟩
  · exact ⟨rfl, rfl, rfl, setUdp_same ⟨rfl, rfl, rfl, rfl, rfl, rfl⟩⟩

theorem udpRead_quiet (s : Udps) (t i len : Nat) : Quiet s (s.udpRead t i len) := by
  simp only [udpRead]
  split
  · exact ⟨rfl, rfl, rfl, fun k => .refl _⟩
  · split
    · exact ⟨rfl, rfl, rfl, fun k => .refl _⟩
    · have waited (isem : Lib.Sem) : Quiet s (s.setUdp i { s.udptab i with isem }) :=
        ⟨rfl, rfl, rfl, setUdp_same ⟨rfl, rfl, rfl, rfl, rfl, rfl⟩⟩
      split
      · rename_i isem _
        exact ⟨rfl, rfl, rfl, (waited isem).devices⟩
      · rename_i isem _
        exact (waited isem).trans (udpTake_quiet _ _ _)

theorem resume_quiet (s : Udps) (t : Nat) : Quiet s (s.resume t) := by
  rw [resume]
  split
  · exact ⟨rfl, rfl, rfl, fun k => .refl _⟩
  · rename_i reader _
    have woken : Quiet s { s with
        woken := Function.update s.woken reader.dev ((s.woken reader.dev).erase t) } :=
      ⟨rfl, rfl, rfl, fun k => .refl _⟩
    exact woken.trans (udpTake_quiet _ _ _)

def reading (j : Nat) : Op → Udps → Udps → List Byte
  | .read t i _, _, s' => if i = j ∧ s'.readers t = none then s'.data t else []
  | .resume t, s, s' => if (s.readers t).map UdpReader.dev = some j then s'.data t else []
  | _, _, _ => []

theorem udpTake_taken {s : Udps} {t : Nat} {reader : UdpReader} (opened : (s.udptab reader.dev).state = .opened) :
    (s.udpTake t reader).taken reader.dev =
        s.taken reader.dev ++ [(s.udptab reader.dev).inb (s.udptab reader.dev).istart] ∧
      (s.udpTake t reader).readers t = none := by
  simp [udpTake, opened, returns]

theorem reading_nil {s s' : Udps} {op : Op} {j : Nat} (opened : (s.udptab j).state = .opened)
    (action : step op s = some s') (same : s'.taken j = s.taken j) : reading j op s s' = [] := by
  have grown {buffer : Int → Byte} {l : List (Int → Byte)} : l ++ [buffer] ≠ l := by
    intro less
    have := congrArg List.length less
    simp at this
  cases op with
  | recv => rfl
  | signal => rfl
  | read t i len =>
      rw [step] at action
      split at action
      · cases action
        by_cases self : i = j
        · subst self
          have result : reading i (.read t i len) s (s.udpRead t i len) =
              if (s.udpRead t i len).readers t = none then (s.udpRead t i len).data t else [] := by simp [reading]
          rw [result]
          revert same
          simp only [udpRead, opened, ne_eq, not_true_eq_false, if_false]
          split
          · simp [returns]
          · split
            · simp
            · intro same
              refine absurd ((@udpTake_taken _ t ⟨i, len⟩ ?_).1.symm.trans same) grown
              rw [setUdp_self]
        · simp [reading, self]
      · cases action
  | resume t =>
      rw [step] at action
      split at action
      · rename_i waits
        cases action
        obtain ⟨reader, reads, -⟩ := waits
        simp only [reading, reads, Option.map_some, Option.some.injEq]
        split
        · rename_i self
          subst self
          simp only [resume, reads] at same
          refine absurd ((@udpTake_taken _ t reader ?_).1.symm.trans same) grown
          exact opened
        · rfl
      · cases action

/-- The device `j` is open, and it is the one that the datagrams of `u` are for. -/
structure Peer (s : Udps) (u : Udp) (j : Nat) : Prop where
  opened : (s.udptab j).state = .opened
  active : (s.udptab j).passive = false
  found : udpDemux s u.remotept u.localpt u.remoteip u.localip = some j

theorem Peer.quiet {s s' : Udps} {j : Nat} (peer : Peer s u j) (quiet : Quiet s s') : Peer s' u j := by
  have device := quiet.devices j
  refine ⟨device.state.trans peer.opened, device.passive.trans peer.active, ?_⟩
  rw [udpDemux, quiet.nudp, udpDemuxLoop_congr quiet.devices]
  exact peer.found

theorem step_quiet {s s' : Udps} {op : Op} (thread : ∀ pkt src dst, op ≠ .recv pkt src dst)
    (action : step op s = some s') : Quiet s s' := by
  cases op with
  | recv pkt src dst => exact absurd rfl (thread pkt src dst)
  | signal i =>
      rw [step] at action
      split at action
      · cases action
        exact signal_quiet s i
      · cases action
  | read t i len =>
      rw [step] at action
      split at action
      · cases action
        exact udpRead_quiet s t i len
      · cases action
  | resume t =>
      rw [step] at action
      split at action
      · cases action
        exact resume_quiet s t
      · cases action

theorem udpTake_readers {s : Udps} {t t' : Nat} {reader reader' : UdpReader}
    (reads : (s.udpTake t reader).readers t' = some reader') : s.readers t' = some reader' := by
  have same : (s.udpTake t reader).readers = Function.update s.readers t none := by
    simp only [udpTake]
    split <;> rfl
  rw [same] at reads
  by_cases self : t' = t
  · subst self
    simp at reads
  · rwa [Function.update_of_ne self] at reads

theorem step_readers {s s' : Udps} {op : Op} {t : Nat} {reader : UdpReader} (thread : ∀ pkt src dst, op ≠ .recv pkt src dst)
    (action : step op s = some s') (reads : s'.readers t = some reader) :
    s.readers t = some reader ∨ op = .read t reader.dev reader.len := by
  have returned {s : Udps} {t' : Nat} {result : Int} {data : List Byte}
      (reads : (s.returns t' result data).readers t = some reader) : s.readers t = some reader := by
    by_cases self : t = t'
    · subst self
      simp [returns] at reads
    · simpa [returns, self] using reads
  cases op with
  | recv pkt src dst => exact absurd rfl (thread pkt src dst)
  | signal i =>
      rw [step] at action
      split at action
      · cases action
        exact .inl reads
      · cases action
  | read t' i len =>
      rw [step] at action
      split at action
      · cases action
        simp only [udpRead] at reads
        split at reads
        · exact .inl (returned reads)
        · split at reads
          · exact .inl (returned reads)
          · split at reads
            · by_cases self : t = t'
              · subst self
                simp only [Function.update_self, Option.some.injEq] at reads
                subst reads
                exact .inr rfl
              · simp only [Function.update_of_ne self] at reads
                exact .inl reads
            · have before := udpTake_readers reads
              exact .inl before
      · cases action
  | resume t' =>
      rw [step] at action
      split at action
      · cases action
        rw [resume] at reads
        split at reads
        · exact .inl reads
        · have before := udpTake_readers reads
          exact .inl before
      · cases action

structure Kept (s s' : Udps) (i srcpt : Nat) (src dst : Netaddr) : Prop where
  nudp : s'.nudp = s.nudp
  readers : s'.readers = s.readers
  passive : (s'.udptab i).passive = (s.udptab i).passive
  state : (s'.udptab i).state = (s.udptab i).state
  localpt : (s'.udptab i).localpt = (s.udptab i).localpt
  bound : SameDevice (s.udptab i) (s'.udptab i) ∨
    (s'.udptab i).remotept = srcpt ∧ (s'.udptab i).localip = dst ∧ (s'.udptab i).remoteip = src

theorem udpRecv_kept {s s' : Udps} {pkt : Packet} {i : Nat} {result : Int} (target : s.udpTarget pkt src dst = some i)
    (recv : s.udpRecv pkt src dst = some (s', result)) :
    Kept s s' i (udpSrcPort s.order (hostHeader s.order pkt.mem pkt.curr) pkt.curr) src dst := by
  simp only [udpRecv, target] at recv
  split at recv
  · split at recv
    · cases recv
    · cases recv
      exact ⟨rfl, rfl, by simp, by simp, by simp, .inr (by simp)⟩
  · split at recv
    · cases recv
    · cases recv
      exact ⟨rfl, rfl, by simp, by simp, by simp, .inl (by simpa using ⟨rfl, rfl, rfl, rfl, rfl, rfl⟩)⟩

theorem udpRecv_peer {s : Udps} {pkt : Packet} {j : Nat} (valid : Valid s) (peer : Peer s u j) (sender : Sender u)
    (fields : UdpFields pkt.mem pkt.curr u.localpt u.remotept payload u.localip u.remoteip)
    (bound : payload.length ≤ UDP_MAX_DATALEN) (consistent : pkt.UdpConsistent s.order)
    (room : (s.udptab j).icount < UDP_MAX_PKTS) :
    ∃ s' buffer, s.udpRecv pkt u.localip u.remoteip = some (s', OK) ∧ Valid s' ∧ Peer s' u j ∧ s'.order = s.order ∧
      s'.readers = s.readers ∧ s'.taken = s.taken ∧ (s'.udptab j).icount = (s.udptab j).icount + 1 ∧
      s'.arrived j = s.arrived j ++ [buffer] ∧ Holds s.order u payload buffer := by
  have target := udpTarget_some fields sender.localpt sender.remotept bound peer.found room
  have pool := (valid j peer.opened).pool
  obtain ⟨s', recv, received⟩ := udpRecv_some target (by omega)
  have kept := udpRecv_kept target recv
  have srcpt : udpSrcPort s.order (hostHeader s.order pkt.mem pkt.curr) pkt.curr = u.localpt := by
    rw [hostHeader_src]
    exact net2hs_net16 fields.srcPort sender.localpt
  rw [srcpt] at kept
  refine ⟨s', _, recv, (udpRecv_valid valid (fun i found _ => consistent) recv).1,
    ⟨kept.state.trans peer.opened, kept.passive.trans peer.active, ?_⟩, received.same.1, kept.readers,
    received.same.2.2, received.icount, received.arrived, udpBuffer_holds fields sender.localip sender.localpt bound⟩
  have others (k : Nat) (other : k ≠ j) : SameDevice (s.udptab k) (s'.udptab k) := by
    rw [(received.others k other).1]
    exact .refl _
  rw [udpDemux, kept.nudp]
  rcases kept.bound with same | ⟨remotept, localip, remoteip⟩
  · rw [udpDemuxLoop_congr (fun k => if self : k = j then self ▸ same else others k self)]
    exact peer.found
  · exact udpDemuxLoop_bound others kept.state kept.localpt localip remotept remoteip (by decide) nofun peer.found

end Udps

structure Link where
  s : Udps
  inFlight : List (List Byte)
  rejected : List (List Byte)
  -- what the readers of the device have got
  got : List Byte

namespace Link

inductive Event
  | deliver (padding : List Byte)
  | op (o : Udps.Op)

def step (net : Net) (nif j : Nat) : Event → Link → Option Link
  | .deliver padding, l =>
      match l.inFlight with
      | [] => none
      | frame :: rest =>
          match ipv4Recv net (received net nif frame padding) with
          | .udpRecv pkt src dst =>
              (l.s.udpRecv pkt src dst).map fun (s, result) =>
                { l with s, inFlight := rest
                         rejected := if result = OK then l.rejected else l.rejected ++ [frame] }
          | _ => some { l with inFlight := rest, rejected := l.rejected ++ [frame] }
  | .op o, l => (Udps.step o l.s).map fun s => { l with s, got := l.got ++ Udps.reading j o l.s s }

/-- Nothing else is received, the ring is not full, and the buffers of the readers are large enough. -/
def Undisturbed (j : Nat) (l : Link) : Event → Prop
  | .deliver _ => (l.s.udptab j).icount < UDP_MAX_PKTS
  | .op o => (∀ pkt src dst, o ≠ .recv pkt src dst) ∧ ∀ t len, o = .read t j len → UDP_MAX_DATALEN ≤ len

def start (s : Udps) (frames : List (List Byte)) : Link := ⟨s, frames, [], []⟩

structure Carried (order : ByteOrder) (u : Udp) (j : Nat) (payloads : List (List Byte)) (l : Link) : Prop where
  valid : Udps.Valid l.s
  machine : l.s.order = order
  peer : Udps.Peer l.s u j
  readers : ∀ t reader, l.s.readers t = some reader → reader.dev = j → UDP_MAX_DATALEN ≤ reader.len
  rejected : l.rejected = []
  frames : ∃ before after, payloads = before ++ after ∧
    List.Forall₂ (Udps.Holds order u) before (l.s.arrived j) ∧ List.Forall₂ (Carries u) after l.inFlight
  got : l.got = (payloads.take (l.s.taken j).length).flatten

variable {l l' : Link} {j : Nat} {payloads : List (List Byte)}

theorem deliver_carried (padding : List Byte) (sender : Sender u) (ours : ipv4RecvDemux net u.remoteip = true)
    (bounds : ∀ p ∈ payloads, p.length ≤ UDP_MAX_DATALEN) (receivable : ∀ p ∈ payloads, Receivable net.order p.length)
    (carried : Carried net.order u j payloads l) (room : (l.s.udptab j).icount < UDP_MAX_PKTS)
    (flies : l.inFlight ≠ []) :
    ∃ l', step net nif j (.deliver padding) l = some l' ∧ Carried net.order u j payloads l' ∧
      l'.inFlight = l.inFlight.tail ∧ (l'.s.udptab j).icount = (l.s.udptab j).icount + 1 := by
  obtain ⟨before, after, rfl, arrived, flying⟩ := carried.frames
  cases flight : l.inFlight with
  | nil => exact absurd flight flies
  | cons frame rest =>
      rw [flight] at flying
      cases flying with
      | cons carries others =>
          rename_i payload after
          have member : payload ∈ before ++ payload :: after := by simp
          have bound := bounds payload member
          have valid := (@Carries.valid _ _ _ net nif padding carries bound).mpr (receivable payload member)
          obtain ⟨pkt, handed, curr, mem, long⟩ := carries.handed sender bound ours valid
          have fields : UdpFields pkt.mem pkt.curr u.localpt u.remotept payload u.localip u.remoteip := by
            rw [mem, curr]
            exact carries.udp padding
          have consistent : pkt.UdpConsistent l.s.order := by
            have length : pkt.udpLength l.s.order = payload.length + UDP_HDR_LEN :=
              net2hs_net16 fields.len (by rw [UDP_MAX_DATALEN] at bound; rw [UDP_HDR_LEN]; omega)
            rw [UDP_MAX_DATALEN] at bound
            simp only [ETH_HDR_LEN, IPv4_HDR_LEN, UDP_HDR_LEN] at long curr length
            rw [Packet.UdpConsistent, Packet.received, length, curr, UDP_HDR_LEN, UDP_BUF_LEN, NET_MAX_PKTLEN,
              UDP_PSEUDO_LEN]
            omega
          obtain ⟨s', buffer, recv, valid', peer', order', readers', taken', more, arrived', holds⟩ :=
            Udps.udpRecv_peer carried.valid carried.peer sender fields bound consistent room
          refine ⟨{ l with s := s', inFlight := rest }, ?_, ?_, rfl, more⟩
          · rw [step, flight]
            simp only [handed, recv, Option.map_some, if_true]
          · refine ⟨valid', order'.trans carried.machine, peer', ?_, carried.rejected,
              ⟨before ++ [payload], after, by simp, ?_, others⟩, ?_⟩
            · intro t reader reads
              exact carried.readers t reader (readers' ▸ reads)
            · show List.Forall₂ _ _ (s'.arrived j)
              rw [arrived']
              exact List.rel_append arrived (.cons (carried.machine ▸ holds) .nil)
            · show l.got = (_ : List (List Byte)).flatten
              rw [taken']
              exact carried.got

theorem take_next {order : ByteOrder} {before after : List (List Byte)} {taken rest : List (Int → Byte)} {buffer : Int → Byte}
    (arrived : List.Forall₂ (Udps.Holds order u) before (taken ++ buffer :: rest)) :
    ∃ payload, (before ++ after)[taken.length]? = some payload ∧ Udps.Holds order u payload buffer := by
  have later := List.forall₂_drop_append _ _ _ arrived
  cases dropped : before.drop taken.length with
  | nil => simp [dropped] at later
  | cons payload others =>
      rw [dropped] at later
      cases later with
      | cons holds _ =>
          have place : before[taken.length]? = some payload := by rw [← List.head?_drop, dropped]; rfl
          have within := (List.getElem?_eq_some_iff.mp place).1
          exact ⟨payload, by rw [List.getElem?_append_left within, place], holds⟩

structure NextPayload (payloads : List (List Byte)) (j t : Nat) (s s' : Udps) : Prop where
  next : payloads[(s.taken j).length]? = some (s'.data t)
  returned : s'.returned t = (s'.data t).length
  taken : (s'.taken j).length = (s.taken j).length + 1
  icount : (s'.udptab j).icount + 1 = (s.udptab j).icount

theorem read_next {op : Udps.Op} {s' : Udps} {t len : Nat} {buffer : Int → Byte}
    (bounds : ∀ p ∈ payloads, p.length ≤ UDP_MAX_DATALEN) (carried : Carried order u j payloads l)
    (large : ∀ t len, op = .read t j len → UDP_MAX_DATALEN ≤ len) (gets : l.s.behindWait op = some (t, ⟨j, len⟩))
    (read : Udps.Read l.s s' t ⟨j, len⟩ buffer) : NextPayload payloads j t l.s s' := by
  obtain ⟨before, after, rfl, arrived, -⟩ := carried.frames
  have fifo := (carried.valid j carried.peer.opened).order
  rw [read.ring] at fifo
  obtain ⟨payload, next, holds⟩ := @take_next _ _ _ after _ _ _ (fifo ▸ arrived)
  have bound := bounds payload (List.mem_of_getElem? next)
  have enough : UDP_MAX_DATALEN ≤ len := by
    rcases Udps.behindWait_cases gets with rfl | ⟨rfl, reader⟩
    · exact large t len rfl
    · exact carried.readers t ⟨j, len⟩ reader rfl
  have extent : min len (Udps.payload l.s.order (l.s.udptab j).passive buffer).1 = payload.length := by
    rw [Udps.payload, carried.peer.active, if_neg Bool.false_ne_true, carried.machine]
    show min len (udpLen order buffer UDP_PSEUDO_LEN - UDP_HDR_LEN) = _
    rw [holds.len]
    omega
  have data : s'.data t = payload := by
    rw [read.data, extent, Udps.payload, carried.peer.active, if_neg Bool.false_ne_true]
    exact holds.data
  refine ⟨by rw [data]; exact next, ?_, ?_, read.icount⟩
  · rw [read.returned, extent, data]
  · rw [read.taken, List.length_append, List.length_singleton]

theorem op_reads {op : Udps.Op} {s' : Udps} (carried : Carried order u j payloads l)
    (thread : ∀ pkt src dst, op ≠ .recv pkt src dst) (action : Udps.step op l.s = some s') :
    Udps.Valid s' ∧ Udps.Reads l.s s' op j := by
  have consistent : Udps.Consistent l.s op := by
    cases op with
    | recv pkt src dst => exact absurd rfl (thread pkt src dst)
    | signal => trivial
    | read => trivial
    | resume => trivial
  obtain ⟨valid', reads⟩ := Udps.step_valid carried.valid consistent action
  exact ⟨valid', reads j carried.peer.opened⟩

theorem op_gets {op : Udps.Op} {t len : Nat} (bounds : ∀ p ∈ payloads, p.length ≤ UDP_MAX_DATALEN)
    (carried : Carried net.order u j payloads l) (thread : ∀ pkt src dst, op ≠ .recv pkt src dst)
    (large : ∀ t len, op = .read t j len → UDP_MAX_DATALEN ≤ len) (gets : l.s.behindWait op = some (t, ⟨j, len⟩))
    (action : step net nif j (.op op) l = some l') :
    NextPayload payloads j t l.s l'.s ∧ l'.got = l.got ++ l'.s.data t := by
  simp only [step, Option.map_eq_some_iff] at action
  obtain ⟨s', action, rfl⟩ := action
  obtain ⟨buffer, read⟩ := (op_reads carried thread action).2.takes t len gets
  refine ⟨read_next bounds carried large gets read, ?_⟩
  show l.got ++ Udps.reading j op l.s s' = l.got ++ s'.data t
  rcases Udps.behindWait_cases gets with rfl | ⟨rfl, reader⟩
  · simp [Udps.reading, read.done]
  · simp [Udps.reading, reader]

theorem op_carried {op : Udps.Op} (bounds : ∀ p ∈ payloads, p.length ≤ UDP_MAX_DATALEN)
    (carried : Carried net.order u j payloads l) (thread : ∀ pkt src dst, op ≠ .recv pkt src dst)
    (large : ∀ t len, op = .read t j len → UDP_MAX_DATALEN ≤ len)
    (action : step net nif j (.op op) l = some l') : Carried net.order u j payloads l' := by
  have stepped := action
  simp only [step, Option.map_eq_some_iff] at action
  obtain ⟨s', action, rfl⟩ := action
  have quiet := Udps.step_quiet thread action
  obtain ⟨valid', reads⟩ := op_reads carried thread action
  obtain ⟨before, after, split, arrived, flying⟩ := carried.frames
  refine ⟨valid', quiet.order.trans carried.machine, carried.peer.quiet quiet, ?_, carried.rejected,
    ⟨before, after, split, ?_, flying⟩, ?_⟩
  · intro t reader reads dev
    rcases Udps.step_readers thread action reads with before | begins
    · exact carried.readers t reader before dev
    · exact large t reader.len (by rw [begins, dev])
  · show List.Forall₂ _ before (s'.arrived j)
    rw [quiet.arrived]
    exact arrived
  · by_cases gets : ∃ t len, l.s.behindWait op = some (t, ⟨j, len⟩)
    · obtain ⟨t, len, gets⟩ := gets
      obtain ⟨next, got⟩ := op_gets bounds carried thread large gets stepped
      rw [got, carried.got, next.taken, List.take_add_one, next.next]
      simp
    · have same := reads.keeps fun t len gets' => gets ⟨t, len, gets'⟩
      show l.got ++ _ = _
      rw [Udps.reading_nil carried.peer.opened action same, List.append_nil, same]
      exact carried.got

/-- The frames of a write are accepted, and read as what was written by the device that wrote it. -/
structure EndToEnd (net rnet : Net) (nif j : Nat) (u : Udp) (s : Udps) (data : List Byte) : Prop where
  written : (udpWrite net u data).2 = data.length
  valid : ∀ sent ∈ (udpWrite net u data).1.frames, ∀ padding,
    ipv4RecvValid rnet.order (received rnet nif sent.2 padding).mem (received rnet nif sent.2 padding).curr = true
  delivered : ∀ l, Lib.Reach (step rnet nif j) (Undisturbed j)
      (start s ((udpWrite net u data).1.frames.map Prod.snd)) l →
    l.rejected = [] ∧ l.got <+: data ∧ (l.inFlight = [] → (l.s.udptab j).icount = 0 → l.got = data) ∧
      ∀ buffer ∈ l.s.arrived j, load buffer 0 IPv4_ADDR_LEN = u.localip.addr ∧
        udpSrcPort rnet.order buffer UDP_PSEUDO_LEN = u.localpt
  arrives : ∀ l, Lib.Reach (step rnet nif j) (Undisturbed j)
      (start s ((udpWrite net u data).1.frames.map Prod.snd)) l → l.inFlight ≠ [] →
    (l.s.udptab j).icount < UDP_MAX_PKTS → ∀ padding, ∃ l', step rnet nif j (.deliver padding) l = some l' ∧
      l'.inFlight = l.inFlight.tail ∧ (l'.s.udptab j).icount = (l.s.udptab j).icount + 1
  read : ∀ l, Lib.Reach (step rnet nif j) (Undisturbed j)
      (start s ((udpWrite net u data).1.frames.map Prod.snd)) l →
    ∀ op l' t len, Undisturbed j l (.op op) → l.s.behindWait op = some (t, ⟨j, len⟩) →
      step rnet nif j (.op op) l = some l' →
      NextPayload (udpPayloads data.length data) j t l.s l'.s ∧ l'.got = l.got ++ l'.s.data t

theorem forall₂_left {α β : Type} {R : α → β → Prop} {xs : List α} {ys : List β} {y : β}
    (related : List.Forall₂ R xs ys) (member : y ∈ ys) : ∃ x ∈ xs, R x y := by
  induction related with
  | nil => cases member
  | cons fst _ ih =>
      rcases List.mem_cons.mp member with rfl | later
      · exact ⟨_, .head _, fst⟩
      · obtain ⟨x, member, rel⟩ := ih later
        exact ⟨x, .tail _ member, rel⟩

theorem Carried.delivered {order : ByteOrder} {data : List Byte} (whole : payloads.flatten = data)
    (carried : Carried order u j payloads l) :
    l.rejected = [] ∧ l.got <+: data ∧ (l.inFlight = [] → (l.s.udptab j).icount = 0 → l.got = data) ∧
      ∀ buffer ∈ l.s.arrived j, load buffer 0 IPv4_ADDR_LEN = u.localip.addr ∧
        udpSrcPort order buffer UDP_PSEUDO_LEN = u.localpt := by
  obtain ⟨before, after, split, arrived, flying⟩ := carried.frames
  have got := carried.got
  refine ⟨carried.rejected, ?_, ?_, ?_⟩
  · rw [got, ← whole]
    exact ⟨(payloads.drop (l.s.taken j).length).flatten, by rw [← List.flatten_append, List.take_append_drop]⟩
  · intro landed empty
    rw [landed] at flying
    cases flying
    have order := (carried.valid j carried.peer.opened).order
    rw [Udps.ring, empty, Lib.ring_zero, List.append_nil] at order
    have length := arrived.length_eq
    rw [got, ← whole, order, ← length, split, List.append_nil, List.take_length]
  · intro buffer member
    obtain ⟨payload, -, holds⟩ := forall₂_left arrived member
    exact ⟨holds.srcIp, holds.srcPort⟩

/-- The data comes through exactly when its last datagram does not have a length that is a multiple
of 256, or the machine of the peer is big endian. -/
theorem udp_end_to_end {net rnet : Net} {nif j : Nat} {s : Udps} {data : List Byte} {route : RtEntry} (sender : Sender u)
    (path : Path net u data.length route) (machine : s.order = rnet.order) (fresh : Udps.Fresh s)
    (idle : ∀ t, s.readers t = none) (peer : Udps.Peer s u j) (ours : ipv4RecvDemux rnet u.remoteip = true) :
    EndToEnd net rnet nif j u s data ↔ Receivable rnet.order data.length := by
  obtain ⟨passed, frames, sent, carries⟩ := udpWrite_carries sender path
  have bounds : ∀ p ∈ udpPayloads data.length data, p.length ≤ UDP_MAX_DATALEN := by
    intro p member
    rcases udpPayloads_length member with full | ⟨last, -⟩
    · omega
    · rw [last, UDP_MAX_DATALEN]
      omega
  constructor
  · intro ended
    by_cases left : data.length % UDP_MAX_DATALEN = 0
    · right
      rw [UDP_MAX_DATALEN] at left
      omega
    · obtain ⟨payload, member, length⟩ := udpPayloads_last (Nat.le_refl _) left
      obtain ⟨frame, sentFrame, carried⟩ := forall₂_left carries.flip member
      have valid := ended.valid (route.nif, frame) (by rw [sent]; exact List.mem_map_of_mem sentFrame) []
      have receivable := (carried.valid (bounds payload member)).mp valid
      rw [length, UDP_MAX_DATALEN] at receivable
      rcases receivable with big | other
      · exact .inl big
      · right
        omega
  · intro receivable
    have each : ∀ p ∈ udpPayloads data.length data, Receivable rnet.order p.length := by
      intro p member
      rcases udpPayloads_length member with full | ⟨last, -⟩
      · right
        rw [full]
        decide
      · rcases receivable with big | other
        · exact .inl big
        · right
          rw [last, UDP_MAX_DATALEN]
          omega
    obtain ⟨-, -, -, -, -, -, arrived, taken⟩ := fresh j peer.opened
    have flight : ((udpWrite net u data).1.frames.map Prod.snd) = frames := by
      rw [sent, List.map_map]
      exact List.map_id frames
    have carried (l : Link) (reach : Lib.Reach (step rnet nif j) (Undisturbed j)
        (start s ((udpWrite net u data).1.frames.map Prod.snd)) l) :
        Carried rnet.order u j (udpPayloads data.length data) l := by
      rw [flight] at reach
      refine reach.invariant ?_ ?_
      · refine ⟨fresh.valid, machine, peer, ?_, rfl, ⟨[], _, rfl, ?_, carries⟩, ?_⟩
        · intro t reader reads
          rw [show (start s frames).s.readers t = none from idle t] at reads
          cases reads
        · show List.Forall₂ _ [] (s.arrived j)
          rw [arrived]
          exact .nil
        · show [] = ((udpPayloads data.length data).take (s.taken j).length).flatten
          rw [taken]
          rfl
      · intro l l' event carried allowed action
        cases event with
        | deliver padding =>
            have flies : l.inFlight ≠ [] := by
              intro none
              simp [step, none] at action
            obtain ⟨_, result, carried', -⟩ := deliver_carried padding sender ours bounds each carried allowed flies
            rw [action] at result
            cases result
            exact carried'
        | op o => exact op_carried bounds carried allowed.1 allowed.2 action
    refine ⟨by rw [sent], ?_, ?_, ?_, ?_⟩
    · intro frame member padding
      rw [sent] at member
      obtain ⟨bytes, framed, rfl⟩ := List.mem_map.mp member
      obtain ⟨payload, written, carried⟩ := forall₂_left carries framed
      exact (carried.valid (bounds payload written)).mpr (each payload written)
    · intro l reach
      exact (carried l reach).delivered (udpPayloads_flatten (Nat.le_refl _))
    · intro l reach flies room padding
      obtain ⟨l', result, -, rest, more⟩ := deliver_carried padding sender ours bounds each (carried l reach) room flies
      exact ⟨l', result, rest, more⟩
    · intro l reach op l' t len allowed gets action
      exact op_gets bounds (carried l reach) allowed.1 allowed.2 gets action

def near : Net where
  order := .little
  netiftab _ :=
    { up := true
      mtu := 1500
      linkhdrlen := ETH_HDR_LEN
      ip := { type := ETHER_TYPE_IPv4, addr := [10, 0, 0, 2], bound := Netaddr.ipv4_fits }
      ipbrc := { type := ETHER_TYPE_IPv4, addr := [10, 0, 0, 255], bound := Netaddr.ipv4_fits }
      hwaddr := { type := 1, addr := [2, 0, 0, 0, 0, 2], bound := Netaddr.ether_fits }
      ethernet := rfl }
  nnetif := 1
  rttab := [
    { used := true
      masklen := 24
      dst := { type := ETHER_TYPE_IPv4, addr := [10, 0, 0, 0], bound := Netaddr.ipv4_fits }
      gateway := { type := 0, addr := [], bound := Netaddr.empty_fits }
      mask := { type := ETHER_TYPE_IPv4, addr := [255, 255, 255, 0], bound := Netaddr.ipv4_fits }
      nif := 0 }]
  arp _ _ := some { type := 1, addr := [2, 0, 0, 0, 0, 1], bound := Netaddr.ether_fits }
  writes _ _ := true
  getbuf := true

def client : Udp :=
  { Udps.oneOpen.udptab 0 with localpt := 1000, remotept := 69, localip := Udps.sender, remoteip := Udps.receiver }

theorem client_sender : Sender client := ⟨rfl, ⟨rfl, rfl⟩, ⟨rfl, rfl⟩, by decide, by decide, by decide⟩

theorem near_path {len : Nat} : ∃ route, Path near client len route := by
  refine ⟨_, rfl, rfl, rfl, ?_, fun _ => rfl, fun _ _ => rfl⟩
  show IPv4_HDR_LEN + UDP_HDR_LEN + min len UDP_MAX_DATALEN ≤ 1500
  rw [IPv4_HDR_LEN, UDP_HDR_LEN, UDP_MAX_DATALEN]
  omega

theorem oneOpen_peer : Udps.Peer Udps.oneOpen client 0 := ⟨rfl, rfl, by decide +kernel⟩

def undisturbed (l : Link) : Event → Bool
  | .deliver _ => decide ((l.s.udptab 0).icount < UDP_MAX_PKTS)
  | .op (.recv _ _ _) => false
  | .op (.read _ _ len) => decide (UDP_MAX_DATALEN ≤ len)
  | .op _ => true

theorem undisturbed_sound (l : Link) (event : Event) (checked : undisturbed l event = true) :
    Undisturbed 0 l event := by
  cases event with
  | deliver padding =>
      show (l.s.udptab 0).icount < UDP_MAX_PKTS
      exact of_decide_eq_true checked
  | op o =>
      cases o with
      | recv pkt src dst => cases checked
      | signal i => exact ⟨fun _ _ _ other => (by cases other), fun _ _ other => (by cases other)⟩
      | read t i len =>
          refine ⟨fun _ _ _ other => (by cases other), fun t' len' same => ?_⟩
          cases same
          exact of_decide_eq_true checked
      | resume t => exact ⟨fun _ _ _ other => (by cases other), fun _ _ other => (by cases other)⟩

def threeBytes : List Event :=
  [.op (.read 1 0 2000), .deliver (List.replicate 15 0), .op (.signal 0), .op (.resume 1)]

theorem threeBytes_end_to_end :
    EndToEnd near narrow 0 0 client Udps.oneOpen [1, 2, 3] ∧
      ∃ l, Lib.Reach (step narrow 0 0) (Undisturbed 0)
          (start Udps.oneOpen ((udpWrite near client [1, 2, 3]).1.frames.map Prod.snd)) l ∧
        l.inFlight = [] ∧ (l.s.udptab 0).icount = 0 ∧ l.s.returned 1 = 3 ∧ l.got = [1, 2, 3] := by
  obtain ⟨route, path⟩ : ∃ route, Path near client 3 route := near_path
  have whole : EndToEnd near narrow 0 0 client Udps.oneOpen [1, 2, 3] :=
    (udp_end_to_end client_sender path rfl Udps.oneOpen_fresh (fun _ => rfl) oneOpen_peer
      (by decide +kernel)).mpr (.inr (by decide))
  have runs : (Lib.run (step narrow 0 0) undisturbed threeBytes
      (start Udps.oneOpen ((udpWrite near client [1, 2, 3]).1.frames.map Prod.snd))).any (fun l => decide (
        l.inFlight = [] ∧ (l.s.udptab 0).icount = 0 ∧ l.s.returned 1 = 3)) = true := by
    decide +kernel
  obtain ⟨l, run, observed⟩ := (Option.any_eq_true _ _).mp runs
  obtain ⟨landed, empty, returned⟩ := of_decide_eq_true observed
  have reach := Lib.Reach.init.run undisturbed_sound run
  exact ⟨whole, l, reach, landed, empty, returned, (whole.delivered l reach).2.2.1 landed empty⟩

theorem datagram256_rejected : Sender client ∧ (∃ route, Path near client (List.replicate 228 (0 : Byte)).length route) ∧
    Udps.Fresh Udps.oneOpen ∧ Udps.Peer Udps.oneOpen client 0 ∧ ipv4RecvDemux narrow client.remoteip = true ∧
      ¬ EndToEnd near narrow 0 0 client Udps.oneOpen (List.replicate 228 0) := by
  refine ⟨client_sender, near_path, Udps.oneOpen_fresh, oneOpen_peer, by decide +kernel, fun ended => ?_⟩
  have rejected : ∃ sent ∈ (udpWrite near client (List.replicate 228 0)).1.frames,
      ipv4RecvValid narrow.order (received narrow 0 sent.2 []).mem (received narrow 0 sent.2 []).curr = false := by
    decide +kernel
  obtain ⟨sent, member, invalid⟩ := rejected
  rw [ended.valid sent member []] at invalid
  cases invalid

end Link

end Xinu
