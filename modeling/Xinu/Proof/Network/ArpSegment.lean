import Xinu.System.ArpSegment
import Xinu.Proof.Network.Arp
import Xinu.Proof.Network.UdpFrame

/-!
# ARP on an Ethernet

A packet that one of the hosts has put together says which address one of its interfaces has, whoever reads it, however it
comes, and whatever the byte orders of the two are. So no table ever has an address that is not the owner's.
-/

namespace Xinu
open Lib (Byte load store)

/-! ## The fields of a packet -/

structure ArpFields (mem : Int → Byte) (a : Int) (op : Nat) (hw ip : Netaddr) : Prop where
  hwtype : load mem a 2 = net16 hw.type
  prtype : load mem (a + 2) 2 = net16 ip.type
  lens : load mem (a + 4) 2 = [BitVec.ofNat 8 hw.addr.length, BitVec.ofNat 8 ip.addr.length]
  op : load mem (a + 6) 2 = net16 op
  sha : load mem (a + 8) hw.addr.length = hw.addr
  spa : load mem (a + 8 + hw.addr.length) ip.addr.length = ip.addr

def arpLen (hw ip : Netaddr) : Nat := ARP_CONST_HDR_LEN + 2 * hw.addr.length + 2 * ip.addr.length

structure Netif.Ether (nif : Netif) : Prop where
  hwtype : nif.hwaddr.type = ARP_HWTYPE_ETHERNET
  hwalen : nif.hwaddr.addr.length = ETH_ADDR_LEN
  prtype : nif.ip.type < 65536

section
variable {order : ByteOrder} {mem mem' : Int → Byte} {a b : Int} {op : Nat} {hw ip praddr : Netaddr} {net : Net} {nif : Nat}
  {pkt : Packet}

theorem ArpFields.shift (fields : ArpFields mem a op hw ip)
    (same : ∀ i : Int, 0 ≤ i → i < arpLen hw ip → mem' (b + i) = mem (a + i)) : ArpFields mem' b op hw ip := by
  have long : arpLen hw ip = 8 + 2 * hw.addr.length + 2 * ip.addr.length := rfl
  have field {n : Nat} {bytes : List Byte} (k : Nat) (within : k + n ≤ arpLen hw ip) (holds : load mem (a + k) n = bytes) :
      load mem' (b + k) n = bytes := by
    rw [← holds]
    apply Lib.load_shift
    intro i lo hi
    rw [Int.add_assoc, Int.add_assoc]
    exact same (k + i) (by omega) (by omega)
  constructor
  · have := @field 2 _ 0 (by omega) (by simpa using fields.hwtype)
    simpa using this
  · exact field 2 (by omega) fields.prtype
  · exact field 4 (by omega) fields.lens
  · exact field 6 (by omega) fields.op
  · exact field 8 (by omega) fields.sha
  · have := @field ip.addr.length ip.addr (8 + hw.addr.length) (by omega) (by
      rw [Int.natCast_add, ← Int.add_assoc]
      exact fields.spa)
    rw [Int.natCast_add, ← Int.add_assoc] at this
    exact this

theorem byte_toNat {n : Nat} (small : n ≤ NET_MAX_ALEN) : (BitVec.ofNat 8 n).toNat = n := by
  have : NET_MAX_ALEN = 6 := rfl
  rw [BitVec.toNat_ofNat]
  omega

theorem load_range (mem : Int → Byte) (a : Int) (k n : Nat) :
    (List.range n).map (fun i : Nat => mem (a + (k + i : Nat))) = load mem (a + k) n := by
  rw [load]
  apply List.map_congr_left
  intro i _
  rw [Int.natCast_add, Int.add_assoc]

theorem ArpFields.read (fields : ArpFields mem a op hw ip) (hwtype : hw.type < 65536) (prtype : ip.type < 65536) :
    (arpPkt order mem a).hwtype = hw.type ∧ (arpPkt order mem a).prtype = ip.type ∧
      (arpPkt order mem a).hwalen = hw.addr.length ∧ (arpPkt order mem a).pralen = ip.addr.length := by
  have lens := fields.lens
  rw [Lib.load_two] at lens
  obtain ⟨fst, snd, -⟩ := List.cons.inj lens |>.imp id List.cons.inj
  rw [Int.add_assoc] at snd
  refine ⟨net2hs_net16 fields.hwtype hwtype, net2hs_net16 fields.prtype prtype, ?_, ?_⟩
  · show (mem (a + 4)).toNat = _
    rw [fst, byte_toNat hw.bound]
  · show (mem (a + 5)).toNat = _
    rw [show mem (a + 5) = _ from snd, byte_toNat ip.bound]

theorem Netaddr.ext {a b : Netaddr} (type : a.type = b.type) (addr : a.addr = b.addr) : a = b := by
  obtain ⟨type', addr', bound⟩ := a
  cases type
  cases addr
  rfl

theorem ArpFields.taken (fields : ArpFields mem a op hw ip) (hwtype : hw.type < 65536) (prtype : ip.type < 65536)
    (valid : (arpPkt order mem a).valid = true) :
    ip.Ipv4 ∧ (arpPkt order mem a).sha = hw ∧ (arpPkt order mem a).spa = ip := by
  obtain ⟨hwt, prt, hwl, prl⟩ := @ArpFields.read order _ _ _ _ _ fields hwtype prtype
  simp only [Arp.ArpPkt.valid, hwt, prt, hwl, prl, decide_eq_true_eq] at valid
  obtain ⟨_, six, ip4, four⟩ := valid
  refine ⟨⟨ip4, four⟩, Netaddr.ext hwt ?_, Netaddr.ext prt ?_⟩
  · have sha := fields.sha
    rw [six] at sha
    exact sha
  · have spa := fields.spa
    rw [six, four] at spa
    rw [← spa]
    exact load_range mem (a + 8) 6 4

theorem Netif.Ether.wide {nif : Netif} (ether : nif.Ether) : nif.hwaddr.type < 65536 := by
  rw [ether.hwtype]
  decide

/-! ## Requests -/

theorem arpRqst_fields (ether : (net.netiftab nif).Ether) :
    ArpFields (arpRqst net nif praddr).mem (arpRqst net nif praddr).curr ARP_OP_RQST (net.netiftab nif).hwaddr
      (net.netiftab nif).ip := by
  have six := ether.hwalen
  have few := (net.netiftab nif).ip.bound
  have taken := List.length_take_le (net.netiftab nif).ip.addr.length praddr.addr
  rw [ETH_ADDR_LEN] at six
  simp only [arpRqst, put16_net, ARP_CONST_HDR_LEN]
  generalize (NET_MAX_PKTLEN : Int) - _ = arp
  constructor
  · repeat rw [Lib.load_store_apart (by omega)]
    exact Lib.load_stored rfl
  · repeat rw [Lib.load_store_apart (by omega)]
    exact Lib.load_stored rfl
  · rw [Lib.load_store_apart (by omega), Lib.load_store_apart (by omega), Lib.load_store_apart (by omega),
      Lib.load_store_apart (by omega)]
    have place : arp + 5 = arp + 4 + ([BitVec.ofNat 8 (net.netiftab nif).hwaddr.addr.length] : List Byte).length := by
      simp
      omega
    rw [place, Lib.store_append]
    exact Lib.load_stored rfl
  · rw [Lib.load_store_apart (by omega), Lib.load_store_apart (by omega), Lib.load_store_apart (by omega)]
    exact Lib.load_stored rfl
  · rw [Lib.load_store_apart (by omega), Lib.load_store_apart (by omega)]
    exact Lib.load_stored rfl
  · rw [Lib.load_store_apart (by omega)]
    exact Lib.load_stored rfl

theorem arpRqst_target (ether : (net.netiftab nif).Ether) (ipv4 : (net.netiftab nif).ip.Ipv4) (target : praddr.Ipv4) :
    load (arpRqst net nif praddr).mem ((arpRqst net nif praddr).curr + 24) 4 = praddr.addr := by
  have six := ether.hwalen
  have four := ipv4.2
  have same : praddr.addr.take (net.netiftab nif).ip.addr.length = praddr.addr := four ▸ target.take
  have length := target.2
  rw [ETH_ADDR_LEN] at six
  rw [IPv4_ADDR_LEN] at four length
  simp only [arpRqst, same, ARP_CONST_HDR_LEN]
  generalize (NET_MAX_PKTLEN : Int) - _ = arp
  have place : arp + (8 : Nat) + 2 * (net.netiftab nif).hwaddr.addr.length + (net.netiftab nif).ip.addr.length =
      arp + 24 := by
    rw [six, four]
    omega
  rw [place]
  exact Lib.load_stored length

/-! ## Replies -/

theorem load_net16 (order : ByteOrder) (mem : Int → Byte) (a : Int) :
    load mem a 2 = net16 (net2hs order (get16 order mem a)) := by
  have lo := (mem a).isLt
  have hi := (mem (a + 1)).isLt
  rw [net2hs_get16, Lib.load_two, net16]
  congr 1
  · apply BitVec.eq_of_toNat_eq
    rw [BitVec.toNat_ofNat]
    omega
  · congr 1
    apply BitVec.eq_of_toNat_eq
    rw [BitVec.toNat_ofNat]
    omega

structure Requested (net : Net) (pkt : Packet) : Prop where
  up : (net.netiftab pkt.nif).up = true
  curr : pkt.curr = ETH_HDR_LEN
  len : ETH_HDR_LEN + 28 ≤ pkt.len
  valid : (arpPkt net.order pkt.mem pkt.curr).valid = true
  target : (net.netiftab pkt.nif).ip = (arpPkt net.order pkt.mem pkt.curr).dpa

theorem Requested.ipv4 (request : Requested net pkt) : (net.netiftab pkt.nif).ip.Ipv4 := by
  have valid := request.valid
  simp only [Arp.ArpPkt.valid, decide_eq_true_eq] at valid
  rw [request.target]
  exact ⟨valid.2.2.1, by simp [Arp.ArpPkt.dpa]⟩

theorem Requested.lens (request : Requested net pkt) : pkt.mem (pkt.curr + 4) = 6 ∧ pkt.mem (pkt.curr + 5) = 4 := by
  have valid := request.valid
  simp only [Arp.ArpPkt.valid, decide_eq_true_eq] at valid
  exact ⟨BitVec.eq_of_toNat_eq valid.2.1, BitVec.eq_of_toNat_eq valid.2.2.2⟩

theorem arpReply_fields (request : Requested net pkt) (ether : (net.netiftab pkt.nif).Ether) :
    ArpFields (arpReply net pkt).mem pkt.curr ARP_OP_REPLY (net.netiftab pkt.nif).hwaddr (net.netiftab pkt.nif).ip ∧
      load (arpReply net pkt).mem (pkt.curr + 18) 6 = load pkt.mem (pkt.curr + 8) 6 ∧
      load (arpReply net pkt).mem (pkt.curr + 24) 4 = load pkt.mem (pkt.curr + 14) 4 := by
  have six := ether.hwalen
  have ipv4 := request.ipv4
  have four := ipv4.2
  obtain ⟨hwalen, pralen⟩ := request.lens
  have valid := request.valid
  simp only [Arp.ArpPkt.valid, decide_eq_true_eq] at valid
  have hwtype : load pkt.mem pkt.curr 2 = net16 1 := by
    have value : net2hs net.order (get16 net.order pkt.mem pkt.curr) = 1 := valid.1
    rw [load_net16 net.order, value]
  have prtype : load pkt.mem (pkt.curr + 2) 2 = net16 ETHER_TYPE_IPv4 := by
    have value : net2hs net.order (get16 net.order pkt.mem (pkt.curr + 2)) = ETHER_TYPE_IPv4 := valid.2.2.1
    rw [load_net16 net.order, value]
  have whole : (net.netiftab pkt.nif).hwaddr.addr.take 6 = (net.netiftab pkt.nif).hwaddr.addr :=
    List.take_of_length_le (Nat.le_of_eq six)
  have sixBits : (6 : Byte).toNat = 6 := rfl
  have fourBits : (4 : Byte).toNat = 4 := rfl
  rw [ETH_ADDR_LEN] at six
  rw [IPv4_ADDR_LEN] at four
  simp only [arpReply, hwalen, pralen, sixBits, fourBits, whole, ipv4.take, put16_net, ARP_CONST_HDR_LEN]
  generalize pkt.curr = arp at *
  have length2 : (net16 ARP_OP_REPLY).length = 2 := rfl
  refine ⟨⟨?_, ?_, ?_, ?_, ?_, ?_⟩, ?_, ?_⟩
  · rw [ether.hwtype, ← hwtype]
    repeat rw [Lib.load_store_apart (by omega)]
  · rw [ipv4.1, ← prtype]
    repeat rw [Lib.load_store_apart (by omega)]
  · repeat rw [Lib.load_store_apart (by omega)]
    rw [six, four, Lib.load_two, hwalen, Int.add_assoc, show (4 : Int) + 1 = 5 from rfl, pralen]
    rfl
  · repeat rw [Lib.load_store_apart (by omega)]
    exact Lib.load_stored rfl
  · rw [Lib.load_store_apart (by omega)]
    exact Lib.load_stored rfl
  · rw [six]
    exact Lib.load_stored rfl
  · rw [Lib.load_store_apart (by omega), Lib.load_store_apart (by omega), Lib.load_store_apart (by simp; omega)]
    have place : arp + (8 : Nat) + (6 + 4 : Nat) = arp + 18 := by omega
    rw [place, Lib.load_stored (Lib.length_load)]
    exact Lib.load_store_apart (by omega)
  · rw [Lib.load_store_apart (by omega), Lib.load_store_apart (by omega)]
    have place : arp + (8 : Nat) + (2 * 6 + 4 : Nat) = arp + 24 := by omega
    have source : arp + (8 : Nat) + (6 : Nat) = arp + 14 := by omega
    rw [place, source, Lib.load_stored (Lib.length_load), Lib.load_store_apart (by simp; omega)]
    exact Lib.load_store_apart (by omega)

/-! ## Frames -/

theorem netSend_frames {hwaddr : Netaddr} {type : Nat} {frame : Nat × List Byte}
    (sent : frame ∈ (netSend net pkt (some hwaddr) praddr type).2.1.frames) :
    (net.netiftab pkt.nif).up = true ∧ Framed frame.2 pkt := by
  cases sends : netSends net pkt.nif pkt.len (some hwaddr) praddr with
  | false =>
      rw [(netSend_fails type sends).1] at sent
      cases sent
  | true =>
      simp only [netSends, Bool.and_eq_true, (net.netiftab pkt.nif).ethernet] at sends
      obtain ⟨⟨up, _⟩, writes⟩ := sends
      obtain ⟨_, frame', result, framed⟩ := @netSend_framed net pkt (some hwaddr) praddr type up (by simp) writes
      rw [result] at sent
      rw [List.mem_singleton.mp sent]
      exact ⟨up, framed⟩

def AddrOwner (net : Nat → Net) (praddr hwaddr : Netaddr) : Prop :=
  ∃ h nif, ((net h).netiftab nif).up = true ∧ ((net h).netiftab nif).ip = praddr ∧ ((net h).netiftab nif).hwaddr = hwaddr

def Announces (net : Nat → Net) (frame : List Byte) : Prop :=
  ∃ h nif op, ((net h).netiftab nif).up = true ∧
    ETH_HDR_LEN + arpLen ((net h).netiftab nif).hwaddr ((net h).netiftab nif).ip ≤ frame.length ∧
      ArpFields (inMemory frame) ETH_HDR_LEN op ((net h).netiftab nif).hwaddr ((net h).netiftab nif).ip

theorem Framed.announces {nets : Nat → Net} {h : Nat} {frame : List Byte} (framed : Framed frame pkt)
    (up : ((nets h).netiftab nif).up = true)
    (len : arpLen ((nets h).netiftab nif).hwaddr ((nets h).netiftab nif).ip ≤ pkt.len)
    (fields : ArpFields pkt.mem pkt.curr op ((nets h).netiftab nif).hwaddr ((nets h).netiftab nif).ip) :
    Announces nets frame := by
  refine ⟨h, nif, op, up, ?_, fields.shift fun i lo hi => framed.same i lo (by omega)⟩
  rw [framed.length]
  omega

theorem arpSendRqst_announces {nets : Nat → Net} {h : Nat} {frame : Nat × List Byte} (same : net.netiftab = (nets h).netiftab)
    (ether : (net.netiftab nif).Ether) (sent : frame ∈ (arpSendRqst net nif praddr).1.frames) : Announces nets frame.2 := by
  rw [arpSendRqst] at sent
  split at sent
  · cases sent
  · obtain ⟨up, framed⟩ := @netSend_frames praddr net _ _ _ _ sent
    have fields := @arpRqst_fields praddr net nif ether
    have up : (net.netiftab nif).up = true := up
    rw [same] at up fields
    apply framed.announces up _ fields
    rw [← same]
    show arpLen _ _ ≤ ARP_CONST_HDR_LEN + _ * 2 + _ * 2
    rw [arpLen]
    omega

theorem arpSendReply_announces {nets : Nat → Net} {h : Nat} {frame : Nat × List Byte} (same : net.netiftab = (nets h).netiftab)
    (request : Requested net pkt) (ether : (net.netiftab pkt.nif).Ether)
    (sent : frame ∈ (arpSendReply net pkt).1.frames) : Announces nets frame.2 := by
  obtain ⟨up, framed⟩ := @netSend_frames (net.netiftab pkt.nif).ip net _ _ _ _ sent
  obtain ⟨fields, -⟩ := arpReply_fields request ether
  have up : (net.netiftab pkt.nif).up = true := up
  have six := ether.hwalen
  have four := request.ipv4.2
  rw [same] at up fields six four
  apply framed.announces up _ fields
  have len : ETH_HDR_LEN + 28 ≤ (arpReply net pkt).len := request.len
  rw [arpLen, six, four]
  exact Nat.le_trans (by decide) len

/-! ## A packet arrives -/

theorem arp_frame {nets : Nat → Net} {frame : List Byte} (announces : Announces nets frame)
    (ether : ∀ h nif, ((nets h).netiftab nif).Ether) (order : ByteOrder) (padding : List Byte)
    (valid : (arpPkt order (inMemory (frame ++ padding)) ETH_HDR_LEN).valid = true) :
    ETH_HDR_LEN + 28 ≤ frame.length ∧
      AddrOwner nets (arpPkt order (inMemory (frame ++ padding)) ETH_HDR_LEN).spa
        (arpPkt order (inMemory (frame ++ padding)) ETH_HDR_LEN).sha := by
  obtain ⟨h, nif, op, up, length, fields⟩ := announces
  have fields' : ArpFields (inMemory (frame ++ padding)) ETH_HDR_LEN op ((nets h).netiftab nif).hwaddr
      ((nets h).netiftab nif).ip :=
    fields.shift fun i lo hi => inMemory_append (by omega) (by omega)
  obtain ⟨ipv4, sha, spa⟩ := @ArpFields.taken order _ _ _ _ _ fields' (ether h nif).wide (ether h nif).prtype valid
  refine ⟨?_, h, nif, up, spa.symm, sha.symm⟩
  have six := (ether h nif).hwalen
  have four := ipv4.2
  rw [arpLen, six, four] at length
  exact length

theorem netRecvArp_some {frame : List Byte} (handed : netRecvArp net nif frame = some pkt) :
    pkt.nif = nif ∧ pkt.len = frame.length ∧ pkt.curr = ETH_HDR_LEN ∧ pkt.mem = inMemory frame ∧
      ETH_HDR_LEN ≤ frame.length ∧ net2hs net.order (get16 net.order (inMemory frame) 12) = ETHER_TYPE_ARP := by
  simp only [netRecvArp] at handed
  split at handed
  · cases handed
  · rename_i long
    split at handed
    · rename_i taken
      cases handed
      refine ⟨rfl, rfl, ?_, rfl, Nat.le_of_not_lt long, taken.2⟩
      exact congrArg Int.ofNat (net.netiftab nif).ethernet
    · cases handed

end

/-! ## What has been announced -/

namespace Arp

section
variable {s s' : Arp} {op : Op} {praddr hwaddr : Netaddr}

theorem obtain_announced (s : Arp) (praddr : Netaddr) : (s.obtain praddr).2.announced = s.announced := by
  have freed := getEntry_freed praddr (List.range ARP_NENTRY) s
  rw [obtain, arpGetEntry]
  split
  · rename_i k u lookup
    rw [lookup] at freed
    exact freed.announced
  · rename_i u lookup
    rw [lookup] at freed
    split
    · exact freed.announced
    · rename_i k v alloc
      rw [arpAlloc, Option.map_eq_some_iff] at alloc
      obtain ⟨_, -, same⟩ := alloc
      cases same
      exact freed.announced

theorem attempt_announced (s : Arp) (tid : Nat) (praddr : Netaddr) (lookups : Nat) :
    (s.attempt tid praddr lookups).announced = s.announced := by
  have same := obtain_announced s praddr
  rw [attempt]
  split
  · rfl
  · split
    · rename_i u found
      rw [found] at same
      exact same
    · rename_i k u found
      rw [found] at same
      dsimp only
      split_ifs <;> exact same

theorem wake_announced (s : Arp) (tid : Nat) (praddr : Netaddr) (lookups : Nat) :
    (s.wake tid praddr lookups).announced = s.announced := by
  rw [wake]
  split
  · rw [received]
    split <;> rfl
  · rw [received]
    split <;> rfl

theorem step_announced (action : step op s = some s') : (∃ ip pkt, op = .arpRecv ip pkt) ∨ s'.announced = s.announced := by
  cases op with
  | arpLookup tid praddr =>
      simp only [step] at action
      split at action <;> cases action
      exact .inr rfl
  | attempt tid =>
      obtain ⟨praddr, lookups, -, rfl⟩ := leave_some action
      exact .inr (attempt_announced s tid praddr lookups)
  | arpSendRqst tid sends =>
      obtain ⟨praddr, lookups, -, rfl⟩ := leave_some action
      exact .inr rfl
  | recvclr tid =>
      obtain ⟨praddr, lookups, -, rfl⟩ := leave_some action
      exact .inr rfl
  | recvtime tid =>
      obtain ⟨praddr, lookups, -, rfl⟩ := leave_some action
      right
      rw [recvtime]
      split
      · rw [received]
        split <;> rfl
      · rfl
  | timeout tid =>
      simp only [step] at action
      split at action
      · obtain ⟨praddr, lookups, -, rfl⟩ := leave_some action
        exact .inr rfl
      · cases action
  | wake tid =>
      simp only [step] at action
      split at action
      · split at action <;> cases action
        exact .inr (wake_announced s tid _ _)
      · cases action
        exact .inr (wake_announced s tid _ _)
      · cases action
  | send tid msg =>
      simp only [step] at action
      split at action <;> cases action
      · exact .inr rfl
      · exact .inr rfl
  | kill tid =>
      cases action
      exact .inr rfl
  | create tid =>
      simp only [step] at action
      split at action <;> cases action
      exact .inr rfl
  | arpRecv ip pkt => exact .inl ⟨ip, pkt, rfl⟩
  | tick =>
      cases action
      exact .inr rfl

theorem arpRecv_announced {ip : Netaddr} {pkt : ArpPkt} (told : (s.arpRecv ip pkt).announced praddr = some hwaddr) :
    s.announced praddr = some hwaddr ∨ pkt.valid = true ∧ praddr = pkt.spa ∧ hwaddr = pkt.sha := by
  have freed := getEntry_freed pkt.spa (List.range ARP_NENTRY) s
  have announced {t : Arp} (same : t.announced = s.announced) (valid : pkt.valid = true)
      (told : (t.announce pkt).announced praddr = some hwaddr) :
      s.announced praddr = some hwaddr ∨ pkt.valid = true ∧ praddr = pkt.spa ∧ hwaddr = pkt.sha := by
    rw [announce] at told
    dsimp only at told
    split at told
    · rename_i here
      cases told
      exact .inr ⟨valid, here, rfl⟩
    · exact .inl (same ▸ told)
  rw [arpRecv] at told
  split at told
  · exact .inl told
  · rename_i valid
    have valid : pkt.valid = true := Decidable.not_not.mp valid
    split at told
    · rename_i k u lookup
      rw [arpGetEntry] at lookup
      rw [lookup] at freed
      apply announced freed.announced valid
      rw [resolve] at told
      dsimp only at told
      split at told
      · rw [(arpNotify_same _ _ _).2.2] at told
        exact told
      · exact told
    · rename_i u lookup
      rw [arpGetEntry] at lookup
      rw [lookup] at freed
      apply announced freed.announced valid
      split at told
      · rw [add] at told
        split at told
        · exact told
        · rename_i k v alloc
          rw [arpAlloc, Option.map_eq_some_iff] at alloc
          obtain ⟨_, -, rest⟩ := alloc
          cases rest
          exact told
      · exact told

end

end Arp

/-! ## Hosts -/

namespace ArpSegment

structure Truthful (nets : Nat → Net) (s : ArpSegment) : Prop where
  net : ∀ h, (s.host h).net = nets h
  table : ∀ h, Arp.Table (s.host h).arp
  told : ∀ h praddr hwaddr, (s.host h).arp.announced praddr = some hwaddr → AddrOwner nets praddr hwaddr
  queue : ∀ h, ∀ pkt ∈ (s.host h).arpqueue, Requested (nets h) pkt
  wire : ∀ frame ∈ s.wire, Announces nets frame ∨
    ETH_HDR_LEN ≤ frame.length ∧ net2hs .big (get16 .big (inMemory frame) 12) ≠ ETHER_TYPE_ARP

section
variable {nets : Nat → Net} {s s' : ArpSegment} {h : Nat} {host : Host} {pkt : Packet} {op : Op}

theorem start_truthful (nets : Nat → Net) (clktime : Nat → Nat) : Truthful nets (start nets clktime) where
  net _ := rfl
  table h := Arp.start_table (clktime h)
  told _ _ _ told := by cases told
  queue _ _ member := by cases member
  wire _ member := by cases member

theorem Truthful.set (truth : Truthful nets s) (net : host.net = nets h) (table : Arp.Table host.arp)
    (told : ∀ praddr hwaddr, host.arp.announced praddr = some hwaddr → AddrOwner nets praddr hwaddr)
    (queue : ∀ pkt ∈ host.arpqueue, Requested (nets h) pkt) : Truthful nets (s.setHost h host) := by
  have each (P : Nat → Host → Prop) (here : P h host) (old : ∀ i, P i (s.host i)) (i : Nat) : P i ((s.setHost h host).host i) := by
    simp only [setHost]
    split
    · rename_i same
      exact same ▸ here
    · exact old i
  exact
    { net := each (fun i host => host.net = nets i) net truth.net
      table := each (fun _ host => Arp.Table host.arp) table truth.table
      told := each (fun _ host => ∀ praddr hwaddr, host.arp.announced praddr = some hwaddr → AddrOwner nets praddr hwaddr) told
        truth.told
      queue := each (fun i host => ∀ pkt ∈ host.arpqueue, Requested (nets i) pkt) queue truth.queue
      wire := truth.wire }

theorem Truthful.send (truth : Truthful nets s) {sent : Traffic} (announces : ∀ frame ∈ sent.frames, Announces nets frame.2) :
    Truthful nets (s.send sent) where
  net := truth.net
  table := truth.table
  told := truth.told
  queue := truth.queue
  wire frame member := by
    rcases List.mem_append.mp member with old | new
    · exact truth.wire frame old
    · obtain ⟨one, isSent, rfl⟩ := List.mem_map.mp new
      exact .inl (announces one isSent)

theorem Truthful.arp (truth : Truthful nets s) {op : Arp.Op} {arp : Arp} (quiet : ∀ ip pkt, op ≠ .arpRecv ip pkt)
    (action : Arp.step op (s.host h).arp = some arp) : Truthful nets (s.setHost h { s.host h with arp }) := by
  apply truth.set
  · exact truth.net h
  · exact Arp.step_table (truth.table h) action
  · rcases Arp.step_announced action with ⟨ip, pkt, rfl⟩ | same
    · exact absurd rfl (quiet ip pkt)
    · intro praddr hwaddr told
      exact truth.told h praddr hwaddr (same ▸ told)
  · exact truth.queue h

theorem Truthful.arpRecv (truth : Truthful nets s) (up : ((nets h).netiftab pkt.nif).up = true) (curr : pkt.curr = ETH_HDR_LEN)
    (tells : (arpPkt (nets h).order pkt.mem ETH_HDR_LEN).valid = true → ETH_HDR_LEN + 28 ≤ pkt.len ∧
      AddrOwner nets (arpPkt (nets h).order pkt.mem ETH_HDR_LEN).spa (arpPkt (nets h).order pkt.mem ETH_HDR_LEN).sha) :
    Truthful nets (s.setHost h ((s.host h).arpRecv pkt)) := by
  have net := truth.net h
  have table := Arp.arpRecv_table (truth.table h) ((s.host h).net.netiftab pkt.nif).ip
    (arpPkt (s.host h).net.order pkt.mem pkt.curr)
  have told (praddr hwaddr : Netaddr)
      (told : ((s.host h).arp.arpRecv ((s.host h).net.netiftab pkt.nif).ip
        (arpPkt (s.host h).net.order pkt.mem pkt.curr)).announced praddr = some hwaddr) : AddrOwner nets praddr hwaddr := by
    rcases Arp.arpRecv_announced told with old | ⟨valid, rfl, rfl⟩
    · exact truth.told h praddr hwaddr old
    · rw [net, curr] at valid ⊢
      exact (tells valid).2
  rw [Host.arpRecv]
  dsimp only
  split
  · rename_i request
    obtain ⟨valid, target, _⟩ := request
    apply truth.set
    · exact net
    · exact table
    · exact told
    · intro queued member
      rcases List.mem_append.mp member with old | new
      · exact truth.queue h queued old
      · rw [List.mem_singleton.mp new]
        rw [net] at valid target
        exact ⟨up, curr, (tells (curr ▸ valid)).1, valid, target⟩
  · apply truth.set
    · exact net
    · exact table
    · exact told
    · exact truth.queue h

theorem step_truthful (ether : ∀ h nif, ((nets h).netiftab nif).Ether) (truth : Truthful nets s) (action : step op s = some s') :
    Truthful nets s' := by
  cases op with
  | arp h op =>
      simp only [step] at action
      split at action
      · cases action
      · rename_i other
        obtain ⟨arp, moved, rfl⟩ := Option.map_eq_some_iff.mp action
        apply truth.arp _ moved
        rintro ip pkt rfl
        exact other rfl
  | arpSendRqst h tid nif praddr getbuf writes =>
      obtain ⟨arp, moved, rfl⟩ := Option.map_eq_some_iff.mp action
      have truth' := truth.arp (fun _ _ => by intro same; cases same) moved
      apply truth'.send
      intro frame sent
      have same : ((s.host h).given getbuf writes).netiftab = (nets h).netiftab := by
        rw [← truth.net h]
        rfl
      exact arpSendRqst_announces same (by rw [same]; exact ether h nif) sent
  | arpRecv h nif frame padding =>
      simp only [step] at action
      split at action
      · rename_i takes
        obtain ⟨member, up⟩ := takes
        split at action
        · rename_i pkt handed
          cases action
          obtain ⟨rfl, len, curr, mem, long, type⟩ := netRecvArp_some handed
          rw [truth.net] at up type
          apply truth.arpRecv up curr
          rw [mem, len, List.length_append]
          intro valid
          rcases truth.wire frame member with announces | ⟨header, other⟩
          · obtain ⟨length, owner⟩ := arp_frame announces ether (nets h).order padding valid
            exact ⟨by omega, owner⟩
          · refine absurd ?_ other
            rw [ETH_HDR_LEN] at header
            rw [← type, net2hs_get16, net2hs_get16, inMemory_append (by omega) (by omega), inMemory_append (by omega) (by omega)]
        · cases action
          exact truth
      · cases action
  | arpDaemon h writes =>
      simp only [step] at action
      split at action
      · cases action
      · rename_i pkt rest queue
        cases action
        have all : ∀ pkt' ∈ pkt :: rest, Requested (nets h) pkt' := queue ▸ truth.queue h
        have request := all pkt (List.mem_cons_self ..)
        have truth' : Truthful nets (s.setHost h { s.host h with arpqueue := rest }) := by
          apply truth.set
          · exact truth.net h
          · exact truth.table h
          · exact truth.told h
          · exact fun pkt' member => all pkt' (List.mem_cons_of_mem _ member)
        apply truth'.send
        intro frame sent
        have same : ((s.host h).given true writes).netiftab = (nets h).netiftab := by
          rw [← truth.net h]
          rfl
        have order : ((s.host h).given true writes).order = (nets h).order := by
          rw [← truth.net h]
          rfl
        refine arpSendReply_announces same ?_ ?_ sent
        · constructor
          · rw [same]
            exact request.up
          · exact request.curr
          · exact request.len
          · rw [order]
            exact request.valid
          · rw [same, order]
            exact request.target
        · rw [same]
          exact ether h pkt.nif
  | other frame =>
      simp only [step] at action
      split at action <;> cases action
      rename_i other
      refine ⟨truth.net, truth.table, truth.told, truth.queue, fun frame' member => ?_⟩
      rcases List.mem_append.mp member with old | new
      · exact truth.wire frame' old
      · rw [List.mem_singleton.mp new]
        exact .inr other

/-- In every run, a table has the owner's hardware address for each protocol address that it has resolved, and so has a
lookup that succeeds. -/
theorem arp_owners {clktime : Nat → Nat} (ether : ∀ h nif, ((nets h).netiftab nif).Ether)
    (reach : Lib.Reach step (fun _ _ => True) (start nets clktime) s) :
    (∀ h i, ((s.host h).arp.arptab i).state = .resolved →
        AddrOwner nets ((s.host h).arp.arptab i).praddr ((s.host h).arp.arptab i).hwaddr) ∧
      ∀ h tid praddr lookups s' hwaddr, (s.host h).arp.thread tid = .inside praddr lookups .attempt →
        step (.arp h (.attempt tid)) s = some s' → (s'.host h).arp.thread tid = .back (some hwaddr) →
          AddrOwner nets praddr hwaddr := by
  have truth : Truthful nets s :=
    reach.invariant (start_truthful nets clktime) fun _ _ _ truth _ action => step_truthful ether truth action
  refine ⟨fun h i resolved => truth.told h _ _ ((truth.table h).known i resolved), ?_⟩
  intro h tid praddr lookups s' hwaddr thread action found
  have truth' := step_truthful ether truth action
  obtain ⟨arp, moved, rfl⟩ := Option.map_eq_some_iff.mp action
  obtain ⟨praddr', lookups', thread', rfl⟩ := Arp.leave_some moved
  rw [thread, Arp.Lookup.inside.injEq] at thread'
  obtain ⟨rfl, rfl, -⟩ := thread'
  have here : ((s.setHost h { s.host h with arp := (s.host h).arp.attempt tid praddr lookups }).host h).arp =
      (s.host h).arp.attempt tid praddr lookups := congrArg Host.arp (if_pos rfl)
  rw [here] at found
  apply truth'.told h praddr hwaddr
  rw [here]
  exact (Arp.attempt_found (truth.table h) found).1

end

/-! ## Two hosts -/

def hostAddr (h : Nat) : Netaddr := { type := ETHER_TYPE_IPv4, addr := [10, 0, 0, BitVec.ofNat 8 h], bound := Netaddr.ipv4_fits }

def hostHwaddr (h : Nat) : Netaddr :=
  { type := ARP_HWTYPE_ETHERNET, addr := [2, 0, 0, 0, 0, BitVec.ofNat 8 h], bound := Netaddr.ether_fits }

theorem ethernet_header : ETH_HDR_LEN = ETH_HDR_LEN := rfl

def hosts (h : Nat) : Net :=
  { order := if h = 0 then .little else .big
    netiftab := fun _ => ⟨true, 1500, ETH_HDR_LEN, hostAddr h, hostAddr 255, hostHwaddr h, ethernet_header⟩
    nnetif := 1
    rttab := []
    arp := fun _ _ => none
    writes := fun _ _ => true
    getbuf := true }

theorem hosts_ether (h nif : Nat) : ((hosts h).netiftab nif).Ether := ⟨rfl, rfl, show 0x0800 < 65536 by decide⟩

def asked : List Byte := (((arpSendRqst (hosts 0) 0 (hostAddr 1)).1.frames.map Prod.snd).headD [])

def replied : List Byte :=
  (((netRecvArp (hosts 1) 0 asked).map fun pkt => (arpSendReply (hosts 1) pkt).1.frames.map Prod.snd).getD []).headD []

def firstLookup : List Op :=
  [.arp 0 (.arpLookup 0 (hostAddr 1)), .arp 0 (.attempt 0), .arpSendRqst 0 0 0 (hostAddr 1) true (fun _ _ => true),
    .arp 0 (.recvclr 0), .arpRecv 1 0 asked [], .arpDaemon 1 (fun _ _ => true), .arpRecv 0 0 replied [], .arp 0 (.recvtime 0)]

theorem firstLookup_owners :
    ∃ s s', Lib.Reach step (fun _ _ => True) (start hosts fun _ => 0) s ∧ step (.arp 0 (.attempt 0)) s = some s' ∧
      (s'.host 0).arp.thread 0 = .back (some (hostHwaddr 1)) ∧ AddrOwner hosts (hostAddr 1) (hostHwaddr 1) := by
  have runs : (Lib.run step (fun _ _ => true) firstLookup (start hosts fun _ => 0)).map
      (fun s => ((s.host 0).arp.thread 0, (step (.arp 0 (.attempt 0)) s).map fun s' => (s'.host 0).arp.thread 0)) =
      some (.inside (hostAddr 1) 1 .attempt, some (.back (some (hostHwaddr 1)))) := by
    decide +kernel
  rw [Option.map_eq_some_iff] at runs
  obtain ⟨s, run, same⟩ := runs
  rw [Prod.mk.injEq, Option.map_eq_some_iff] at same
  obtain ⟨thread, s', action, found⟩ := same
  have reach : Lib.Reach step (fun _ _ => True) (start hosts fun _ => 0) s := Lib.Reach.run (fun _ _ _ => trivial) .init run
  exact ⟨s, s', reach, action, found, (arp_owners hosts_ether reach).2 0 0 _ _ s' _ thread action found⟩

end ArpSegment

end Xinu
