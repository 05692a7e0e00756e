import Xinu.Proof.Network.ArpSegment

namespace Xinu
open Lib (Byte load store)

section
variable {net : Net} {nif : Nat} {pkt : Packet} {hwaddr praddr : Netaddr} {type : Nat} {frame padding : List Byte}
  {a : Int} {n : Nat}

theorem load_inMemory_append (lo : 0 ≤ a) (hi : a + n ≤ frame.length) :
    load (inMemory (frame ++ padding)) a n = load (inMemory frame) a n := by
  apply Lib.load_congr
  intro i above below
  exact inMemory_append (by omega) (by omega)

theorem inMemory_loaded (mem : Int → Byte) (a : Int) {k m n : Nat} (within : k + m ≤ n) :
    load (inMemory (load mem a n)) k m = load mem (a + k) m := by
  apply Lib.load_shift
  intro i lo hi
  rw [inMemory_load (by omega) (by omega), Int.add_assoc]

theorem netSend_header (up : (net.netiftab pkt.nif).up = true) (ether : (net.netiftab pkt.nif).Ether)
    (six : hwaddr.addr.length = ETH_ADDR_LEN) (writes : net.writes pkt.nif (pkt.len + ETH_HDR_LEN) = true) :
    ∃ frame, (netSend net pkt (some hwaddr) praddr type).2.1.frames = [(pkt.nif, frame)] ∧ Framed frame pkt ∧
      load (inMemory frame) 0 ETH_ADDR_LEN = hwaddr.addr ∧ load (inMemory frame) 12 2 = net16 type := by
  obtain ⟨_, frame, result, framed⟩ := @netSend_framed net pkt (some hwaddr) praddr type up (by simp) writes
  refine ⟨frame, by rw [result], framed, ?_⟩
  have src := ether.hwalen
  rw [ETH_ADDR_LEN] at six src
  simp only [netSend, up, not_true_eq_false, if_false, Packet.pushHeader, (net.netiftab pkt.nif).ethernet, Option.some_or,
    writes, if_true, put16_net, Prod.mk.injEq, Traffic.mk.injEq, List.cons.injEq, and_true, true_and] at result
  rw [← result.2, Packet.bytes]
  dsimp only
  have header : ETH_HDR_LEN = 14 := rfl
  constructor
  · show load _ ((0 : Nat) : Int) 6 = _
    have place : pkt.curr - ETH_HDR_LEN + ((0 : Nat) : Int) = pkt.curr - ETH_HDR_LEN := Int.add_zero _
    rw [inMemory_loaded _ _ (by omega), place]
    exact Lib.load_stored six
  · show load _ ((12 : Nat) : Int) 2 = _
    rw [inMemory_loaded _ _ (by omega), Lib.load_store_apart (by omega), Lib.load_store_apart (by omega)]
    exact Lib.load_stored rfl

theorem netRecvArp_takes (long : ETH_HDR_LEN ≤ frame.length)
    (dst : load (inMemory frame) 0 ETH_ADDR_LEN = hwaddr.addr) (ether : hwaddr.type = ARP_HWTYPE_ETHERNET)
    (ours : hwaddr = (net.netiftab nif).hwaddr ∨ hwaddr = NETADDR_GLOBAL_ETH_BRC)
    (type : load (inMemory frame) 12 2 = net16 ETHER_TYPE_ARP) :
    netRecvArp net nif frame = some (netRecv net nif frame.length (inMemory frame)) := by
  have address (bound : (load (inMemory frame) 0 ETH_ADDR_LEN).length ≤ NET_MAX_ALEN) :
      (⟨ARP_HWTYPE_ETHERNET, load (inMemory frame) 0 ETH_ADDR_LEN, bound⟩ : Netaddr) = hwaddr :=
    Netaddr.ext ether.symm dst
  rw [netRecvArp, if_neg (Nat.not_lt_of_le long), if_pos]
  · rfl
  · exact ⟨ours.imp (address _).trans (address _).trans, net2hs_net16 type (by decide)⟩

theorem Framed.padded (framed : Framed frame pkt) {i : Int} (lo : 0 ≤ i) (hi : i < pkt.len) :
    inMemory (frame ++ padding) (ETH_HDR_LEN + i) = pkt.mem (pkt.curr + i) := by
  rw [inMemory_append (by omega) (by rw [framed.length]; omega)]
  exact framed.same i lo hi

theorem Framed.field (framed : Framed frame pkt) {k : Nat} (within : k + n ≤ pkt.len) :
    load (inMemory (frame ++ padding)) (ETH_HDR_LEN + k) n = load pkt.mem (pkt.curr + k) n := by
  apply Lib.load_shift
  intro i lo hi
  rw [Int.add_assoc, Int.add_assoc]
  exact framed.padded (by omega) (by omega)

end

namespace Arp

section
variable {s : Arp} {ip : Netaddr} {pkt : ArpPkt}

theorem scan_some {arptab : Nat → Entry} {indices : List Nat} {m : Nat} : (scan arptab indices (some m)).isSome := by
  induction indices generalizing m with
  | nil => rfl
  | cons k rest ih =>
      rw [scan]
      split
      · rfl
      · exact ih

theorem arpAlloc_isSome (s : Arp) : s.arpAlloc.isSome := by
  rw [arpAlloc, Option.isSome_map]
  show (scan s.arptab (0 :: (List.range 31).map Nat.succ) none).isSome
  rw [scan]
  split
  · rfl
  · exact scan_some

def Knows (s : Arp) (praddr hwaddr : Netaddr) : Prop :=
  ∃ i, (s.arptab i).state = .resolved ∧ (s.arptab i).praddr = praddr ∧ (s.arptab i).hwaddr = hwaddr ∧
    s.clktime ≤ (s.arptab i).expires

theorem arpNotify_knows {i : Nat} {praddr hwaddr : Netaddr} (msg : Int) (resolved : (s.arptab i).state = .resolved)
    (same : (s.arptab i).praddr = praddr) (known : (s.arptab i).hwaddr = hwaddr)
    (live : s.clktime ≤ (s.arptab i).expires) : Knows (s.arpNotify i msg) praddr hwaddr := by
  have clktime := (arpNotify_same s i msg).1
  refine ⟨i, ?_⟩
  rw [clktime]
  rcases arpNotify_entry s i msg i with kept | ⟨-, emptied⟩
  · rw [kept]
    exact ⟨resolved, same, known, live⟩
  · rw [emptied]
    exact ⟨resolved, same, known, live⟩

theorem resolve_knows {i : Nat} (used : (s.arptab i).state ≠ .free) (sha : Netaddr) :
    Knows (s.resolve i sha) (s.arptab i).praddr sha := by
  have live : s.clktime ≤ s.clktime + ARP_TTL_RESOLVED := Nat.le_add_right _ _
  rw [resolve]
  dsimp only
  split
  · apply arpNotify_knows
    · rw [setEntry_self]
    · rw [setEntry_self]
    · rw [setEntry_self]
    · rw [setEntry_self]
      exact live
  · rename_i known
    have resolved : (s.arptab i).state = .resolved := by
      cases state : (s.arptab i).state with
      | free => exact absurd state used
      | unresolved => exact absurd state known
      | resolved => rfl
    refine ⟨i, ?_⟩
    rw [setEntry_self]
    exact ⟨resolved, rfl, rfl, live⟩

theorem add_knows (s : Arp) (sha spa : Netaddr) : Knows (s.add sha spa) spa sha := by
  obtain ⟨⟨i, t⟩, alloc⟩ := Option.isSome_iff_exists.mp (arpAlloc_isSome s)
  have clktime : t.clktime = s.clktime := by
    rw [arpAlloc, Option.map_eq_some_iff] at alloc
    obtain ⟨_, -, rest⟩ := alloc
    cases rest
    rfl
  rw [add, alloc]
  refine ⟨i, ?_⟩
  dsimp only
  rw [setEntry_self]
  exact ⟨rfl, rfl, rfl, Nat.le_add_right t.clktime ARP_TTL_RESOLVED⟩

theorem arpRecv_knows (valid : pkt.valid = true) (ours : ip = pkt.dpa) : Knows (s.arpRecv ip pkt) pkt.spa pkt.sha := by
  have found := @getEntry_found s
  rw [arpRecv, if_neg (by rw [valid]; decide)]
  split
  · rename_i i t lookup
    rw [arpGetEntry] at lookup
    obtain ⟨-, used, same, -⟩ := @found i pkt.spa _ (by rw [lookup])
    rw [lookup] at used same
    have knows := @resolve_knows (t.announce pkt) i used pkt.sha
    rwa [show ((t.announce pkt).arptab i).praddr = pkt.spa from same] at knows
  · rw [if_pos ours]
    exact add_knows _ pkt.sha pkt.spa

end

end Arp

/-- An interface that takes part. -/
structure Station (net : Net) (nif : Nat) : Prop where
  up : (net.netiftab nif).up = true
  ether : (net.netiftab nif).Ether
  ipv4 : (net.netiftab nif).ip.Ipv4

theorem Station.len {net : Net} {nif : Nat} (station : Station net nif) :
    arpLen (net.netiftab nif).hwaddr (net.netiftab nif).ip = 28 := by
  show 8 + 2 * (net.netiftab nif).hwaddr.addr.length + 2 * (net.netiftab nif).ip.addr.length = 28
  have six : (net.netiftab nif).hwaddr.addr.length = 6 := station.ether.hwalen
  have four : (net.netiftab nif).ip.addr.length = 4 := station.ipv4.2
  rw [six, four]

structure Tells (net : Net) (pkt : Packet) (op : Nat) (hw ip target : Netaddr) : Prop where
  valid : (arpPkt net.order pkt.mem pkt.curr).valid = true
  sha : (arpPkt net.order pkt.mem pkt.curr).sha = hw
  spa : (arpPkt net.order pkt.mem pkt.curr).spa = ip
  dpa : (arpPkt net.order pkt.mem pkt.curr).dpa = target
  op : arpOp net.order pkt.mem pkt.curr = op

section
variable {a b net : Net} {i j nif : Nat} {pkt pkt' : Packet} {op : Nat} {target : Netaddr} {frame padding : List Byte}

theorem Station.tells (station : Station a i) (framed : Framed frame pkt) (long : 28 ≤ pkt.len) (small : op < 65536)
    (fields : ArpFields pkt.mem pkt.curr op (a.netiftab i).hwaddr (a.netiftab i).ip) (target4 : target.Ipv4)
    (dpa : load pkt.mem (pkt.curr + 24) 4 = target.addr) (mem : pkt'.mem = inMemory (frame ++ padding))
    (curr : pkt'.curr = ETH_HDR_LEN) : Tells net pkt' op (a.netiftab i).hwaddr (a.netiftab i).ip target := by
  have fields' : ArpFields pkt'.mem pkt'.curr op (a.netiftab i).hwaddr (a.netiftab i).ip := by
    apply fields.shift
    intro k lo hi
    rw [station.len] at hi
    rw [mem, curr]
    exact framed.padded lo (by omega)
  obtain ⟨hwt, prt, hwl, prl⟩ :=
    @ArpFields.read net.order _ _ _ _ _ fields' station.ether.wide station.ether.prtype
  have valid : (arpPkt net.order pkt'.mem pkt'.curr).valid = true := by
    simp only [Arp.ArpPkt.valid, hwt, prt, hwl, prl, station.ether.hwtype, station.ether.hwalen, station.ipv4.1, station.ipv4.2,
      decide_eq_true_eq, and_self]
  obtain ⟨-, sha, spa⟩ :=
    @ArpFields.taken net.order _ _ _ _ _ fields' station.ether.wide station.ether.prtype valid
  refine ⟨valid, sha, spa, Netaddr.ext ?_ ?_, net2hs_net16 fields'.op small⟩
  · show (arpPkt net.order pkt'.mem pkt'.curr).prtype = _
    rw [prt, station.ipv4.1, target4.1]
  · have field : load (inMemory (frame ++ padding)) (ETH_HDR_LEN + (24 : Nat)) 4 = load pkt.mem (pkt.curr + (24 : Nat)) 4 :=
      framed.field (by omega)
    rw [← mem, ← curr] at field
    refine (load_range pkt'.mem (pkt'.curr + 8) 16 4).trans ?_
    rw [Int.add_assoc]
    exact field.trans dpa

theorem Tells.arpRecv {host : Host} {hw ip : Netaddr} (tells : Tells host.net pkt op hw ip target)
    (ours : (host.net.netiftab pkt.nif).ip = target) :
    (host.arpRecv pkt).arp = host.arp.arpRecv target (arpPkt host.net.order pkt.mem pkt.curr) ∧
      (host.arpRecv pkt).arp.Knows ip hw ∧
      (op = ARP_OP_RQST → host.arpqueue.length < ARP_NQUEUE →
        (host.arpRecv pkt).arpqueue = host.arpqueue ++ [{ pkt with nethdr := pkt.curr }]) ∧
      (op ≠ ARP_OP_RQST → (host.arpRecv pkt).arpqueue = host.arpqueue) := by
  have arp : (host.arpRecv pkt).arp = host.arp.arpRecv target (arpPkt host.net.order pkt.mem pkt.curr) := by
    rw [Host.arpRecv]
    dsimp only
    rw [ours]
    split <;> rfl
  refine ⟨arp, ?_, fun request room => ?_, fun reply => ?_⟩
  · rw [arp, ← tells.spa, ← tells.sha]
    exact Arp.arpRecv_knows tells.valid tells.dpa.symm
  · rw [Host.arpRecv]
    dsimp only
    rw [if_pos]
    refine ⟨tells.valid, ours.trans tells.dpa.symm, ?_, tells.op.trans request, room⟩
    split
    · rfl
    · exact Arp.arpAlloc_isSome _
  · rw [Host.arpRecv]
    dsimp only
    rw [if_neg]
    exact fun takes => reply (tells.op.symm.trans takes.2.2.2.1)

theorem Station.request (sender : Station a i) (buffer : a.getbuf = true) (writes : a.writes i 42 = true) :
    ∃ frame, (arpSendRqst a i target).1.frames = [(i, frame)] ∧ Framed frame (arpRqst a i target) ∧
      (arpRqst a i target).len = 28 ∧ load (inMemory frame) 0 ETH_ADDR_LEN = NETADDR_GLOBAL_ETH_BRC.addr ∧
      load (inMemory frame) 12 2 = net16 ETHER_TYPE_ARP := by
  have six : (a.netiftab i).hwaddr.addr.length = 6 := sender.ether.hwalen
  have four : (a.netiftab i).ip.addr.length = 4 := sender.ipv4.2
  have len : (arpRqst a i target).len = 28 := by
    show 8 + (a.netiftab i).hwaddr.addr.length * 2 + (a.netiftab i).ip.addr.length * 2 = 28
    rw [six, four]
  obtain ⟨frame, frames, framed, header⟩ := @netSend_header a (arpRqst a i target) NETADDR_GLOBAL_ETH_BRC target ETHER_TYPE_ARP
    sender.up sender.ether rfl (by rw [len]; exact writes)
  refine ⟨frame, ?_, framed, len, header⟩
  rw [arpSendRqst, if_neg (by rw [buffer]; decide)]
  exact frames

theorem Requested.reply (request : Requested net pkt) (station : Station net pkt.nif)
    (writes : net.writes pkt.nif (pkt.len + ETH_HDR_LEN) = true) :
    ∃ frame, (arpSendReply net pkt).1.frames = [(pkt.nif, frame)] ∧ Framed frame (arpReply net pkt) ∧
      load (inMemory frame) 0 ETH_ADDR_LEN = (arpPkt net.order pkt.mem pkt.curr).sha.addr ∧
      load (inMemory frame) 12 2 = net16 ETHER_TYPE_ARP := by
  obtain ⟨fields, dha, -⟩ := arpReply_fields request station.ether
  have six : (net.netiftab pkt.nif).hwaddr.addr.length = 6 := station.ether.hwalen
  have four : (net.netiftab pkt.nif).ip.addr.length = 4 := station.ipv4.2
  have lens := fields.lens
  rw [six, four, Lib.load_two, Int.add_assoc] at lens
  obtain ⟨hwalen, lens⟩ := List.cons.inj lens
  have pralen : (arpReply net pkt).mem (pkt.curr + 5) = 4 := (List.cons.inj lens).1
  have address : (arpDst net.order (arpReply net pkt)).addr = (arpPkt net.order pkt.mem pkt.curr).sha.addr := by
    show (load _ (pkt.curr + 8 + (((arpReply net pkt).mem (pkt.curr + 4)).toNat + ((arpReply net pkt).mem (pkt.curr + 5)).toNat : Nat))
      ((arpReply net pkt).mem (pkt.curr + 4)).toNat).take NET_MAX_ALEN = load pkt.mem (pkt.curr + 8) 6
    rw [hwalen, pralen, Int.add_assoc]
    show (load _ (pkt.curr + 18) 6).take 6 = _
    rw [dha]
    exact List.take_of_length_le (Nat.le_of_eq Lib.length_load)
  have length : (arpDst net.order (arpReply net pkt)).addr.length = ETH_ADDR_LEN := by
    rw [address]
    exact Lib.length_load
  obtain ⟨frame, frames, framed, header, type⟩ := @netSend_header net (arpReply net pkt) (arpDst net.order (arpReply net pkt))
    (net.netiftab pkt.nif).ip ETHER_TYPE_ARP station.up station.ether length writes
  exact ⟨frame, frames, framed, header.trans address, type⟩

theorem netRecv_curr (net : Net) (nif len : Nat) (mem : Int → Byte) : (netRecv net nif len mem).curr = ETH_HDR_LEN :=
  congrArg Int.ofNat (net.netiftab nif).ethernet

theorem Station.asks (sender : Station a i) (target : Station b j) (buffer : a.getbuf = true) (writes : a.writes i 42 = true) :
    ∃ request, (arpSendRqst a i (b.netiftab j).ip).1.frames = [(i, request)] ∧
      ∀ padding, ∃ pkt, netRecvArp b j (request ++ padding) = some pkt ∧ pkt.nif = j ∧ pkt.curr = ETH_HDR_LEN ∧
        pkt.len = 42 + padding.length ∧
          Tells b pkt ARP_OP_RQST (a.netiftab i).hwaddr (a.netiftab i).ip (b.netiftab j).ip := by
  obtain ⟨request, frames, framed, len, dst, type⟩ := @Station.request a i (b.netiftab j).ip sender buffer writes
  have length : request.length = 42 := by
    rw [framed.length, len]
  have long (padding : List Byte) : (request ++ padding).length = 42 + padding.length := by
    rw [List.length_append, length]
  refine ⟨request, frames, fun padding => ⟨_, netRecvArp_takes ?_ ?_ rfl (.inr rfl) ?_, rfl, netRecv_curr .., long padding, ?_⟩⟩
  · rw [long]
    exact Nat.le_trans (by decide) (Nat.le_add_right 42 _)
  · rw [load_inMemory_append (by omega) (by rw [length]; decide), dst]
  · rw [load_inMemory_append (by omega) (by rw [length]; decide), type]
  · exact sender.tells framed (Nat.le_of_eq len.symm) (by decide) (arpRqst_fields sender.ether) target.ipv4
      (arpRqst_target sender.ether sender.ipv4 target.ipv4) rfl (netRecv_curr ..)

theorem Station.answers (sender : Station a i) (target : Station b pkt.nif) (request : Requested b pkt)
    (told : Tells b pkt op (a.netiftab i).hwaddr (a.netiftab i).ip (b.netiftab pkt.nif).ip)
    (writes : b.writes pkt.nif (pkt.len + ETH_HDR_LEN) = true) :
    ∃ reply, (arpSendReply b pkt).1.frames = [(pkt.nif, reply)] ∧
      ∀ padding, ∃ pkt', netRecvArp a i (reply ++ padding) = some pkt' ∧ pkt'.nif = i ∧
        Tells a pkt' ARP_OP_REPLY (b.netiftab pkt.nif).hwaddr (b.netiftab pkt.nif).ip (a.netiftab i).ip := by
  obtain ⟨reply, frames, framed, dst, type⟩ := request.reply target writes
  obtain ⟨fields, -, dpa⟩ := arpReply_fields request target.ether
  have len : ETH_HDR_LEN + 28 ≤ (arpReply b pkt).len := request.len
  have header : ETH_HDR_LEN = 14 := rfl
  have length : 42 ≤ reply.length := by
    rw [framed.length]
    omega
  have asker : load pkt.mem (pkt.curr + 14) 4 = (a.netiftab i).ip.addr := by
    have place : pkt.curr + 14 = pkt.curr + 8 + (6 : Nat) := by omega
    rw [← told.spa, place]
    exact (load_range pkt.mem (pkt.curr + 8) 6 4).symm
  refine ⟨reply, frames, fun padding => ⟨_, netRecvArp_takes ?_ ?_ sender.ether.hwtype (.inl rfl) ?_, rfl, ?_⟩⟩
  · rw [List.length_append]
    omega
  · rw [load_inMemory_append (by omega) (by rw [ETH_ADDR_LEN]; omega), dst, told.sha]
  · rw [load_inMemory_append (by omega) (by omega), type]
  · exact target.tells framed (by omega) (by decide) fields sender.ipv4 (dpa.trans asker) rfl (netRecv_curr ..)

/-- A request reaches another host, and the reply comes back: each of them knows the other's address then, and the threads
that have waited for it are told, if each is listed once and can be sent a message. -/
theorem arp_exchange (sender : Station a i) (target : Station b j) (buffer : a.getbuf = true) (writes : a.writes i 42 = true) :
    ∃ request, (arpSendRqst a i (b.netiftab j).ip).1.frames = [(i, request)] ∧
      ∀ padding (host : Host), host.net = b → host.arpqueue.length < ARP_NQUEUE →
        ∃ pkt queued, netRecvArp b j (request ++ padding) = some pkt ∧
          (host.arpRecv pkt).arp.Knows (a.netiftab i).ip (a.netiftab i).hwaddr ∧
          (host.arpRecv pkt).arpqueue = host.arpqueue ++ [queued] ∧
          (b.writes j (56 + padding.length) = true →
            ∃ reply, (arpSendReply b queued).1.frames = [(j, reply)] ∧
              ∀ padding' (host' : Host), host'.net = a →
                ∃ pkt', netRecvArp a i (reply ++ padding') = some pkt' ∧
                  (host'.arpRecv pkt').arp.Knows (b.netiftab j).ip (b.netiftab j).hwaddr ∧
                  (host'.arpRecv pkt').arpqueue = host'.arpqueue ∧
                  ∀ k t, host'.arp.arpGetEntry (b.netiftab j).ip = (some k, t) → (t.arptab k).state = .unresolved →
                    (t.arptab k).waiting.Nodup → (∀ tid ∈ (t.arptab k).waiting, Arp.Hears t.thread t.msg tid) →
                      ∀ tid ∈ (t.arptab k).waiting, (host'.arpRecv pkt').arp.msg tid = some ARP_MSG_RESOLVED) := by
  obtain ⟨request, frames, arrives⟩ := sender.asks target buffer writes
  refine ⟨request, frames, fun padding host here room => ?_⟩
  obtain ⟨pkt, handed, rfl, curr, len, told⟩ := arrives padding
  subst here
  obtain ⟨-, knows, queued, -⟩ := told.arpRecv rfl
  refine ⟨pkt, _, handed, knows, queued rfl room, fun writes' => ?_⟩
  have request : Requested host.net { pkt with nethdr := pkt.curr } :=
    ⟨target.up, curr, by rw [len]; exact Nat.le_add_right 42 _, told.valid, told.dpa.symm⟩
  have told' : Tells host.net { pkt with nethdr := pkt.curr } ARP_OP_RQST (a.netiftab i).hwaddr (a.netiftab i).ip
      (host.net.netiftab pkt.nif).ip := ⟨told.valid, told.sha, told.spa, told.dpa, told.op⟩
  have long : pkt.len + ETH_HDR_LEN = 56 + padding.length := by
    rw [len, ETH_HDR_LEN]
    omega
  obtain ⟨reply, frames', arrives'⟩ :=
    @Station.answers a host.net i { pkt with nethdr := pkt.curr } _ sender target request told' (long ▸ writes')
  refine ⟨reply, frames', fun padding' host' here => ?_⟩
  obtain ⟨pkt', handed', rfl, told''⟩ := arrives' padding'
  subst here
  obtain ⟨arp, knows', -, queue⟩ := told''.arpRecv rfl
  refine ⟨pkt', handed', knows', queue (by decide), fun k t lookup unresolved once hears => ?_⟩
  rw [arp]
  exact ((Arp.arpRecv_notifies told''.valid (by rw [told''.spa]; exact lookup) unresolved).mpr ⟨once, hears⟩).1

end

def asking : Host :=
  { net := ArpSegment.hosts 0
    arp := (Lib.run Arp.step (fun _ _ => true) [.arpLookup 0 (ArpSegment.hostAddr 1), .attempt 0, .arpSendRqst 0 true,
      .recvclr 0, .recvtime 0] (Arp.start 0)).getD (Arp.start 0)
    arpqueue := [] }

theorem two_hosts_exchange :
    ∃ request pkt queued reply pkt',
      (arpSendRqst (ArpSegment.hosts 0) 0 (ArpSegment.hostAddr 1)).1.frames = [(0, request)] ∧
        netRecvArp (ArpSegment.hosts 1) 0 (request ++ [0, 0]) = some pkt ∧
        ((ArpSegment.start ArpSegment.hosts fun _ => 0).host 1 |>.arpRecv pkt).arpqueue = [queued] ∧
        (arpSendReply (ArpSegment.hosts 1) queued).1.frames = [(0, reply)] ∧
        netRecvArp (ArpSegment.hosts 0) 0 (reply ++ []) = some pkt' ∧
        (asking.arpRecv pkt').arp.Knows (ArpSegment.hostAddr 1) (ArpSegment.hostHwaddr 1) ∧
        asking.arp.thread 0 = .inside (ArpSegment.hostAddr 1) 1 .waiting ∧
        (asking.arpRecv pkt').arp.msg 0 = some ARP_MSG_RESOLVED := by
  have station (h : Nat) : Station (ArpSegment.hosts h) 0 := ⟨rfl, ArpSegment.hosts_ether h 0, rfl, rfl⟩
  obtain ⟨request, asks, arrives⟩ := arp_exchange (station 0) (station 1) rfl rfl
  obtain ⟨pkt, queued, handed, -, queue, answers⟩ :=
    arrives [0, 0] ((ArpSegment.start ArpSegment.hosts fun _ => 0).host 1) rfl (by decide)
  obtain ⟨reply, replies, arrives'⟩ := answers rfl
  obtain ⟨pkt', handed', knows, -, told⟩ := arrives' [] asking rfl
  have thread : asking.arp.thread 0 = .inside (ArpSegment.hostAddr 1) 1 .waiting := by decide +kernel
  have found : (asking.arp.arpGetEntry (ArpSegment.hostAddr 1)).1 = some 0 := by decide +kernel
  have entry : ((asking.arp.arpGetEntry (ArpSegment.hostAddr 1)).2.arptab 0).state = .unresolved ∧
      ((asking.arp.arpGetEntry (ArpSegment.hostAddr 1)).2.arptab 0).waiting = [0] ∧
      (asking.arp.arpGetEntry (ArpSegment.hostAddr 1)).2.thread 0 ≠ .free ∧
      (asking.arp.arpGetEntry (ArpSegment.hostAddr 1)).2.msg 0 = none := by decide +kernel
  have lookup : asking.arp.arpGetEntry (ArpSegment.hostAddr 1) =
      (some 0, (asking.arp.arpGetEntry (ArpSegment.hostAddr 1)).2) := Prod.ext found rfl
  have waiting := told 0 _ lookup entry.1
  rw [entry.2.1] at waiting
  refine ⟨request, pkt, queued, reply, pkt', asks, handed, queue, replies, handed', knows, thread, ?_⟩
  refine waiting (List.pairwise_singleton _ _) (fun t member => ?_) 0 List.mem_cons_self
  rw [List.mem_singleton.mp member]
  exact entry.2.2

end Xinu
