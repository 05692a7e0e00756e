import Xinu.Lib.Ring
import Xinu.Proof.Network.Checksum
import Xinu.System.Udp

namespace Xinu
open Lib (Byte load store)

def Packet.received (pkt : Packet) : Nat := ((pkt.len : Int) - pkt.curr).toNat

def Packet.udpLength (order : ByteOrder) (pkt : Packet) : Nat :=
  net2hs order (udpLen order pkt.mem pkt.curr)

/-- The length field leaves room for the header and is covered by the frame and a pool buffer. -/
def Packet.UdpConsistent (order : ByteOrder) (pkt : Packet) : Prop :=
  UDP_HDR_LEN ≤ pkt.udpLength order ∧ pkt.udpLength order ≤ pkt.received ∧
    UDP_PSEUDO_LEN + pkt.udpLength order ≤ UDP_BUF_LEN

instance (order : ByteOrder) (pkt : Packet) : Decidable (pkt.UdpConsistent order) :=
  inferInstanceAs (Decidable (_ ∧ _ ∧ _))

namespace Udps

@[simp] theorem setUdp_self (s : Udps) (i : Nat) (u : Udp) : (s.setUdp i u).udptab i = u := Function.update_self ..

@[simp] theorem setUdp_other {i j : Nat} (s : Udps) (u : Udp) (other : j ≠ i) :
    (s.setUdp i u).udptab j = s.udptab j :=
  Function.update_of_ne other ..

def ring (s : Udps) (i : Nat) : List (Int → Byte) :=
  Lib.ring (s.udptab i).inb UDP_MAX_PKTS (s.udptab i).istart (s.udptab i).icount

structure Ready (s : Udps) (i held : Nat) : Prop where
  start : (s.udptab i).istart < UDP_MAX_PKTS
  pool : (s.udptab i).inPool + (s.udptab i).icount = UDP_MAX_PKTS
  sem : (s.udptab i).isem.Valid
  signals : (s.udptab i).isem.units + (s.woken i).length + s.unsignalled i + held = (s.udptab i).icount
  order : s.taken i ++ s.ring i = s.arrived i
  sane : ∀ buffer ∈ s.arrived i, UDP_HDR_LEN ≤ udpLen s.order buffer UDP_PSEUDO_LEN

theorem Ready.congr {s s' : Udps} {i held : Nat} (ready : Ready s i held) (udp : s'.udptab i = s.udptab i)
    (woken : s'.woken i = s.woken i) (unsignalled : s'.unsignalled i = s.unsignalled i)
    (arrived : s'.arrived i = s.arrived i) (taken : s'.taken i = s.taken i) (order : s'.order = s.order) :
    Ready s' i held := by
  have ring : s'.ring i = s.ring i := by rw [Udps.ring, Udps.ring, udp]
  constructor
  · rw [udp]
    exact ready.start
  · rw [udp]
    exact ready.pool
  · rw [udp]
    exact ready.sem
  · rw [udp, woken, unsignalled]
    exact ready.signals
  · rw [taken, ring, arrived]
    exact ready.order
  · rw [arrived, order]
    exact ready.sane

def Valid (s : Udps) : Prop := ∀ i, (s.udptab i).state = .opened → Ready s i 0

theorem Valid.returns {s : Udps} (valid : Valid s) (t : Nat) (result : Int) (data : List Byte) :
    Valid (s.returns t result data) :=
  fun i opened => (valid i opened).congr rfl rfl rfl rfl rfl rfl

/-- The packets that are taken are safe to take. -/
def Consistent (s : Udps) : Op → Prop
  | .recv pkt src dst =>
      ∀ i, s.udpTarget pkt src dst = some i → (s.udptab i).state = .opened → pkt.UdpConsistent s.order
  | _ => True

theorem udpLen_lt (order : ByteOrder) (mem : Int → Byte) (a : Int) : udpLen order mem a < 65536 := get16_lt

theorem hostHeader_len (order : ByteOrder) (mem : Int → Byte) (a : Int) :
    udpLen order (hostHeader order mem a) a = net2hs order (udpLen order mem a) := by
  have first : udpLen order (put16 order (put16 order mem a (net2hs order (udpSrcPort order mem a))) (a + 2)
      (net2hs order (udpDstPort order (put16 order mem a (net2hs order (udpSrcPort order mem a))) a))) a =
      udpLen order mem a := by
    simp only [udpLen]
    rw [get16_put16_apart (by omega), get16_put16_apart (by omega)]
  have bound : net2hs order (udpLen order mem a) < 65536 := hs2net_lt get16_lt
  rw [hostHeader, first, udpLen, get16_put16, Nat.mod_eq_of_lt bound]

theorem udpBuffer_copied {order : ByteOrder} {mem : Int → Byte} {a : Int} {src dst : Netaddr} {k : Nat}
    (bound : k < udpLen order mem a) : udpBuffer order mem a src dst ((UDP_PSEUDO_LEN : Int) + k) = mem (a + k) := by
  rw [udpBuffer, Lib.store_within (by rw [Lib.length_load]; omega) 0, ← @Lib.getD_load mem a _ _ bound 0]
  congr 1
  omega

theorem udpBuffer_len {order : ByteOrder} {mem : Int → Byte} {a : Int} {src dst : Netaddr}
    (enough : UDP_HDR_LEN ≤ udpLen order mem a) :
    udpLen order (udpBuffer order mem a src dst) UDP_PSEUDO_LEN = udpLen order mem a := by
  rw [UDP_HDR_LEN] at enough
  apply get16_congr
  · exact udpBuffer_copied (k := 4) (by omega)
  · rw [show (a + 4 + 1 : Int) = a + (5 : Nat) by omega]
    exact udpBuffer_copied (k := 5) (by omega)

theorem udpRecv_none {s : Udps} {pkt : Packet} {src dst : Netaddr} (dropped : s.udpTarget pkt src dst = none) :
    s.udpRecv pkt src dst = some (s, SYSERR) := by
  rw [udpRecv, dropped]

theorem udpRecv_waits {s : Udps} {pkt : Packet} {src dst : Netaddr} {i : Nat}
    (target : s.udpTarget pkt src dst = some i) (empty : (s.udptab i).inPool = 0) :
    s.udpRecv pkt src dst = none := by
  simp only [udpRecv, target]
  rw [if_pos]
  split <;> exact empty

structure Received (s s' : Udps) (i : Nat) (buffer : Int → Byte) : Prop where
  ring : (s'.udptab i).inb =
    Function.update (s.udptab i).inb (((s.udptab i).istart + (s.udptab i).icount) % UDP_MAX_PKTS) buffer
  istart : (s'.udptab i).istart = (s.udptab i).istart
  icount : (s'.udptab i).icount = (s.udptab i).icount + 1
  inPool : (s'.udptab i).inPool = (s.udptab i).inPool - 1
  isem : (s'.udptab i).isem = (s.udptab i).isem
  state : (s'.udptab i).state = (s.udptab i).state
  arrived : s'.arrived i = s.arrived i ++ [buffer]
  unsignalled : s'.unsignalled i = s.unsignalled i + 1
  others : ∀ j ≠ i, s'.udptab j = s.udptab j ∧ s'.arrived j = s.arrived j ∧
    s'.unsignalled j = s.unsignalled j
  same : s'.order = s.order ∧ s'.woken = s.woken ∧ s'.taken = s.taken

theorem udpRecv_some {s : Udps} {pkt : Packet} {src dst : Netaddr} {i : Nat}
    (target : s.udpTarget pkt src dst = some i) (free : (s.udptab i).inPool ≠ 0) :
    ∃ s', s.udpRecv pkt src dst = some (s', OK) ∧
      Received s s' i (udpBuffer s.order (hostHeader s.order pkt.mem pkt.curr) pkt.curr src dst) := by
  rw [udpRecv, target]
  simp only
  generalize bound : (if (s.udptab i).bindfirst then _ else s.udptab i : Udp) = u
  have pool : u.inPool = (s.udptab i).inPool := by rw [← bound]; split <;> rfl
  have inb : u.inb = (s.udptab i).inb := by rw [← bound]; split <;> rfl
  have istart : u.istart = (s.udptab i).istart := by rw [← bound]; split <;> rfl
  have icount : u.icount = (s.udptab i).icount := by rw [← bound]; split <;> rfl
  have isem : u.isem = (s.udptab i).isem := by rw [← bound]; split <;> rfl
  have state : u.state = (s.udptab i).state := by rw [← bound]; split <;> rfl
  rw [if_neg (by rw [pool]; exact free)]
  refine ⟨_, rfl, ?_⟩
  constructor
  · simp only [setUdp, Function.update_self, inb, istart, icount]
  · simp only [setUdp, Function.update_self, istart]
  · simp only [setUdp, Function.update_self, icount]
  · simp only [setUdp, Function.update_self, pool]
  · simp only [setUdp, Function.update_self, isem]
  · simp only [setUdp, Function.update_self, state]
  · simp only [Function.update_self]
  · simp only [Function.update_self]
  · intro j other
    simp only [setUdp, Function.update_of_ne other, true_and]
  · exact ⟨rfl, rfl, rfl⟩

theorem udpTarget_room {s : Udps} {pkt : Packet} {src dst : Netaddr} {i : Nat}
    (target : s.udpTarget pkt src dst = some i) : (s.udptab i).icount < UDP_MAX_PKTS := by
  simp only [udpTarget] at target
  split at target
  · cases target
  · split at target
    · cases target
    · split at target
      · cases target
      · cases target
        omega

theorem Ready.received {s s' : Udps} {i : Nat} {buffer : Int → Byte} (ready : Ready s i 0)
    (room : (s.udptab i).icount < UDP_MAX_PKTS) (received : Received s s' i buffer)
    (sane : UDP_HDR_LEN ≤ udpLen s.order buffer UDP_PSEUDO_LEN) : Ready s' i 0 := by
  have pool := ready.pool
  have signals := ready.signals
  have icount := received.icount
  have inPool := received.inPool
  constructor
  · rw [received.istart]
    exact ready.start
  · omega
  · rw [received.isem]
    exact ready.sem
  · rw [received.isem, received.same.2.1, received.unsignalled]
    omega
  · have pushed : s'.ring i = s.ring i ++ [buffer] := by
      rw [ring, ring, received.ring, received.istart, received.icount]
      exact Lib.ring_push room buffer
    rw [received.same.2.2, received.arrived, pushed, ← List.append_assoc, ready.order]
  · rw [received.arrived, received.same.1]
    intro b member
    rcases List.mem_append.mp member with before | last
    · exact ready.sane b before
    · rw [List.mem_singleton.mp last]
      exact sane

theorem udpRecv_valid {s s' : Udps} {pkt : Packet} {src dst : Netaddr} {result : Int} (valid : Valid s)
    (consistent : Consistent s (.recv pkt src dst)) (recv : s.udpRecv pkt src dst = some (s', result)) :
    Valid s' ∧ s'.taken = s.taken := by
  cases target : s.udpTarget pkt src dst with
  | none =>
      rw [udpRecv_none target] at recv
      cases recv
      exact ⟨valid, rfl⟩
  | some i =>
      have free : (s.udptab i).inPool ≠ 0 := by
        intro empty
        rw [udpRecv_waits target empty] at recv
        cases recv
      obtain ⟨s₁, taken, received⟩ := udpRecv_some target free
      rw [taken] at recv
      cases recv
      refine ⟨?_, received.same.2.2⟩
      intro j opened
      by_cases self : j = i
      · subst self
        rw [received.state] at opened
        have ok := consistent j target opened
        refine (valid j opened).received (udpTarget_room target) received ?_
        have header : UDP_HDR_LEN ≤ udpLen s.order (hostHeader s.order pkt.mem pkt.curr) pkt.curr := by
          rw [hostHeader_len]
          exact ok.1
        rw [udpBuffer_len header]
        exact header
      · obtain ⟨udp, arrived, unsignalled⟩ := received.others j self
        rw [udp] at opened
        exact (valid j opened).congr udp (congrFun received.same.2.1 j) unsignalled arrived
          (congrFun received.same.2.2 j) received.same.1

theorem signal_valid {s : Udps} {i : Nat} (valid : Valid s) (due : 0 < s.unsignalled i) :
    Valid (s.signal i) := by
  intro j opened
  by_cases self : j = i
  · subst self
    have ready : Ready s j 0 := valid j (by simpa [signal, setUdp] using opened)
    have signals := ready.signals
    constructor
    · simpa [signal, setUdp] using ready.start
    · simpa [signal, setUdp] using ready.pool
    · simpa [signal, setUdp] using Lib.Sem.signal_valid ready.sem
    · rcases Lib.Sem.signal_cases ready.sem with ⟨t, -, released, units⟩ | ⟨-, -, released, units⟩
      · simp only [signal, setUdp, Function.update_self, released, units, Option.toList_some,
          List.length_append, List.length_singleton]
        omega
      · simp only [signal, setUdp, Function.update_self, released, units, Option.toList_none,
          List.append_nil]
        omega
    · simpa [signal, setUdp, ring] using ready.order
    · exact ready.sane
  · have udp : (s.signal i).udptab j = s.udptab j := by simp [signal, setUdp, self]
    rw [udp] at opened
    exact (valid j opened).congr udp (by simp [signal, self]) (by simp [signal, self]) rfl rfl rfl

def payload (order : ByteOrder) (passive : Bool) (buffer : Int → Byte) : Nat × Int :=
  if passive then (udpLen order buffer UDP_PSEUDO_LEN + UDP_PSEUDO_LEN, 0)
  else (udpLen order buffer UDP_PSEUDO_LEN - UDP_HDR_LEN, UDP_PSEUDO_LEN + UDP_HDR_LEN)

structure Read (s s' : Udps) (t : Nat) (reader : UdpReader) (buffer : Int → Byte) : Prop where
  ring : s.ring reader.dev = buffer :: s'.ring reader.dev
  taken : s'.taken reader.dev = s.taken reader.dev ++ [buffer]
  icount : (s'.udptab reader.dev).icount + 1 = (s.udptab reader.dev).icount
  inPool : (s'.udptab reader.dev).inPool = (s.udptab reader.dev).inPool + 1
  sane : UDP_HDR_LEN ≤ udpLen s.order buffer UDP_PSEUDO_LEN
  done : s'.readers t = none
  returned : s'.returned t = min reader.len (payload s.order (s.udptab reader.dev).passive buffer).1
  data : s'.data t = load buffer (payload s.order (s.udptab reader.dev).passive buffer).2
    (min reader.len (payload s.order (s.udptab reader.dev).passive buffer).1)

theorem readExtent_eq {order : ByteOrder} {passive : Bool} {buffer : Int → Byte} {len : Nat}
    (sane : UDP_HDR_LEN ≤ udpLen order buffer UDP_PSEUDO_LEN) :
    readExtent order passive buffer len =
      (min len (payload order passive buffer).1, (payload order passive buffer).2) := by
  have bound := udpLen_lt order buffer UDP_PSEUDO_LEN
  have exact : sub32 (udpLen order buffer UDP_PSEUDO_LEN) UDP_HDR_LEN =
      udpLen order buffer UDP_PSEUDO_LEN - UDP_HDR_LEN := by
    rw [sub32, WORD]
    omega
  have least (count : Nat) : (if len < count then len else count) = min len count := by
    split <;> omega
  cases passive with
  | true => simp only [readExtent, payload, if_true, least]
  | false =>
      simp only [readExtent, payload, Bool.false_eq_true, if_false]
      rw [exact, least]

theorem udpTake_ready {s : Udps} {t : Nat} {reader : UdpReader}
    (opened : (s.udptab reader.dev).state = .opened) (ready : Ready s reader.dev 1) :
    Ready (s.udpTake t reader) reader.dev 0 ∧
      Read s (s.udpTake t reader) t reader ((s.udptab reader.dev).inb (s.udptab reader.dev).istart) := by
  obtain ⟨n, more⟩ : ∃ n, (s.udptab reader.dev).icount = n + 1 := by
    have := ready.signals
    exact ⟨(s.udptab reader.dev).icount - 1, by omega⟩
  have first : s.ring reader.dev = (s.udptab reader.dev).inb (s.udptab reader.dev).istart ::
      Lib.ring (s.udptab reader.dev).inb UDP_MAX_PKTS (((s.udptab reader.dev).istart + 1) % UDP_MAX_PKTS) n := by
    rw [ring, more, Lib.ring_pop ready.start]
  have order := ready.order
  rw [first] at order
  have sane := ready.sane ((s.udptab reader.dev).inb (s.udptab reader.dev).istart)
    (by rw [← order]; simp)
  have pool := ready.pool
  have signals := ready.signals
  simp only [udpTake, opened, ne_eq, not_true_eq_false, if_false]
  refine ⟨⟨?_, ?_, ?_, ?_, ?_, ready.sane⟩, ⟨?_, ?_, ?_, ?_, sane, ?_, ?_, ?_⟩⟩
  · simp only [returns, setUdp, Function.update_self]
    exact Nat.mod_lt _ (by decide)
  · simp only [returns, setUdp, Function.update_self]
    omega
  · simp only [returns, setUdp, Function.update_self]
    exact ready.sem
  · simp only [returns, setUdp, Function.update_self]
    omega
  · simp only [returns, setUdp, Function.update_self, ring, more, Nat.add_sub_cancel]
    rw [List.append_assoc, List.singleton_append]
    exact order
  · rw [first]
    simp only [returns, setUdp, Function.update_self, ring, more, Nat.add_sub_cancel]
  · simp only [returns, setUdp, Function.update_self]
  · simp only [returns, setUdp, Function.update_self, more, Nat.add_sub_cancel]
  · simp only [returns, setUdp, Function.update_self]
  · simp only [returns, Function.update_self]
  · simp only [readExtent_eq sane, returns, Function.update_self]
  · simp only [readExtent_eq sane, returns, Function.update_self]

theorem udpTake_others {s : Udps} {t j : Nat} {reader : UdpReader} (other : j ≠ reader.dev) :
    (s.udpTake t reader).udptab j = s.udptab j ∧ (s.udpTake t reader).taken j = s.taken j := by
  simp only [udpTake]
  split
  · exact ⟨rfl, rfl⟩
  · simp only [returns, setUdp, Function.update_of_ne other, and_self]

theorem udpTake_same {s : Udps} {t : Nat} {reader : UdpReader} :
    (s.udpTake t reader).woken = s.woken ∧ (s.udpTake t reader).unsignalled = s.unsignalled ∧
      (s.udpTake t reader).arrived = s.arrived ∧ (s.udpTake t reader).order = s.order ∧
      ∀ j, ((s.udpTake t reader).udptab j).state = (s.udptab j).state := by
  simp only [udpTake]
  split
  · exact ⟨rfl, rfl, rfl, rfl, fun _ => rfl⟩
  · refine ⟨rfl, rfl, rfl, rfl, fun j => ?_⟩
    by_cases self : j = reader.dev
    · subst self
      simp only [returns, setUdp, Function.update_self]
    · simp only [returns, setUdp, Function.update_of_ne self]

theorem udpTake_valid {s : Udps} {t : Nat} {reader : UdpReader}
    (others : ∀ j ≠ reader.dev, (s.udptab j).state = .opened → Ready s j 0)
    (ready : (s.udptab reader.dev).state = .opened → Ready s reader.dev 1) :
    Valid (s.udpTake t reader) ∧
      ((s.udptab reader.dev).state = .opened →
        Read s (s.udpTake t reader) t reader ((s.udptab reader.dev).inb (s.udptab reader.dev).istart)) := by
  obtain ⟨woken, unsignalled, arrived, order, state⟩ := @udpTake_same s t reader
  refine ⟨?_, fun opened => (udpTake_ready opened (ready opened)).2⟩
  intro j opened
  rw [state] at opened
  by_cases self : j = reader.dev
  · subst self
    exact (udpTake_ready opened (ready opened)).1
  · obtain ⟨udp, taken⟩ := udpTake_others (s := s) (t := t) self
    exact (others j self opened).congr udp (congrFun woken j) (congrFun unsignalled j)
      (congrFun arrived j) taken order

def behindWait (s : Udps) : Op → Option (Nat × UdpReader)
  | .read t i len =>
      if (s.udptab i).noblock ∧ (s.udptab i).icount < 1 then none
      else if 0 < (s.udptab i).isem.count then some (t, ⟨i, len⟩)
      else none
  | .resume t => (s.readers t).map (Prod.mk t)
  | _ => none

theorem behindWait_cases {s : Udps} {op : Op} {t i len : Nat} (gets : s.behindWait op = some (t, ⟨i, len⟩)) :
    op = .read t i len ∨ op = .resume t ∧ s.readers t = some ⟨i, len⟩ := by
  cases op with
  | recv => cases gets
  | signal => cases gets
  | read t' i' len' =>
      simp only [behindWait] at gets
      split at gets
      · cases gets
      · split at gets
        · cases gets
          exact .inl rfl
        · cases gets
  | resume t' =>
      rw [behindWait, Option.map_eq_some_iff] at gets
      obtain ⟨reader, reads, same⟩ := gets
      cases same
      exact .inr ⟨rfl, reads⟩

/-- What a step has to do with the reading of a device. A call that gets behind `wait` takes a packet,
and no other step does. -/
structure Reads (s s' : Udps) (op : Op) (i : Nat) : Prop where
  takes : ∀ t len, s.behindWait op = some (t, ⟨i, len⟩) → ∃ buffer, Read s s' t ⟨i, len⟩ buffer
  keeps : (∀ t len, s.behindWait op ≠ some (t, ⟨i, len⟩)) → s'.taken i = s.taken i
  waits : ∀ t len, op = .read t i len → s.behindWait op = none →
    if (s.udptab i).noblock ∧ (s.udptab i).icount < 1 then s'.returned t = 0 ∧ s'.readers t = none
    else s'.readers t = some ⟨i, len⟩

theorem Reads.idle {s s' : Udps} {op : Op} {i : Nat} (none : s.behindWait op = none)
    (other : ∀ t len, op ≠ .read t i len) (same : s'.taken i = s.taken i) : Reads s s' op i := by
  constructor
  · intro t len gets
    rw [none] at gets
    cases gets
  · intro _
    exact same
  · intro t len reads
    exact absurd reads (other t len)

theorem Reads.elsewhere {s s' : Udps} {op : Op} {i t : Nat} {reader : UdpReader}
    (gets : s.behindWait op = some (t, reader)) (other : reader.dev ≠ i) (same : s'.taken i = s.taken i) :
    Reads s s' op i := by
  constructor
  · intro t' len gets'
    rw [gets] at gets'
    cases gets'
    exact absurd rfl other
  · intro _
    exact same
  · intro t' len _ none
    rw [gets] at none
    cases none

theorem Reads.took {s s' : Udps} {op : Op} {t : Nat} {reader : UdpReader} {buffer : Int → Byte}
    (gets : s.behindWait op = some (t, reader)) (read : Read s s' t reader buffer) :
    Reads s s' op reader.dev := by
  constructor
  · intro t' len gets'
    obtain ⟨rfl, same⟩ := Prod.mk.inj (Option.some.inj (gets.symm.trans gets'))
    exact ⟨buffer, by rw [← same]; exact read⟩
  · intro never
    exact absurd gets (never t reader.len)
  · intro t' len _ none
    rw [gets] at none
    cases none

theorem udpRead_valid {s : Udps} {t i len : Nat} (valid : Valid s) :
    Valid (s.udpRead t i len) ∧
      ∀ j, (s.udptab j).state = .opened → Reads s (s.udpRead t i len) (.read t i len) j := by
  rw [udpRead]
  simp only
  by_cases opened : (s.udptab i).state = .opened
  · rw [if_neg (by simp [opened])]
    by_cases empty : (s.udptab i).noblock = true ∧ (s.udptab i).icount < 1
    · rw [if_pos empty]
      have none : s.behindWait (.read t i len) = none := by rw [behindWait, if_pos empty]
      refine ⟨valid.returns _ _ _, fun j _ => ⟨?_, fun _ => rfl, ?_⟩⟩
      · intro t' len' gets
        rw [none] at gets
        cases gets
      · intro t' len' reads _
        cases reads
        rw [if_pos empty]
        exact ⟨Function.update_self .., Function.update_self ..⟩
    rw [if_neg empty]
    have ready := valid i opened
    have waited := Lib.Sem.wait_valid (t := t) ready.sem
    have signals := ready.signals
    have passes := Lib.Sem.wait_snd (s.udptab i).isem t
    generalize result : (s.udptab i).isem.wait t = pair at passes
    obtain ⟨isem, blocks⟩ := pair
    have after : isem = ((s.udptab i).isem.wait t).1 := by rw [result]
    have blocked : blocks = ((s.udptab i).isem.wait t).2 := by rw [result]
    have others (j : Nat) (other : j ≠ i) (opened : ((s.setUdp i { s.udptab i with isem }).udptab j).state = .opened) :
        Ready (s.setUdp i { s.udptab i with isem }) j 0 := by
      have udp : (s.setUdp i { s.udptab i with isem }).udptab j = s.udptab j := setUdp_other _ _ other
      rw [udp] at opened
      exact (valid j opened).congr udp rfl rfl rfl rfl rfl
    have own (held : Nat) (units : isem.units + held = (s.udptab i).isem.units) :
        Ready (s.setUdp i { s.udptab i with isem }) i held := by
      have udp : (s.setUdp i { s.udptab i with isem }).udptab i = { s.udptab i with isem } := setUdp_self ..
      constructor
      · rw [udp]
        exact ready.start
      · rw [udp]
        exact ready.pool
      · rw [udp, after]
        exact waited
      · rw [udp]
        show isem.units + (s.woken i).length + s.unsignalled i + held = (s.udptab i).icount
        omega
      · rw [ring, udp]
        exact ready.order
      · exact ready.sane
    cases blocks with
    | true =>
        have none : s.behindWait (.read t i len) = none := by
          rw [behindWait, if_neg empty, if_neg (passes.mp rfl)]
        refine ⟨?_, fun j _ => ⟨?_, fun _ => rfl, ?_⟩⟩
        · intro j opened
          have still : Ready (s.setUdp i { s.udptab i with isem }) j 0 := by
            by_cases self : j = i
            · rw [self]
              have none := Lib.Sem.wait_blocks blocked.symm
              rw [← after] at none
              exact own 0 (by omega)
            · exact others j self opened
          exact still.congr rfl rfl rfl rfl rfl rfl
        · intro t' len' gets
          rw [none] at gets
          cases gets
        · intro t' len' reads _
          cases reads
          rw [if_neg empty]
          exact Function.update_self ..
    | false =>
        have one := (Lib.Sem.wait_passes blocked.symm).2
        rw [← after] at one
        have gets : s.behindWait (.read t i len) = some (t, ⟨i, len⟩) := by
          rw [behindWait, if_neg empty, if_pos (not_not.mp (mt passes.mpr Bool.false_ne_true))]
        obtain ⟨after, reads⟩ := @udpTake_valid _ t ⟨i, len⟩ others fun _ => own 1 one
        refine ⟨after, fun j _ => ?_⟩
        by_cases self : j = i
        · subst self
          have udp : (s.setUdp j { s.udptab j with isem }).udptab j = { s.udptab j with isem } := setUdp_self ..
          have read := reads (by rw [udp]; exact opened)
          refine @Reads.took _ _ _ _ ⟨j, len⟩ _ gets ⟨?_, read.taken, ?_, ?_, read.sane, read.done, ?_, ?_⟩
          · rw [← read.ring, ring, ring, udp]
          · rw [read.icount, udp]
          · rw [read.inPool, udp]
          · rw [read.returned, udp]
            rfl
          · rw [read.data, udp]
            rfl
        · exact .elsewhere gets (Ne.symm self) (@udpTake_others _ _ _ ⟨i, len⟩ self).2
  · rw [if_pos opened]
    refine ⟨valid.returns _ _ _, fun j state => ?_⟩
    have other : j ≠ i := by
      rintro rfl
      exact opened state
    refine ⟨?_, fun _ => rfl, ?_⟩
    · intro t' len' gets
      rcases behindWait_cases gets with same | ⟨same, -⟩
      · cases same
        exact absurd rfl other
      · cases same
    · intro t' len' reads _
      cases reads
      exact absurd rfl other

theorem resume_valid {s : Udps} {t : Nat} {reader : UdpReader} (valid : Valid s)
    (waits : s.readers t = some reader) (member : t ∈ s.woken reader.dev) :
    Valid (s.resume t) ∧ ∀ j, (s.udptab j).state = .opened → Reads s (s.resume t) (.resume t) j := by
  have positive := List.length_pos_of_mem member
  have gets : s.behindWait (.resume t) = some (t, reader) := by rw [behindWait, waits, Option.map_some]
  simp only [resume, waits]
  obtain ⟨after, reads⟩ := @udpTake_valid
    { s with woken := Function.update s.woken reader.dev ((s.woken reader.dev).erase t) } t reader
    (fun j other opened => (valid j opened).congr rfl (Function.update_of_ne other ..) rfl rfl rfl rfl)
    (fun opened => by
      have ready := valid reader.dev opened
      have signals := ready.signals
      refine ⟨ready.start, ready.pool, ready.sem, ?_, ready.order, ready.sane⟩
      simp only [Function.update_self, List.length_erase_of_mem member]
      omega)
  refine ⟨after, fun j opened => ?_⟩
  by_cases self : j = reader.dev
  · subst self
    have read := reads opened
    exact .took gets ⟨read.ring, read.taken, read.icount, read.inPool, read.sane, read.done, read.returned, read.data⟩
  · exact .elsewhere gets (Ne.symm self) (udpTake_others self).2

theorem step_valid {s s' : Udps} {op : Op} (valid : Valid s) (consistent : Consistent s op)
    (action : step op s = some s') :
    Valid s' ∧ ∀ i, (s.udptab i).state = .opened → Reads s s' op i := by
  cases op with
  | recv pkt src dst =>
      rw [step, Option.map_eq_some_iff] at action
      obtain ⟨⟨_, result⟩, recv, rfl⟩ := action
      obtain ⟨after, taken⟩ := udpRecv_valid valid consistent recv
      exact ⟨after, fun i _ => .idle rfl (fun _ _ other => by cases other) (congrFun taken i)⟩
  | signal i =>
      rw [step] at action
      split at action
      · rename_i due
        cases action
        exact ⟨signal_valid valid due, fun _ _ => .idle rfl (fun _ _ other => by cases other) rfl⟩
      · cases action
  | read t i len =>
      rw [step] at action
      split at action
      · cases action
        exact udpRead_valid valid
      · cases action
  | resume t =>
      rw [step] at action
      split at action
      · rename_i waits
        cases action
        obtain ⟨reader, reads, member⟩ := waits
        exact resume_valid valid reads member
      · cases action

def Fresh (s : Udps) : Prop :=
  ∀ i, (s.udptab i).state = .opened → (s.udptab i).istart = 0 ∧ (s.udptab i).icount = 0 ∧
    (s.udptab i).inPool = UDP_MAX_PKTS ∧ (s.udptab i).isem = ⟨0, []⟩ ∧ s.woken i = [] ∧
    s.unsignalled i = 0 ∧ s.arrived i = [] ∧ s.taken i = []

theorem Fresh.valid {s : Udps} (fresh : Fresh s) : Valid s := by
  intro i opened
  obtain ⟨istart, icount, inPool, isem, woken, unsignalled, arrived, taken⟩ := fresh i opened
  constructor
  · rw [istart]
    decide
  · rw [inPool, icount]
  · rw [isem]
    rfl
  · rw [isem, woken, unsignalled, icount]
    rfl
  · rw [ring, icount, taken, arrived]
    rfl
  · rw [arrived]
    intro buffer member
    cases member

def Contained (s : Udps) (pkt : Packet) (src dst : Netaddr) (i : Nat) : Prop :=
  ∀ s' result, s.udpRecv pkt src dst = some (s', result) →
    s'.udptab i = s.udptab i ∧ s'.arrived i = s.arrived i ∨ pkt.UdpConsistent s.order

theorem contained_iff {s : Udps} {pkt : Packet} {src dst : Netaddr} {i : Nat} (ready : Ready s i 0) :
    Contained s pkt src dst i ↔ (s.udpTarget pkt src dst = some i → pkt.UdpConsistent s.order) := by
  constructor
  · intro contained target
    have pool := ready.pool
    have room := udpTarget_room target
    obtain ⟨s', recv, received⟩ := udpRecv_some target (by omega)
    rcases contained s' OK recv with ⟨same, -⟩ | consistent
    · have := received.icount
      rw [same] at this
      omega
    · exact consistent
  · intro consistent s' result recv
    cases target : s.udpTarget pkt src dst with
    | none =>
        rw [udpRecv_none target] at recv
        cases recv
        exact .inl ⟨rfl, rfl⟩
    | some j =>
        by_cases self : j = i
        · subst self
          exact .inr (consistent target)
        · by_cases free : (s.udptab j).inPool = 0
          · rw [udpRecv_waits target free] at recv
            cases recv
          · obtain ⟨s₁, taken, received⟩ := udpRecv_some target free
            rw [taken] at recv
            cases recv
            obtain ⟨udp, arrived, -⟩ := received.others i (Ne.symm self)
            exact .inl ⟨udp, arrived⟩

/-- Over any run that takes no unsafe packet, the devices read what has arrived, and a packet is
contained exactly when it is safe to take or not taken. -/
theorem udp_input {init s : Udps} (fresh : Fresh init) (reach : Lib.Reach step Consistent init s) :
    ∀ i, (s.udptab i).state = .opened →
      (s.udptab i).icount ≤ UDP_MAX_PKTS ∧ s.taken i ++ s.ring i = s.arrived i ∧
      (∀ pkt src dst, Contained s pkt src dst i ↔
        (s.udpTarget pkt src dst = some i → pkt.UdpConsistent s.order)) ∧
      (∀ pkt src dst, s.udpTarget pkt src dst = some i → ∃ s', s.udpRecv pkt src dst = some (s', OK) ∧
        Received s s' i (udpBuffer s.order (hostHeader s.order pkt.mem pkt.curr) pkt.curr src dst)) ∧
      ∀ op s', Consistent s op → step op s = some s' → Reads s s' op i := by
  have valid : Valid s := reach.invariant fresh.valid
    fun _ _ _ valid consistent action => (step_valid valid consistent action).1
  intro i opened
  have ready := valid i opened
  have pool := ready.pool
  refine ⟨by omega, ready.order, fun pkt src dst => contained_iff ready, ?_, ?_⟩
  · intro pkt src dst target
    have room := udpTarget_room target
    exact udpRecv_some target (by omega)
  · intro op s' consistent action
    exact (step_valid valid consistent action).2 i opened

def oneOpen : Udps where
  order := .little
  nudp := 1
  udptab _ :=
    { state := .opened, inPool := UDP_MAX_PKTS, icount := 0, istart := 0, inb := fun _ _ => 0, isem := ⟨0, []⟩
      localpt := 69, remotept := 0, localip := { type := ETHER_TYPE_IPv4, addr := [10, 0, 0, 1], bound := Netaddr.ipv4_fits }
      remoteip := { type := 0, addr := [], bound := Netaddr.empty_fits }, passive := false, noblock := false, bindfirst := false }
  readers _ := none
  woken _ := []
  unsignalled _ := 0
  arrived _ := []
  taken _ := []
  returned _ := 0
  data _ := []

def shortLength : Packet where
  nif := 0
  len := 54
  nethdr := 14
  curr := 34
  mem := store (fun _ => 0) 34 [4, 0, 0, 69, 0, 4, 0, 0]

def sender : Netaddr := { type := ETHER_TYPE_IPv4, addr := [10, 0, 0, 2], bound := Netaddr.ipv4_fits }
def receiver : Netaddr := { type := ETHER_TYPE_IPv4, addr := [10, 0, 0, 1], bound := Netaddr.ipv4_fits }

theorem oneOpen_fresh : Fresh oneOpen := fun _ _ => ⟨rfl, rfl, rfl, rfl, rfl, rfl, rfl, rfl⟩

def threeLetters : Packet where
  nif := 0
  len := 45
  nethdr := 14
  curr := 34
  mem := store (fun _ => 0) 34 [4, 0, 0, 69, 0, 11, 0, 0, 97, 98, 99]

def consistent (s : Udps) : Op → Bool
  | .recv pkt src dst => (s.udpTarget pkt src dst).all fun _ => decide (pkt.UdpConsistent s.order)
  | _ => true

theorem consistent_sound (s : Udps) (op : Op) (checked : consistent s op = true) : Consistent s op := by
  cases op with
  | recv pkt src dst =>
      intro i target _
      simpa [consistent, target] using checked
  | signal => trivial
  | read => trivial
  | resume => trivial

def threePackets : List Op :=
  [.read 1 0 5000, .recv threeLetters sender receiver, .signal 0, .recv threeLetters sender receiver, .resume 1,
    .signal 0, .read 2 0 2, .recv threeLetters sender receiver, .signal 0]

theorem oneOpen_input :
    ∃ s, Lib.Reach step Consistent oneOpen s ∧ s.returned 1 = 3 ∧ s.data 1 = [97, 98, 99] ∧ s.returned 2 = 2 ∧
      s.data 2 = [97, 98] ∧ (s.udptab 0).icount = 1 ∧ s.taken 0 ++ s.ring 0 = s.arrived 0 ∧
      ¬ Contained s shortLength sender receiver 0 ∧ ∃ buffer, Read s (s.udpRead 3 0 5000) 3 ⟨0, 5000⟩ buffer := by
  have runs : (Lib.run step consistent threePackets oneOpen).any (fun s => decide (
      s.returned 1 = 3 ∧ s.data 1 = [97, 98, 99] ∧ s.returned 2 = 2 ∧ s.data 2 = [97, 98] ∧ (s.udptab 0).icount = 1 ∧
      s.udpTarget shortLength sender receiver = some 0 ∧ s.order = .little ∧ (s.udptab 0).state = .opened ∧
      s.behindWait (.read 3 0 5000) = some (3, ⟨0, 5000⟩) ∧ s.readers 3 = none)) = true := by
    decide +kernel
  obtain ⟨s, run, observed⟩ := (Option.any_eq_true _ _).mp runs
  obtain ⟨first, letters, snd, cut, left, target, order, opened, gets, idle⟩ := of_decide_eq_true observed
  have reach := Lib.Reach.init.run consistent_sound run
  obtain ⟨-, fifo, contained, -, reads⟩ := udp_input oneOpen_fresh reach 0 opened
  refine ⟨s, reach, first, letters, snd, cut, left, fifo, ?_, ?_⟩
  · intro safe
    have small := ((contained shortLength sender receiver).mp safe target).1
    rw [order] at small
    exact absurd small (by decide +kernel)
  · exact (reads (.read 3 0 5000) _ trivial (by rw [step, if_pos idle])).takes 3 5000 gets

theorem shortLength_taken :
    Lib.Reach step (fun _ _ => True) oneOpen oneOpen ∧ ¬ Contained oneOpen shortLength sender receiver 0 ∧
      ∃ s, oneOpen.udpRecv shortLength sender receiver = some (s, OK) ∧
        ((s.signal 0).udpRead 1 0 5000).returned 1 = 5000 := by
  have target : oneOpen.udpTarget shortLength sender receiver = some 0 := by decide +kernel
  have short : ¬ shortLength.UdpConsistent oneOpen.order := by
    intro consistent
    exact absurd consistent.1 (by decide +kernel)
  obtain ⟨s, recv, -⟩ := udpRecv_some target (by decide)
  refine ⟨.init, fun contained => short ((contained_iff (oneOpen_fresh.valid 0 rfl)).mp contained target),
    s, recv, ?_⟩
  have read : (oneOpen.udpRecv shortLength sender receiver).map
      (fun result => ((result.1.signal 0).udpRead 1 0 5000).returned 1) = some 5000 := by decide +kernel
  rw [recv] at read
  exact Option.some.inj read

end Udps

end Xinu
