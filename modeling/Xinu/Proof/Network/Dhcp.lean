import Xinu.System.Dhcp
import Mathlib.Tactic.SplitIfs

namespace Xinu.Dhcp
open Lib (Byte)

variable {s s' : Dhcp} {op : Op} {data : Data} {frame : List Byte} {state : State}

def decode : Nat → List Byte → Option (List (Nat × List Byte))
  | 0, _ => none
  | _ + 1, [] => none
  | n + 1, opt :: rest =>
      if opt.toNat = DHCP_OPT_END then some []
      else
        match rest with
        | [] => none
        | len :: rest =>
            if rest.length ≤ len.toNat then none
            else (decode n (rest.drop len.toNat)).map ((opt.toNat, rest.take len.toNat) :: ·)

def optionsOf (frame : List Byte) : Option (List (Nat × List Byte)) :=
  decode (frame.length - OPTS_AT) (frame.drop OPTS_AT)

def lastOption (p : Nat × List Byte → Bool) : List (Nat × List Byte) → Option (List Byte)
  | [] => none
  | o :: os => (lastOption p os).or (if p o then some o.2 else none)

def holds (opt : Nat) (o : Nat × List Byte) : Bool := o.1 = opt ∧ IPv4_ADDR_LEN ≤ o.2.length

def tells (state : State) (o : Nat × List Byte) : Bool :=
  o.1 = DHCP_OPT_MSGTYPE ∧ 1 ≤ o.2.length ∧ state.awaits (u8 o.2 0)

theorem options_decode (n : Nat) (bytes : List Byte) (o : Options) :
    options state n bytes o = (decode n bytes).map fun os => os.foldl (fun o x => o.take state x.1 x.2) o := by
  induction n generalizing bytes o with
  | zero => rfl
  | succ n ih =>
      match bytes with
      | [] => rfl
      | [opt] =>
          simp only [options, decode]
          split <;> rfl
      | opt :: len :: rest =>
          simp only [options, decode]
          split
          · rfl
          · split
            · rfl
            · rw [ih, Option.map_map]
              rfl

section
variable (o : Options) (opt : Nat) (d : List Byte)

theorem take_found_msg :
    (o.take state opt d).found_msg = if tells state (opt, d) then some (u8 d 0) else o.found_msg := by
  simp only [Options.take, tells, decide_eq_true_eq, DHCP_OPT_MSGTYPE, DHCP_OPT_SUBNET, DHCP_OPT_GATEWAY,
    DHCP_OPT_SERVER]
  split_ifs <;> grind

theorem take_mask : (o.take state opt d).mask =
    if holds DHCP_OPT_SUBNET (opt, d) then some (bytes d 0 IPv4_ADDR_LEN) else o.mask := by
  simp only [Options.take, holds, decide_eq_true_eq, DHCP_OPT_MSGTYPE, DHCP_OPT_SUBNET, DHCP_OPT_GATEWAY,
    DHCP_OPT_SERVER]
  split_ifs <;> grind

theorem take_gateway : (o.take state opt d).gateway =
    if holds DHCP_OPT_GATEWAY (opt, d) then some (bytes d 0 IPv4_ADDR_LEN) else o.gateway := by
  simp only [Options.take, holds, decide_eq_true_eq, DHCP_OPT_MSGTYPE, DHCP_OPT_SUBNET, DHCP_OPT_GATEWAY,
    DHCP_OPT_SERVER]
  split_ifs <;> grind

theorem take_server : (o.take state opt d).serverIpv4Addr =
    if holds DHCP_OPT_SERVER (opt, d) then u32 d 0 else o.serverIpv4Addr := by
  simp only [Options.take, holds, decide_eq_true_eq, DHCP_OPT_MSGTYPE, DHCP_OPT_SUBNET, DHCP_OPT_GATEWAY,
    DHCP_OPT_SERVER]
  split_ifs <;> grind

end

theorem foldl_take (os : List (Nat × List Byte)) (o : Options) :
    (os.foldl (fun o x => o.take state x.1 x.2) o).found_msg =
        ((lastOption (tells state) os).map (u8 · 0)).or o.found_msg ∧
      (os.foldl (fun o x => o.take state x.1 x.2) o).mask =
        ((lastOption (holds DHCP_OPT_SUBNET) os).map (bytes · 0 IPv4_ADDR_LEN)).or o.mask ∧
      (os.foldl (fun o x => o.take state x.1 x.2) o).gateway =
        ((lastOption (holds DHCP_OPT_GATEWAY) os).map (bytes · 0 IPv4_ADDR_LEN)).or o.gateway ∧
      (os.foldl (fun o x => o.take state x.1 x.2) o).serverIpv4Addr =
        ((lastOption (holds DHCP_OPT_SERVER) os).map (u32 · 0)).getD o.serverIpv4Addr := by
  induction os generalizing o with
  | nil => exact ⟨rfl, rfl, rfl, rfl⟩
  | cons x os ih =>
      obtain ⟨found, mask, gateway, server⟩ := ih (o.take state x.1 x.2)
      rw [List.foldl_cons, found, mask, gateway, server, take_found_msg, take_mask, take_gateway, take_server]
      simp only [lastOption]
      refine ⟨?_, ?_, ?_, ?_⟩
      · cases lastOption (tells state) os with
        | some _ => rfl
        | none => split <;> rfl
      · cases lastOption (holds DHCP_OPT_SUBNET) os with
        | some _ => rfl
        | none => split <;> rfl
      · cases lastOption (holds DHCP_OPT_GATEWAY) os with
        | some _ => rfl
        | none => split <;> rfl
      · cases lastOption (holds DHCP_OPT_SERVER) os with
        | some _ => rfl
        | none => split <;> rfl

theorem lastOption_mem {p : Nat × List Byte → Bool} {os : List (Nat × List Byte)} {d : List Byte}
    (found : lastOption p os = some d) : ∃ o ∈ os, p o = true ∧ o.2 = d := by
  induction os with
  | nil => cases found
  | cons o os ih =>
      rw [lastOption, Option.or_eq_some_iff] at found
      rcases found with found | ⟨-, found⟩
      · obtain ⟨o', member, meets, same⟩ := ih found
        exact ⟨o', List.mem_cons_of_mem _ member, meets, same⟩
      · split at found <;> cases found
        exact ⟨o, List.mem_cons_self, ‹_›, rfl⟩

def typeOf (state : State) (os : List (Nat × List Byte)) : Option Nat :=
  (lastOption (tells state) os).map (u8 · 0)

def identifier (os : List (Nat × List Byte)) : Option Nat := (lastOption (holds DHCP_OPT_SERVER) os).map (u32 · 0)

def serverOf (frame : List Byte) (os : List (Nat × List Byte)) : Nat :=
  let server := (identifier os).getD 0
  if server = 0 then siaddr frame else server

def senderOf (frame : List Byte) (os : List (Nat × List Byte)) : Nat := (identifier os).getD (siaddr frame)

theorem serverOf_sender {os : List (Nat × List Byte)} (named : identifier os ≠ some 0) :
    serverOf frame os = senderOf frame os := by
  rw [serverOf, senderOf]
  cases id : identifier os with
  | none => rfl
  | some server =>
      have nonzero : server ≠ 0 := by
        rintro rfl
        exact named id
      exact if_neg nonzero

/-- No reply that the client waits for has the server identifier 0.0.0.0 and a `siaddr` that is taken for it. -/
def Named (data : Data) (frame : List Byte) : Prop :=
  ∀ os ∈ optionsOf frame, isReply frame = true → xid frame = data.cxid → typeOf data.state os ≠ none →
    siaddr frame ≠ 0 → (data.state = .requesting → siaddr frame = data.serverIpv4Addr) → identifier os ≠ some 0

/-- An acknowledgement without a gateway comes while none is stored. -/
def Fresh (data : Data) (frame : List Byte) : Prop :=
  ∀ os ∈ optionsOf frame, isReply frame = true → xid frame = data.cxid → typeOf data.state os = some DHCPACK →
    lastOption (holds DHCP_OPT_GATEWAY) os = none → data.gateway = []

instance (data : Data) (frame : List Byte) : Decidable (Named data frame) :=
  inferInstanceAs (Decidable (∀ os ∈ optionsOf frame, _))

instance (data : Data) (frame : List Byte) : Decidable (Fresh data frame) :=
  inferInstanceAs (Decidable (∀ os ∈ optionsOf frame, _))

theorem typeOf_awaits {os : List (Nat × List Byte)} {msg : Nat} (type : typeOf state os = some msg) :
    state.awaits msg = true := by
  rw [typeOf, Option.map_eq_some_iff] at type
  obtain ⟨d, found, rfl⟩ := type
  obtain ⟨o, -, meets, rfl⟩ := lastOption_mem found
  rw [tells, decide_eq_true_eq] at meets
  exact meets.2.2

structure Replies (data : Data) (frame : List Byte) (os : List (Nat × List Byte)) (reply : Reply) : Prop where
  valid : isReply frame = true
  xid : xid frame = data.cxid
  options : optionsOf frame = some os
  type : typeOf data.state os = some reply.msg
  mask : reply.options.mask = (lastOption (holds DHCP_OPT_SUBNET) os).map (bytes · 0 IPv4_ADDR_LEN)
  gateway : reply.options.gateway = (lastOption (holds DHCP_OPT_GATEWAY) os).map (bytes · 0 IPv4_ADDR_LEN)
  server : reply.server = serverOf frame os
  hasMask : reply.msg = DHCPACK → reply.options.mask ≠ none
  nonzero : reply.server ≠ 0
  same : reply.msg ≠ DHCPOFFER → reply.server = data.serverIpv4Addr

theorem reply_some {reply : Reply} (found : data.reply frame = some reply) :
    ∃ os, Replies data frame os reply := by
  rw [Data.reply] at found
  split at found
  · cases found
  rename_i good
  rw [not_or, not_not, not_not] at good
  split at found
  · cases found
  rename_i o parsed
  rw [options_decode, Option.map_eq_some_iff] at parsed
  obtain ⟨os, decoded, rfl⟩ := parsed
  obtain ⟨type, mask, gateway, server⟩ := @foldl_take data.state os Options.none
  split at found
  · cases found
  rename_i msg known
  rw [type] at known
  split at found
  · cases found
  rename_i masked
  have sender : (if (os.foldl (fun o x => o.take data.state x.1 x.2) Options.none).serverIpv4Addr = 0 then
      siaddr frame else (os.foldl (fun o x => o.take data.state x.1 x.2) Options.none).serverIpv4Addr) =
      serverOf frame os := by
    rw [server]
    rfl
  dsimp only at found
  rw [sender] at found
  split at found
  · cases found
  rename_i nonzero
  split at found
  · cases found
  rename_i right
  cases found
  refine ⟨os, good.1, good.2.symm, decoded, ?_, ?_, ?_, ?_, ?_, nonzero, ?_⟩
  · rw [typeOf, ← known]
    exact (Option.or_none).symm
  · rw [mask]
    exact Option.or_none
  · rw [gateway]
    exact Option.or_none
  · rfl
  · intro ack none
    exact masked ⟨ack, none⟩
  · intro other
    by_contra wrong
    exact right ⟨other, wrong⟩

theorem Replies.other {os : List (Nat × List Byte)} {reply : Reply} (replies : Replies data frame os reply)
    (requesting : data.state = .requesting) : reply.msg ≠ DHCPOFFER := by
  have awaited := typeOf_awaits replies.type
  rw [requesting] at awaited
  intro offer
  rw [offer] at awaited
  cases awaited

theorem Replies.sender {os : List (Nat × List Byte)} {reply : Reply} (replies : Replies data frame os reply)
    (named : Named data frame) : reply.server = senderOf frame os := by
  rw [replies.server]
  apply serverOf_sender
  intro zero
  have fallback : reply.server = siaddr frame := by
    rw [replies.server, serverOf, zero]
    rfl
  refine named os replies.options replies.valid replies.xid ?_ ?_ ?_ zero
  · rw [replies.type]
    exact Option.some_ne_none _
  · rw [← fallback]
    exact replies.nonzero
  · intro requesting
    rw [← fallback]
    exact replies.same (replies.other requesting)

theorem reply_none {os : List (Nat × List Byte)} (options : optionsOf frame = some os)
    (requesting : data.state = .requesting) (named : Named data frame)
    (other : senderOf frame os ≠ data.serverIpv4Addr) : data.reply frame = none := by
  cases found : data.reply frame with
  | none => rfl
  | some reply =>
      obtain ⟨os', replies⟩ := reply_some found
      have same : os' = os := Option.some.inj (replies.options.symm.trans options)
      subst same
      have server := replies.same (replies.other requesting)
      rw [replies.sender named] at server
      exact absurd server other

theorem reply_stranger (stranger : xid frame ≠ data.cxid) : data.reply frame = none := by
  rw [Data.reply, if_pos (.inr (Ne.symm stranger))]

structure Offers (frame : List Byte) (cxid server offered : Nat) : Prop where
  valid : isReply frame = true
  xid : xid frame = cxid
  options : ∃ os, optionsOf frame = some os ∧ typeOf .selecting os = some DHCPOFFER ∧ senderOf frame os = server
  yiaddr : u32 frame (DHCP_AT + 16) = offered
  nonzero : server ≠ 0

structure Acks (frame : List Byte) (cxid server : Nat) (os : List (Nat × List Byte)) (mask : List Byte) :
    Prop where
  valid : isReply frame = true
  xid : xid frame = cxid
  options : optionsOf frame = some os
  type : typeOf .requesting os = some DHCPACK
  server : senderOf frame os = server
  mask : lastOption (holds DHCP_OPT_SUBNET) os = some mask

def Offered (s : Dhcp) : Prop :=
  ∃ o ∈ s.frames, Offers o s.data.cxid s.data.serverIpv4Addr s.data.offeredIpv4Addr

def Requested (s : Dhcp) : Prop :=
  s.Offered ∧ ∃ m, s.sent.getLast? = some m ∧ m.msgtype = DHCPREQUEST ∧ m.xid = s.data.cxid ∧
    m.server = some s.data.serverIpv4Addr ∧ m.request = some s.data.offeredIpv4Addr

/-- The addresses are those of an acknowledgement, and there is no gateway if it has none. -/
def Granted (s : Dhcp) : Prop :=
  ∃ a ∈ s.frames, ∃ os mask, Acks a s.data.cxid s.data.serverIpv4Addr os mask ∧ s.data.ip = yiaddr a ∧
    s.data.mask = bytes mask 0 IPv4_ADDR_LEN ∧
    s.data.gateway = ((lastOption (holds DHCP_OPT_GATEWAY) os).map (bytes · 0 IPv4_ADDR_LEN)).getD []

structure Inv (s : Dhcp) : Prop where
  waits : s.pc = .receiving ∨ (∃ retval, s.pc = .received retval) →
    s.data.state = .selecting ∨ s.data.state = .requesting
  offered : s.data.state = .selecting → s.pc = .received OK → s.Offered
  requested : s.data.state = .requesting ∨ s.data.state = .bound → s.Requested
  granted : s.data.state = .requesting → s.pc = .received OK → s.Granted
  bound : s.data.state = .bound → s.pc = .back OK ∧ s.Granted
  back : s.pc = .back OK → s.data.state = .bound

theorem start_inv (timeout clktime : Nat) : Inv (start timeout clktime) where
  waits waits := by rcases waits with wrong | ⟨_, wrong⟩ <;> cases wrong
  offered wrong := by cases wrong
  requested wrong := by rcases wrong with wrong | wrong <;> cases wrong
  granted wrong := by cases wrong
  bound wrong := by cases wrong
  back wrong := by cases wrong

theorem write_same {α : Type} (part : Data → α) (fs : List (Data → Data))
    (keep : ∀ f ∈ fs, ∀ data, part (f data) = part data) (data : Data) : part (data.write fs) = part data := by
  induction fs generalizing data with
  | nil => rfl
  | cons f fs ih =>
      have rest := ih (fun f member => keep f (List.mem_cons_of_mem _ member)) (f data)
      exact rest.trans (keep f List.mem_cons_self data)

theorem writes_keep (reply : Reply) (frame : List Byte) (n : Nat) (data : Data) :
    (data.write ((reply.writes frame).take n)).state = data.state ∧
      (data.write ((reply.writes frame).take n)).cxid = data.cxid := by
  have same := write_same (fun d => (d.state, d.cxid)) ((reply.writes frame).take n) (fun f member d => by
    have member := List.mem_of_mem_take member
    rw [Reply.writes] at member
    split at member
    · simp only [List.mem_cons, List.not_mem_nil, or_false] at member
      rcases member with rfl | rfl | rfl | rfl <;> rfl
    · split at member
      · rw [List.mem_singleton.mp member]
      · simp only [List.mem_cons, List.not_mem_nil, or_false] at member
        rcases member with rfl | rfl | rfl | rfl | rfl | rfl | rfl <;> dsimp only <;> split_ifs <;> rfl) data
  rw [Prod.mk.injEq] at same
  exact same

theorem writes_server {reply : Reply} (other : reply.msg ≠ DHCPOFFER) (frame : List Byte) (n : Nat) (data : Data) :
    (data.write ((reply.writes frame).take n)).serverIpv4Addr = data.serverIpv4Addr ∧
      (data.write ((reply.writes frame).take n)).offeredIpv4Addr = data.offeredIpv4Addr := by
  have same := write_same (fun d => (d.serverIpv4Addr, d.offeredIpv4Addr)) ((reply.writes frame).take n)
    (fun f member d => by
      have member := List.mem_of_mem_take member
      rw [Reply.writes, if_neg other] at member
      split at member
      · rw [List.mem_singleton.mp member]
      · simp only [List.mem_cons, List.not_mem_nil, or_false] at member
        rcases member with rfl | rfl | rfl | rfl | rfl | rfl | rfl <;> dsimp only <;> split_ifs <;> rfl) data
  rw [Prod.mk.injEq] at same
  exact same

theorem write_offer {reply : Reply} (offer : reply.msg = DHCPOFFER) (frame : List Byte) (data : Data) :
    (data.write (reply.writes frame)).recvStatus = OK ∧
      (data.write (reply.writes frame)).serverIpv4Addr = reply.server ∧
      (data.write (reply.writes frame)).offeredIpv4Addr = u32 frame (DHCP_AT + 16) := by
  rw [Reply.writes, if_pos offer]
  exact ⟨rfl, rfl, rfl⟩

theorem write_nak {reply : Reply} (nak : reply.msg = DHCPNAK) (frame : List Byte) (data : Data) :
    (data.write (reply.writes frame)).recvStatus = SYSERR := by
  rw [Reply.writes, if_neg (by rw [nak]; decide), if_pos nak]
  rfl

theorem write_ack {reply : Reply} (ack : reply.msg = DHCPACK) (frame : List Byte) (data : Data) :
    (data.write (reply.writes frame)).recvStatus = OK ∧ (data.write (reply.writes frame)).ip = yiaddr frame ∧
      (data.write (reply.writes frame)).mask = reply.options.mask.getD data.mask ∧
      (data.write (reply.writes frame)).gateway = reply.options.gateway.getD data.gateway := by
  rw [Reply.writes, if_neg (by rw [ack]; decide), if_neg (by rw [ack]; decide)]
  simp only [Data.write, List.foldl_cons, List.foldl_nil]
  split_ifs <;> simp only [and_self]

theorem Offered.keep (offered : s.Offered) (frames : ∀ f ∈ s.frames, f ∈ s'.frames)
    (cxid : s'.data.cxid = s.data.cxid) (server : s'.data.serverIpv4Addr = s.data.serverIpv4Addr)
    (address : s'.data.offeredIpv4Addr = s.data.offeredIpv4Addr) : s'.Offered := by
  obtain ⟨o, member, offers⟩ := offered
  rw [Offered, cxid, server, address]
  exact ⟨o, frames o member, offers⟩

theorem Requested.keep (requested : s.Requested) (frames : ∀ f ∈ s.frames, f ∈ s'.frames)
    (sent : s'.sent = s.sent) (cxid : s'.data.cxid = s.data.cxid)
    (server : s'.data.serverIpv4Addr = s.data.serverIpv4Addr)
    (address : s'.data.offeredIpv4Addr = s.data.offeredIpv4Addr) : s'.Requested := by
  obtain ⟨offered, last⟩ := requested
  refine ⟨offered.keep frames cxid server address, ?_⟩
  rw [sent, cxid, server, address]
  exact last

theorem idle_inv (state : s.data.state = .init ∨ s.data.state = .selecting)
    (pc : s.pc = .loop ∨ s.pc = .back SYSERR) : Inv s := by
  have busy : ¬ (s.data.state = .requesting ∨ s.data.state = .bound) := by
    rcases state with state | state <;> rw [state] <;> decide
  have idle : s.pc ≠ .receiving ∧ (∀ retval, s.pc ≠ .received retval) ∧ s.pc ≠ .back OK := by
    rcases pc with pc | pc <;> rw [pc] <;> exact ⟨nofun, nofun, by decide⟩
  constructor
  · rintro (wrong | ⟨_, wrong⟩)
    · exact absurd wrong idle.1
    · exact absurd wrong (idle.2.1 _)
  · intro _ wrong
    exact absurd wrong (idle.2.1 _)
  · intro wrong
    exact absurd wrong busy
  · intro wrong
    exact absurd (.inl wrong) busy
  · intro wrong
    exact absurd (.inr wrong) busy
  · intro wrong
    exact absurd wrong idle.2.2

theorem discover_inv (s : Dhcp) (hwaddr : Option (List Byte)) (xid : Nat) (sends : Bool)
    (init : s.data.state = .init) : Inv (s.discover hwaddr xid sends) := by
  cases hwaddr with
  | none => exact idle_inv (.inl init) (.inr rfl)
  | some hwaddr =>
      simp only [discover, dhcpSendRequest, message, init]
      cases sends
      · exact idle_inv (.inl rfl) (.inr rfl)
      · exact idle_inv (.inr rfl) (.inl rfl)

theorem setState_init (s : Dhcp) : Inv (s.setState .init .loop) := idle_inv (.inl rfl) (.inl rfl)

theorem handle_inv (inv : Inv s) {retval : Int} (pc : s.pc = .received retval) (sends : Bool) :
    Inv (s.handle retval sends) := by
  rcases inv.waits (.inr ⟨retval, pc⟩) with selecting | requesting
  · simp only [handle, selecting]
    split
    · exact setState_init s
    · rename_i ok
      rw [not_not] at ok
      subst ok
      have offered := inv.offered selecting pc
      simp only [dhcpSendRequest, message, selecting]
      cases sends
      · exact setState_init _
      · refine ⟨?_, ?_, ?_, ?_, ?_, ?_⟩
        · rintro (wrong | ⟨_, wrong⟩) <;> cases wrong
        · intro wrong
          cases wrong
        · rintro -
          refine ⟨offered, _, List.getLast?_concat, rfl, rfl, rfl, rfl⟩
        · intro _ wrong
          cases wrong
        · intro wrong
          cases wrong
        · intro wrong
          cases wrong
  · simp only [handle, requesting]
    split
    · rename_i ok
      subst ok
      have requested := inv.requested (.inl requesting)
      have granted := inv.granted requesting pc
      refine ⟨?_, ?_, fun _ => requested, ?_, fun _ => ⟨rfl, granted⟩, fun _ => rfl⟩
      · rintro (wrong | ⟨_, wrong⟩) <;> cases wrong
      · intro wrong
        cases wrong
      · intro wrong
        cases wrong
    · exact setState_init s

theorem Inv.received (inv : Inv s) (receiving : s.pc = .receiving) {retval : Int} (failed : retval ≠ OK)
    (pc : s'.pc = .received retval) (state : s'.data.state = s.data.state)
    (requested : s.data.state = .requesting → s'.Requested) : Inv s' := by
  have waits := inv.waits (.inl receiving)
  refine ⟨fun _ => state ▸ waits, ?_, ?_, ?_, ?_, ?_⟩
  · intro _ wrong
    rw [pc] at wrong
    exact absurd (Point.received.inj wrong) failed
  · rw [state]
    rintro (requesting | bound)
    · exact requested requesting
    · rcases waits with wrong | wrong <;> rw [bound] at wrong <;> cases wrong
  · intro _ wrong
    rw [pc] at wrong
    exact absurd (Point.received.inj wrong) failed
  · rw [state]
    intro bound
    rcases waits with wrong | wrong <;> rw [bound] at wrong <;> cases wrong
  · intro wrong
    rw [pc] at wrong
    cases wrong

theorem receive_none {frame : List Byte} (none : s.data.reply frame = none) :
    s.receive frame = { s with frames := s.frames ++ [frame] } := by
  simp only [receive, none]

theorem receive_some {frame : List Byte} {reply : Reply} (found : s.data.reply frame = some reply) :
    s.receive frame = { s with
      frames := s.frames ++ [frame]
      data := s.data.write (reply.writes frame)
      pc := .received (s.data.write (reply.writes frame)).recvStatus } := by
  simp only [receive, found]

theorem writes_all (reply : Reply) (frame : List Byte) :
    (reply.writes frame).take (reply.writes frame).length = reply.writes frame := List.take_length

theorem receive_inv (inv : Inv s) (receiving : s.pc = .receiving) {frame : List Byte} (named : Named s.data frame)
    (fresh : Fresh s.data frame) : Inv (s.receive frame) := by
  have more : ∀ f ∈ s.frames, f ∈ s.frames ++ [frame] := fun f member => List.mem_append_left _ member
  cases found : s.data.reply frame with
  | none =>
      rw [receive_none found]
      refine ⟨inv.waits, ?_, ?_, ?_, ?_, ?_⟩
      · intro _ wrong
        cases receiving.symm.trans wrong
      · intro state
        exact (inv.requested state).keep more rfl rfl rfl rfl
      · intro _ wrong
        cases receiving.symm.trans wrong
      · intro bound
        cases receiving.symm.trans (inv.bound bound).1
      · intro wrong
        cases receiving.symm.trans wrong
  | some reply =>
      obtain ⟨os, replies⟩ := reply_some found
      obtain ⟨state, cxid⟩ := writes_keep reply frame (reply.writes frame).length s.data
      have awaited := typeOf_awaits replies.type
      have type := replies.type
      rw [writes_all] at state cxid
      rw [receive_some found]
      rcases inv.waits (.inl receiving) with selecting | requesting
      · rw [selecting] at awaited type
        have offer : reply.msg = DHCPOFFER := by
          simpa [State.awaits] using awaited
        obtain ⟨status, server, offered⟩ := write_offer offer frame s.data
        refine ⟨fun _ => .inl (state.trans selecting), ?_, ?_, ?_, ?_, ?_⟩
        · intro _ _
          refine ⟨frame, List.mem_append_right _ List.mem_cons_self, replies.valid, ?_, ⟨os, replies.options, ?_, ?_⟩, ?_,
            ?_⟩
          · exact replies.xid.trans cxid.symm
          · rw [type, offer]
          · exact (server.trans (replies.sender named)).symm
          · exact offered.symm
          · rw [server]
            exact replies.nonzero
        · rintro (wrong | wrong) <;> cases (state.trans selecting).symm.trans wrong
        · intro wrong
          cases (state.trans selecting).symm.trans wrong
        · intro wrong
          cases (state.trans selecting).symm.trans wrong
        · intro wrong
          cases wrong
      · rw [requesting] at awaited type
        have known : reply.msg = DHCPACK ∨ reply.msg = DHCPNAK := by
          simpa [State.awaits] using awaited
        have other : reply.msg ≠ DHCPOFFER := by
          rcases known with known | known <;> rw [known] <;> decide
        obtain ⟨server, offered⟩ := writes_server other frame (reply.writes frame).length s.data
        rw [writes_all] at server offered
        have requested := @Requested.keep _ { s with
          frames := s.frames ++ [frame]
          data := s.data.write (reply.writes frame)
          pc := .received (s.data.write (reply.writes frame)).recvStatus } (inv.requested (.inl requesting)) more rfl cxid server offered
        rcases known with ack | nak
        · obtain ⟨-, ip, mask, gateway⟩ := write_ack ack frame s.data
          have some := replies.hasMask ack
          rw [replies.mask] at some mask
          obtain ⟨m, hasMask⟩ := Option.ne_none_iff_exists'.mp fun none => some (Option.map_eq_none_iff.mpr none)
          refine ⟨fun _ => .inr (state.trans requesting), ?_, fun _ => requested, ?_, ?_, ?_⟩
          · intro wrong
            cases (state.trans requesting).symm.trans wrong
          · intro _ _
            refine ⟨frame, List.mem_append_right _ List.mem_cons_self, os, m, ?_, ip, ?_, ?_⟩
            · refine ⟨replies.valid, replies.xid.trans cxid.symm, replies.options, ?_, ?_, hasMask⟩
              · rw [type, ack]
              · exact ((replies.sender named).symm.trans (replies.same other)).trans server.symm
            · rw [hasMask] at mask
              exact mask
            · show (s.data.write (reply.writes frame)).gateway = _
              rw [gateway, replies.gateway]
              cases has : lastOption (holds DHCP_OPT_GATEWAY) os with
              | some g => rfl
              | none =>
                  refine fresh os replies.options replies.valid replies.xid ?_ has
                  rw [replies.type, ack]
          · intro wrong
            cases (state.trans requesting).symm.trans wrong
          · intro wrong
            cases wrong
        · have status := write_nak nak frame s.data
          refine @Inv.received _ _ inv receiving SYSERR (by decide) ?_ state fun _ => requested
          show Point.received _ = _
          rw [status]

theorem interrupt_inv (inv : Inv s) (receiving : s.pc = .receiving) (frame : List Byte) (n : Nat) :
    Inv (s.interrupt frame n) := by
  have more : ∀ f ∈ s.frames, f ∈ s.frames ++ [frame] := fun f member => List.mem_append_left _ member
  rw [interrupt]
  dsimp only
  split
  · exact @Inv.received _ _ inv receiving TIMEOUT (by decide) rfl rfl fun requesting =>
      (inv.requested (.inl requesting)).keep more rfl rfl rfl rfl
  · rename_i reply found
    obtain ⟨os, replies⟩ := reply_some found
    obtain ⟨state, cxid⟩ := writes_keep reply frame n s.data
    refine @Inv.received _ _ inv receiving TIMEOUT (by decide) rfl state fun requesting => ?_
    have awaited := typeOf_awaits replies.type
    rw [requesting] at awaited
    have other : reply.msg ≠ DHCPOFFER := by
      rintro offer
      rw [offer] at awaited
      cases awaited
    obtain ⟨server, offered⟩ := writes_server other frame n s.data
    exact (inv.requested (.inl requesting)).keep more rfl cxid server offered

theorem iterate_inv (inv : Inv s) (loop : s.pc = .loop) (hwaddr : Option (List Byte)) (xid : Nat)
    (sends creates : Bool) : Inv (s.iterate hwaddr xid sends creates) := by
  have unbound : s.data.state ≠ .bound := by
    intro bound
    cases loop.symm.trans (inv.bound bound).1
  have wait (point : Point) (pc : point = .receiving ∨ point = .received SYSERR)
      (busy : s.data.state = .selecting ∨ s.data.state = .requesting) : Inv { s with pc := point } := by
    have failed : point ≠ .received OK ∧ point ≠ .back OK := by rcases pc with rfl | rfl <;> decide
    exact ⟨fun _ => busy, fun _ wrong => absurd wrong failed.1, inv.requested, fun _ wrong => absurd wrong failed.1,
      fun bound => absurd bound unbound, fun wrong => absurd wrong failed.2⟩
  rw [iterate]
  split
  · split
    · exact discover_inv s hwaddr xid sends ‹_›
    · apply wait _ _ (.inl ‹_›)
      cases creates
      · exact .inr rfl
      · exact .inl rfl
    · apply wait _ _ (.inr ‹_›)
      cases creates
      · exact .inr rfl
      · exact .inl rfl
    · exact absurd ‹_› unbound
  · refine ⟨?_, ?_, inv.requested, ?_, fun bound => absurd bound unbound, ?_⟩
    · rintro (wrong | ⟨_, wrong⟩) <;> cases wrong
    · intro _ wrong
      cases wrong
    · intro _ wrong
      cases wrong
    · intro wrong
      cases wrong

/-- What the frames of a run have to meet. -/
def Sound (s : Dhcp) : Op → Prop
  | .receive frame => Named s.data frame ∧ Fresh s.data frame
  | .interrupt frame _ => Named s.data frame
  | _ => True

theorem step_inv (inv : Inv s) (sound : Sound s op) (action : step op s = some s') : Inv s' := by
  cases op with
  | iterate hwaddr xid sends creates =>
      simp only [step] at action
      split at action <;> cases action
      exact iterate_inv inv ‹_› hwaddr xid sends creates
  | handle sends =>
      simp only [step] at action
      split at action <;> cases action
      exact handle_inv inv ‹_› sends
  | receive frame =>
      simp only [step] at action
      split at action <;> cases action
      exact receive_inv inv ‹_› sound.1 sound.2
  | fail =>
      simp only [step] at action
      split at action <;> cases action
      exact @Inv.received _ _ inv ‹_› SYSERR (by decide) rfl rfl fun requesting =>
        (inv.requested (.inl requesting)).keep (fun _ member => member) rfl rfl rfl rfl
  | timeout =>
      simp only [step] at action
      split at action <;> cases action
      exact @Inv.received _ _ inv ‹_› TIMEOUT (by decide) rfl rfl fun requesting =>
        inv.requested (.inl requesting)
  | interrupt frame n =>
      simp only [step] at action
      split at action <;> cases action
      exact interrupt_inv inv ‹_› frame n
  | tick =>
      cases action
      exact ⟨inv.waits, inv.offered, inv.requested, inv.granted, inv.bound, inv.back⟩

theorem ignored {os : List (Nat × List Byte)} (named : Named s.data frame)
    (stranger : xid frame ≠ s.data.cxid ∨
      optionsOf frame = some os ∧ s.data.state = .requesting ∧ senderOf frame os ≠ s.data.serverIpv4Addr) :
    (s.receive frame).data = s.data ∧ ∀ n, (s.interrupt frame n).data = s.data := by
  have none : s.data.reply frame = none := by
    rcases stranger with stranger | ⟨options, requesting, other⟩
    · exact reply_stranger stranger
    · exact reply_none options requesting named other
  refine ⟨by rw [receive_none none], fun n => ?_⟩
  simp only [interrupt, none]

theorem serverOf_known {os : List (Nat × List Byte)} {server : Nat} (sender : senderOf frame os = server)
    (known : server ≠ 0) : serverOf frame os = server := by
  rw [← sender]
  rw [senderOf] at sender
  apply serverOf_sender
  intro zero
  rw [zero] at sender
  exact known sender.symm

theorem reply_nak {os : List (Nat × List Byte)} (requesting : data.state = .requesting)
    (valid : isReply frame = true) (same : xid frame = data.cxid) (options : optionsOf frame = some os)
    (nak : typeOf .requesting os = some DHCPNAK) (server : serverOf frame os = data.serverIpv4Addr)
    (known : data.serverIpv4Addr ≠ 0) : ∃ reply, data.reply frame = some reply ∧ reply.msg = DHCPNAK := by
  obtain ⟨type, -, -, id⟩ := @foldl_take data.state os Options.none
  have parsed : Dhcp.options data.state (frame.length - OPTS_AT) (frame.drop OPTS_AT) Options.none =
      some (os.foldl (fun o x => o.take data.state x.1 x.2) Options.none) := by
    rw [options_decode]
    exact congrArg (Option.map _) options
  have msg : (os.foldl (fun o x => o.take data.state x.1 x.2) Options.none).found_msg = some DHCPNAK := by
    rw [type, requesting]
    exact Option.or_none.trans nak
  have sender : (if (os.foldl (fun o x => o.take data.state x.1 x.2) Options.none).serverIpv4Addr = 0 then
      siaddr frame else (os.foldl (fun o x => o.take data.state x.1 x.2) Options.none).serverIpv4Addr) =
      data.serverIpv4Addr := by
    rw [id, ← server]
    rfl
  refine ⟨⟨DHCPNAK, os.foldl (fun o x => o.take data.state x.1 x.2) Options.none, data.serverIpv4Addr⟩, ?_, rfl⟩
  rw [Data.reply, if_neg (by rw [valid, same]; simp), parsed]
  dsimp only
  rw [msg]
  dsimp only
  rw [if_neg (fun wrong => absurd wrong.1 (by decide)), sender, if_neg known,
    if_neg (fun wrong => wrong.2 rfl)]

theorem receive_nak {os : List (Nat × List Byte)} (requesting : s.data.state = .requesting)
    (valid : isReply frame = true) (same : xid frame = s.data.cxid) (options : optionsOf frame = some os)
    (nak : typeOf .requesting os = some DHCPNAK) (server : serverOf frame os = s.data.serverIpv4Addr)
    (known : s.data.serverIpv4Addr ≠ 0) : (s.receive frame).pc = .received SYSERR := by
  obtain ⟨reply, found, msg⟩ := reply_nak requesting valid same options nak server known
  rw [receive_some found, write_nak msg]

theorem handle_failed (inv : Inv s) {retval : Int} (pc : s.pc = .received retval) (failed : retval ≠ OK)
    (sends : Bool) : (s.handle retval sends).data.state = .init ∧ (s.handle retval sends).pc = .loop := by
  rcases inv.waits (.inr ⟨retval, pc⟩) with selecting | requesting
  · simp only [handle, selecting, if_pos failed]
    exact ⟨rfl, rfl⟩
  · simp only [handle, requesting, if_neg failed]
    exact ⟨rfl, rfl⟩

/-- `dhcpClient` returns `OK` only behind a request for an offer and an acknowledgement of it with a mask,
whose addresses are then stored. A timeout and a refusal lead back to discovery, and replies to others or
from others have no effect. -/
theorem dhcpClient_safe {timeout clktime : Nat} (reach : Lib.Reach step Sound (start timeout clktime) s) :
    (s.pc = .back OK → s.Requested ∧ s.Granted) ∧
      (∀ s', s.pc = .receiving → step .timeout s = some s' → s'.pc = .received TIMEOUT) ∧
      (∀ frame os s', step (.receive frame) s = some s' → s.data.state = .requesting → isReply frame = true →
        xid frame = s.data.cxid → optionsOf frame = some os → typeOf .requesting os = some DHCPNAK →
        senderOf frame os = s.data.serverIpv4Addr → s'.pc = .received SYSERR) ∧
      (∀ retval sends s', s.pc = .received retval → retval ≠ OK → step (.handle sends) s = some s' →
        s'.data.state = .init ∧ s'.pc = .loop) ∧
      ∀ frame os s', Named s.data frame → (xid frame ≠ s.data.cxid ∨
          optionsOf frame = some os ∧ s.data.state = .requesting ∧ senderOf frame os ≠ s.data.serverIpv4Addr) →
        (step (.receive frame) s = some s' ∨ ∃ n, step (.interrupt frame n) s = some s') → s'.data = s.data := by
  have inv : Inv s := reach.invariant (start_inv timeout clktime) fun _ _ _ => step_inv
  refine ⟨?_, ?_, ?_, ?_, ?_⟩
  · intro ok
    have bound := inv.back ok
    exact ⟨inv.requested (.inr bound), (inv.bound bound).2⟩
  · intro s' receiving action
    simp only [step, if_pos receiving, Option.some.injEq] at action
    rw [← action]
  · intro frame os s' action requesting valid same options nak sender
    simp only [step] at action
    split at action <;> cases action
    obtain ⟨⟨o, -, offers⟩, -⟩ := inv.requested (.inl requesting)
    have server := serverOf_known sender offers.nonzero
    exact receive_nak requesting valid same options nak server offers.nonzero
  · intro retval sends s' pc failed action
    simp only [step, pc, Option.some.injEq] at action
    rw [← action]
    exact handle_failed inv pc failed sends
  · intro frame os s' named stranger action
    obtain ⟨whole, part⟩ := ignored named stranger
    rcases action with action | ⟨n, action⟩
    · simp only [step] at action
      split at action <;> cases action
      exact whole
    · simp only [step] at action
      split at action <;> cases action
      exact part n

def packet (siaddr options : List Byte) : List Byte :=
  List.replicate 12 0 ++ [8, 0] ++ (List.replicate 9 0 ++ [17] ++ List.replicate 10 0) ++
    [0, 67, 0, 68, 0, 0, 0, 0] ++ ([2, 1, 6, 0, 0, 0, 0, 7] ++ List.replicate 8 0 ++ [10, 0, 0, 9]) ++ siaddr ++
    List.replicate 216 0 ++ options

def offer : List Byte := packet [0, 0, 0, 0] [53, 1, 2, 54, 4, 10, 0, 0, 1, 255]

def ack : List Byte :=
  packet [0, 0, 0, 0] [53, 1, 5, 54, 4, 10, 0, 0, 1, 1, 4, 255, 255, 255, 0, 3, 4, 10, 0, 0, 2, 255]

def exchange (reply : List Byte) : List Op :=
  [.iterate (some [1, 2, 3, 4, 5, 6]) 7 true true, .iterate none 0 true true, .receive offer, .handle true,
    .iterate none 0 true true, .receive reply, .handle true]

def sound (s : Dhcp) : Op → Bool
  | .receive frame => decide (Named s.data frame ∧ Fresh s.data frame)
  | .interrupt frame _ => decide (Named s.data frame)
  | _ => true

theorem sound_sound (s : Dhcp) (op : Op) (checked : sound s op = true) : Sound s op := by
  cases op with
  | receive frame =>
      rw [sound, decide_eq_true_eq] at checked
      exact checked
  | interrupt frame n =>
      rw [sound, decide_eq_true_eq] at checked
      exact checked
  | iterate => trivial
  | handle => trivial
  | fail => trivial
  | timeout => trivial
  | tick => trivial

theorem exchange_safe :
    ∃ s, Lib.Reach step Sound (start 10 0) s ∧ s.pc = .back OK ∧ s.data.gateway = [10, 0, 0, 2] ∧
      s.Requested ∧ s.Granted := by
  have runs : (Lib.run step sound (exchange ack) (start 10 0)).map
      (fun s => (s.pc, s.data.gateway)) = some (.back OK, [10, 0, 0, 2]) := by
    decide +kernel
  rw [Option.map_eq_some_iff] at runs
  obtain ⟨s, run, same⟩ := runs
  rw [Prod.mk.injEq] at same
  have reach : Lib.Reach step Sound (start 10 0) s := Lib.Reach.run sound_sound .init run
  exact ⟨s, reach, same.1, same.2, (dhcpClient_safe reach).1 same.1⟩

def zeroAck : List Byte :=
  packet [10, 0, 0, 1] [53, 1, 5, 54, 4, 0, 0, 0, 0, 1, 4, 255, 255, 255, 0, 255]

def plainAck : List Byte := packet [0, 0, 0, 0] [53, 1, 5, 54, 4, 10, 0, 0, 1, 1, 4, 255, 255, 255, 0, 255]

def cutOff : List Op :=
  (exchange ack).take 5 ++ [.interrupt ack 4, .handle true] ++ exchange plainAck

theorem zeroAck_taken :
    (∃ s, Lib.Reach step (fun _ _ => True) (start 10 0) s ∧ s.pc = .back OK ∧ s.frames = [offer, zeroAck] ∧
      (optionsOf offer).map identifier = some (some 167772161) ∧ (optionsOf zeroAck).map identifier = some (some 0)) ∧
    ∃ s, Lib.Reach step (fun _ _ => True) (start 10 0) s ∧ s.pc = .back OK ∧ s.frames.getLast? = some plainAck ∧
      (optionsOf plainAck).map (lastOption (holds DHCP_OPT_GATEWAY)) = some none ∧
      s.data.gateway = [10, 0, 0, 2] := by
  have zero : (Lib.run step (fun _ _ => true) (exchange zeroAck) (start 10 0)).map
      (fun s => (s.pc, s.frames)) = some (.back OK, [offer, zeroAck]) := by
    decide +kernel
  have stale : (Lib.run step (fun _ _ => true) cutOff (start 10 0)).map
      (fun s => (s.pc, s.frames.getLast?, s.data.gateway)) = some (.back OK, some plainAck, [10, 0, 0, 2]) := by
    decide +kernel
  rw [Option.map_eq_some_iff] at zero stale
  obtain ⟨s, run, same⟩ := zero
  obtain ⟨s', run', same'⟩ := stale
  simp only [Prod.mk.injEq] at same same'
  have reach : Lib.Reach step (fun _ _ => True) (start 10 0) s := Lib.Reach.run (fun _ _ _ => trivial) .init run
  have reach' : Lib.Reach step (fun _ _ => True) (start 10 0) s' := Lib.Reach.run (fun _ _ _ => trivial) .init run'
  exact ⟨⟨s, reach, same.1, same.2, by decide +kernel, by decide +kernel⟩,
    s', reach', same'.1, same'.2.1, by decide +kernel, same'.2.2⟩

end Xinu.Dhcp
