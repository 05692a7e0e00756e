import Xinu.Proof.Network.Tftp
import Mathlib.Data.List.Infix
import Mathlib.Tactic.SplitIfs

/-!
# TFTP downloads

A server sends a file block by block, each again until it is acknowledged, and the network loses,
delays and duplicates packets and adds others. What `tftpGet` passes on is a prefix of the blocks.
-/

namespace Xinu.Tftp
open Lib (Byte)

def block (file : List Byte) (j : Nat) : List Byte :=
  (file.drop (TFTP_BLOCK_SIZE * (j - 1))).take TFTP_BLOCK_SIZE

/-- The number of blocks. The last one is short, and may be empty. -/
def total (file : List Byte) : Nat := file.length / TFTP_BLOCK_SIZE + 1

def blocks (file : List Byte) : List (List Byte) :=
  (List.range (total file)).map fun i : Nat => block file (i + 1)

def dataPacket (file : List Byte) (j : Nat) : List Byte :=
  [0, 3, BitVec.ofNat 8 (j % 2 ^ 16 / 256), BitVec.ofNat 8 (j % 256)] ++ block file j

namespace Datagram

def opcode (d : Datagram) : Nat := 256 * (d.payload.getD 0 0).toNat + (d.payload.getD 1 0).toNat
def number (d : Datagram) : Nat := 256 * (d.payload.getD 2 0).toNat + (d.payload.getD 3 0).toNat

def Numbered (d : Datagram) (m : Nat) : Prop :=
  4 ≤ d.payload.length ∧ d.opcode = TFTP_OPCODE_DATA ∧ d.number = m % 2 ^ 16

end Datagram

section
variable {file : List Byte} {j : Nat}

theorem length_block (file : List Byte) (j : Nat) :
    (block file j).length = min TFTP_BLOCK_SIZE (file.length - TFTP_BLOCK_SIZE * (j - 1)) := by
  rw [block, List.length_take, List.length_drop]

theorem block_short (first : 1 ≤ j) (last : j ≤ total file) :
    (block file j).length < TFTP_BLOCK_SIZE ↔ j = total file := by
  rw [length_block]
  simp only [total, TFTP_BLOCK_SIZE] at last ⊢
  omega

theorem length_blocks (file : List Byte) : (blocks file).length = total file := by
  rw [blocks, List.length_map, List.length_range]

theorem blocks_getElem? (bound : j < total file) : (blocks file)[j]? = some (block file (j + 1)) := by
  rw [blocks, List.getElem?_map, List.getElem?_range bound, Option.map_some]

theorem dataPacket_numbered (source : Endpoint) (j : Nat) :
    Datagram.Numbered ⟨source, dataPacket file j⟩ j := by
  refine ⟨by simp [dataPacket], rfl, ?_⟩
  simp only [Datagram.number, dataPacket, List.cons_append, List.getD_cons_succ, List.getD_cons_zero,
    BitVec.toNat_ofNat]
  omega

theorem length_dataPacket (file : List Byte) (j : Nat) :
    (dataPacket file j).length = 4 + (block file j).length := by
  rw [dataPacket, List.length_append]
  rfl

end

variable {s s' : Tftp} {op : Op} {d : Datagram} {file : List Byte}

def Parent.holds : Parent → Bool
  | .got retval => retval ≠ TIMEOUT
  | _ => false

def Child.holds : Child → Bool
  | .readDone _ => true
  | _ => false

def carried (s : Tftp) : Nat := s.child.holds.toNat + s.msg.isSome.toNat + s.pc.holds.toNat

structure Single (s : Tftp) : Prop where
  one : s.carried ≤ 1
  loaded : Loaded s
  child : ∀ result, s.child = .readDone result → ∃ d, s.last = some d ∧ result = d.size
  msg : ∀ m, s.msg = some m → ∃ d, s.last = some d ∧ m = d.size
  parent : ∀ retval, s.pc = .got retval → retval ≠ TIMEOUT → ∃ d, s.last = some d ∧ retval = d.size

theorem start_single (serverIp clktime : Nat) : Single (start serverIp clktime) :=
  { one := Nat.zero_le _
    loaded := start_loaded serverIp clktime
    child := fun _ child => nomatch child
    msg := fun _ msg => nomatch msg
    parent := fun _ parent => nomatch parent }

def Gentle (s : Tftp) : Op → Prop
  | .read => s.msg = none ∧ s.pc.holds = false
  | _ => True

theorem size_ne_timeout (d : Datagram) : (d.size : Int) ≠ TIMEOUT := by
  rw [TIMEOUT]
  omega

theorem Single.calm (single : Single s) (pkt : s'.pkt = s.pkt) (last : s'.last = s.last) (child : s'.child = s.child)
    (msg : s'.msg = s.msg) (calm : s'.pc.holds = false) : Single s' := by
  refine ⟨?_, single.loaded.keep pkt last, ?_, ?_, ?_⟩
  · have one := single.one
    rw [carried] at one
    rw [carried, child, msg, calm, Bool.toNat_false]
    omega
  · rw [child, last]
    exact single.child
  · rw [msg, last]
    exact single.msg
  · intro retval got no
    rw [got, Parent.holds, decide_eq_false_iff_not, not_not] at calm
    exact absurd calm no

theorem Single.message {m : Int} (single : Single s) (arrived : s.msg = some m) :
    Single { s with msg := none, pc := .got m } := by
  obtain ⟨d, last, size⟩ := single.msg m arrived
  have one := single.one
  rw [carried, arrived] at one
  refine ⟨?_, single.loaded.keep rfl rfl, single.child, (fun _ none => by cases none), ?_⟩
  · have := Bool.toNat_le (Parent.got m).holds
    simp only [carried, Option.isSome_some, Option.isSome_none, Bool.toNat_true, Bool.toNat_false] at one ⊢
    omega
  · rintro _ ⟨⟩ -
    exact ⟨d, last, size⟩

theorem loopTop_single (single : Single s) : Single s.loopTop := by
  simp only [loopTop]
  split
  · exact single.calm rfl rfl rfl rfl rfl
  · exact single.calm rfl rfl rfl rfl rfl

theorem recvtime_single (single : Single s) : Single s.recvtime := by
  rw [recvtime]
  split
  · exact single.message ‹_›
  · exact single.calm rfl rfl rfl rfl rfl

theorem wake_single (single : Single s) : Single s.wake := by
  rw [wake]
  split
  · exact single.message ‹_›
  · exact single.calm rfl rfl rfl rfl rfl

theorem process_single (single : Single s) (retval callback : Int) (sends : Bool) :
    Single (s.process retval callback sends) := by
  have apart := process_apart s retval callback sends
  have idle : (s.process retval callback sends).pc.holds = false := by
    rcases apart.pc with pc | ⟨_, pc⟩ <;> rw [pc] <;> rfl
  exact single.calm apart.pkt apart.last apart.child apart.msg idle

theorem listens_idle (listens : s.child = .receive ∨ s.child = .blocked) : s.child.holds = false := by
  rcases listens with child | child <;> rw [child] <;> rfl

theorem receive_single (single : Single s) (listens : s.child = .receive ∨ s.child = .blocked) :
    Single s.receive := by
  have one := single.one
  rw [carried, listens_idle listens] at one
  rw [receive]
  split
  · exact ⟨one, single.loaded.keep rfl rfl, (fun _ child => by cases child), single.msg, single.parent⟩
  · exact ⟨one, single.loaded.keep rfl rfl, (fun _ child => by cases child), single.msg, single.parent⟩

theorem read_single {rest : List Datagram} (gentle : Gentle s .read) : Single (s.read d rest) := by
  obtain ⟨none, idle⟩ := gentle
  refine ⟨?_, read_loaded s d rest, ?_, ?_, ?_⟩
  · simp only [carried, Tftp.read, none, idle, Child.holds, Option.isSome_none, Bool.toNat_true,
      Bool.toNat_false, Nat.add_zero, Nat.le_refl]
  · rintro _ ⟨⟩
    exact ⟨d, rfl, rfl⟩
  · intro m arrived
    simp only [Tftp.read] at arrived
    rw [none] at arrived
    cases arrived
  · intro retval got no
    simp only [Tftp.read] at got
    rw [got, Parent.holds, decide_eq_false_iff_not, not_not] at idle
    exact absurd idle no

theorem Single.no_message {result : Int} (single : Single s) (finished : s.child = .readDone result) : s.msg = none := by
  have one := single.one
  rw [carried, finished] at one
  simp only [Child.holds, Bool.toNat_true] at one
  cases msg : s.msg with
  | none => rfl
  | some m =>
      rw [msg, Option.isSome_some, Bool.toNat_true] at one
      omega

theorem sendResult_single {result : Int} (single : Single s) (finished : s.child = .readDone result) :
    Single (s.sendResult result) := by
  obtain ⟨d, last, size⟩ := single.child result finished
  have none := single.no_message finished
  have one := single.one
  rw [carried, finished, none] at one
  refine ⟨?_, single.loaded.keep rfl rfl, (fun _ child => by cases child), ?_, single.parent⟩
  · simp only [carried, sendResult, none, deposit, Option.none_or, Child.holds, Option.isSome_some,
      Option.isSome_none, Bool.toNat_true, Bool.toNat_false] at one ⊢
    omega
  · intro m arrived
    simp only [sendResult, none, deposit, Option.none_or, Option.some.injEq] at arrived
    exact ⟨d, last, arrived ▸ size⟩

theorem arrive_single (single : Single s) (d : Datagram) : Single (s.arrive d) := by
  obtain ⟨pc, child, -, msg, pkt, last⟩ := arrive_same s d
  refine ⟨?_, single.loaded.keep pkt last, ?_, ?_, ?_⟩
  · rw [carried, child, msg, pc]
    exact single.one
  · rw [child, last]
    exact single.child
  · rw [msg, last]
    exact single.msg
  · rw [pc, last]
    exact single.parent

theorem step_single (single : Single s) (gentle : Gentle s op) (action : step op s = some s') :
    Single s' := by
  cases step_taking action with
  | loopTop _ => exact loopTop_single single
  | recvtime _ => exact recvtime_single single
  | timeout _ => exact single.calm rfl rfl rfl rfl rfl
  | wake _ => exact wake_single single
  | @process retval callback sends _ => exact process_single single retval callback sends
  | receive listens => exact receive_single single listens
  | read _ _ _ => exact read_single gentle
  | sendResult finished => exact sendResult_single single finished
  | arrive d _ => exact arrive_single single d
  | tick => exact ⟨single.one, single.loaded.keep rfl rfl, single.child, single.msg, single.parent⟩

/-- The packets that `tftpGet` has yet to look at: the one in the buffer, then the ring. -/
def queue (s : Tftp) : List Datagram := (if s.carried = 0 then [] else s.last.toList) ++ s.ring

theorem queue_of_same (carried : s'.carried = s.carried) (last : s'.last = s.last) (ring : s'.ring = s.ring) :
    s'.queue = s.queue := by
  rw [queue, carried, last, ring, queue]

structure Still (s s' : Tftp) : Prop where
  serverIp : s'.serverIp = s.serverIp
  remote : s'.remote = s.remote
  bindfirst : s'.bindfirst = s.bindfirst
  passed : s'.passed = s.passed
  nextBlockNumber : s'.nextBlockNumber = s.nextBlockNumber
  acks : s'.acks = s.acks
  queue : s'.queue = s.queue
  running : s'.running → s.running
  finished : s'.pc = .done OK → s.pc = .done OK

structure Finishes (s s' : Tftp) (d : Datagram) (callback : Int) (sends : Bool) : Prop where
  pc : s.pc = .got d.size
  last : s.last = some d
  queue : s.queue = d :: s.ring
  result : s' = s.received d.size callback sends
  rest : s'.queue = s'.ring

theorem timedOut_still (s : Tftp) (sends : Bool) (pc : s.pc = .got TIMEOUT) : Still s (s.timedOut sends) := by
  have running : s.running := by rw [Tftp.running, pc]
  have idle : s.pc.holds = false := by rw [pc]; rfl
  have queue {t : Tftp} (child : t.child = s.child) (msg : t.msg = s.msg) (last : t.last = s.last)
      (ring : t.ring = s.ring) (calm : t.pc.holds = false) : t.queue = s.queue := by
    refine queue_of_same ?_ last ring
    rw [carried, carried, child, msg, calm, idle]
  rw [timedOut]
  split_ifs
  · exact ⟨rfl, rfl, rfl, rfl, rfl, rfl, queue rfl rfl rfl rfl rfl, fun _ => running,
      fun done => by cases done⟩
  · exact ⟨rfl, rfl, rfl, rfl, rfl, rfl, queue rfl rfl rfl rfl rfl, fun _ => running,
      fun done => by cases done⟩
  · exact ⟨rfl, rfl, rfl, rfl, rfl, rfl, queue rfl rfl rfl rfl rfl, fun _ => running,
      fun done => by cases done⟩

theorem process_finishes (single : Single s) {retval : Int} (pc : s.pc = .got retval)
    (some : retval ≠ TIMEOUT) (callback : Int) (sends : Bool) :
    ∃ d, Finishes s (s.process retval callback sends) d callback sends := by
  obtain ⟨d, last, size⟩ := single.parent retval pc some
  have ne : retval ≠ SYSERR := by rw [size, SYSERR]; omega
  have result : s.process retval callback sends = s.received retval callback sends := by
    rw [process, if_neg some, if_neg ne]
  have one := single.one
  have holds : s.pc.holds = true := by
    rw [pc]
    exact decide_eq_true some
  rw [carried, holds, Bool.toNat_true] at one
  have apart := received_apart s retval callback sends
  have idle : (s.received retval callback sends).pc.holds = false := by
    rcases apart.pc with pc | ⟨_, pc⟩ <;> rw [pc] <;> rfl
  have none : (s.received retval callback sends).carried = 0 := by
    rw [carried, apart.child, apart.msg, idle, Bool.toNat_false]
    omega
  have carries : s.carried ≠ 0 := by
    rw [carried, holds, Bool.toNat_true]
    omega
  subst size
  exact ⟨d,
    { pc, last, result
      queue := by rw [queue, if_neg carries, last]; rfl
      rest := by rw [result, queue, if_pos none]; rfl }⟩

theorem loopTop_still (pc : s.pc = .loop) : Still s s.loopTop := by
  have running : s.running := by rw [Tftp.running, pc]
  simp only [loopTop]
  split
  · refine ⟨rfl, rfl, rfl, rfl, rfl, rfl, queue_of_same ?_ rfl rfl, fun _ => running, fun done => by cases done⟩
    rw [carried, carried, pc]
    rfl
  · refine ⟨rfl, rfl, rfl, rfl, rfl, rfl, queue_of_same ?_ rfl rfl, fun _ => running, fun done => by cases done⟩
    rw [carried, carried, pc]
    rfl

theorem Single.message_still {m : Int} (single : Single s) (arrived : s.msg = some m) (running : s.running)
    (idle : s.pc.holds = false) : Still s { s with msg := none, pc := .got m } := by
  obtain ⟨d, -, size⟩ := single.msg m arrived
  have holds : (Parent.got m).holds = true := decide_eq_true (size ▸ size_ne_timeout d)
  refine ⟨rfl, rfl, rfl, rfl, rfl, rfl, queue_of_same ?_ rfl rfl, fun _ => running, fun done => by cases done⟩
  rw [carried, carried, idle, arrived, holds]
  rfl

theorem recvtime_still (single : Single s) (pc : s.pc = .sent) : Still s s.recvtime := by
  have running : s.running := by rw [Tftp.running, pc]
  rw [recvtime]
  split
  · exact single.message_still ‹_› running (by rw [pc]; rfl)
  · refine ⟨rfl, rfl, rfl, rfl, rfl, rfl, queue_of_same ?_ rfl rfl, fun _ => running, fun done => by cases done⟩
    rw [carried, carried, pc]
    rfl

theorem timeout_still (pc : s.pc = .waiting) : Still s { s with pc := .expired } := by
  have running : s.running := by rw [Tftp.running, pc]
  refine ⟨rfl, rfl, rfl, rfl, rfl, rfl, queue_of_same ?_ rfl rfl, fun _ => running, fun done => by cases done⟩
  rw [carried, carried, pc]
  rfl

theorem wake_still (single : Single s) (ready : s.pc = .waiting ∧ s.msg ≠ none ∨ s.pc = .expired) :
    Still s s.wake := by
  have running : s.running := by rcases ready with ⟨pc, -⟩ | pc <;> rw [Tftp.running, pc]
  have idle : s.pc.holds = false := by rcases ready with ⟨pc, -⟩ | pc <;> rw [pc] <;> rfl
  rw [wake]
  split
  · exact single.message_still ‹_› running idle
  · refine ⟨rfl, rfl, rfl, rfl, rfl, rfl, queue_of_same ?_ rfl rfl, fun _ => running, fun done => by cases done⟩
    rw [carried, carried, idle]
    rfl

theorem receive_still (listens : s.child = .receive ∨ s.child = .blocked) : Still s s.receive := by
  have idle := listens_idle listens
  rw [receive]
  split
  · refine ⟨rfl, rfl, rfl, rfl, rfl, rfl, queue_of_same ?_ rfl rfl, id, id⟩
    rw [carried, carried, idle]
    rfl
  · refine ⟨rfl, rfl, rfl, rfl, rfl, rfl, queue_of_same ?_ rfl rfl, id, id⟩
    rw [carried, carried, idle]
    rfl

theorem read_still {rest : List Datagram} (gentle : Gentle s .read) (reading : s.child = .reading)
    (ring : s.ring = d :: rest) : Still s (s.read d rest) := by
  obtain ⟨none, idle⟩ := gentle
  refine ⟨rfl, rfl, rfl, rfl, rfl, rfl, ?_, id, id⟩
  have before : s.carried = 0 := by
    rw [carried, reading, none, idle]
    rfl
  have after : (s.read d rest).carried = 1 := by
    simp only [carried, Tftp.read, none, idle]
    rfl
  rw [queue, after, queue, before, ring]
  rfl

theorem sendResult_still {result : Int} (single : Single s) (finished : s.child = .readDone result) :
    Still s (s.sendResult result) := by
  have none := single.no_message finished
  refine ⟨rfl, rfl, rfl, rfl, rfl, rfl, queue_of_same ?_ rfl rfl, id, id⟩
  simp only [carried, sendResult, finished, none, deposit, Option.none_or, Child.holds,
    Option.isSome_some, Option.isSome_none, Bool.toNat_true, Bool.toNat_false]

theorem step_cases (single : Single s) (gentle : Gentle s op) (action : step op s = some s') :
    Still s s' ∨ (∃ d, op = .arrive d ∧ s.running ∧ s' = s.arrive d) ∨
      ∃ callback sends d, op = .process callback sends ∧ Finishes s s' d callback sends := by
  cases step_taking action with
  | loopTop pc => exact .inl (loopTop_still pc)
  | recvtime pc => exact .inl (recvtime_still single pc)
  | timeout pc => exact .inl (timeout_still pc)
  | wake ready => exact .inl (wake_still single ready)
  | @process retval callback sends pc =>
      by_cases timeout : retval = TIMEOUT
      · subst timeout
        have result : s.process TIMEOUT callback sends = s.timedOut sends := by rw [process, if_pos rfl]
        rw [result]
        exact .inl (timedOut_still s sends pc)
      · obtain ⟨d, finishes⟩ := process_finishes single pc timeout callback sends
        exact .inr (.inr ⟨callback, sends, d, rfl, finishes⟩)
  | receive listens => exact .inl (receive_still listens)
  | read reading ring _ => exact .inl (read_still gentle reading ring)
  | sendResult finished => exact .inl (sendResult_still single finished)
  | arrive d running => exact .inr (.inl ⟨d, rfl, running, rfl⟩)
  | tick => exact .inl ⟨rfl, rfl, rfl, rfl, rfl, rfl, queue_of_same rfl rfl rfl, id, id⟩

structure Rejected (s s' : Tftp) (d : Datagram) : Prop where
  why : s.wrongSource ∨ ¬ (4 ≤ d.payload.length ∧ d.opcode = TFTP_OPCODE_DATA) ∨
    d.number ≠ s.nextBlockNumber % 2 ^ 16 ∧
      (s.nextBlockNumber = 1 ∨ (d.number : Int) ≠ (s.nextBlockNumber % 2 ^ 16 : Nat) - 1)
  serverIp : s'.serverIp = s.serverIp
  passed : s'.passed = s.passed
  nextBlockNumber : s'.nextBlockNumber = s.nextBlockNumber
  unfinished : s'.pc ≠ .done OK
  bound : s'.remote = s.remote ∧ s'.bindfirst = s.bindfirst ∨
    s.wrongSource ∧ s.nextBlockNumber = 1 ∧ s'.remote = none ∧ s'.bindfirst = true

structure Repeated (s s' : Tftp) (d : Datagram) (sends : Bool) : Prop where
  right : s.wrongSource = false
  serverIp : s'.serverIp = s.serverIp
  remote : s'.remote = s.remote
  bindfirst : s'.bindfirst = s.bindfirst
  passed : s'.passed = s.passed
  nextBlockNumber : s'.nextBlockNumber = s.nextBlockNumber
  acks : s'.acks = if sends then s.acks ++ [d.number] else s.acks
  unfinished : s'.pc ≠ .done OK

structure Taken (s s' : Tftp) (d : Datagram) : Prop where
  right : s.wrongSource = false
  data : 4 ≤ d.payload.length ∧ d.opcode = TFTP_OPCODE_DATA
  number : d.number = s.nextBlockNumber % 2 ^ 16
  serverIp : s'.serverIp = s.serverIp
  remote : s'.remote = s.remote
  bindfirst : s'.bindfirst = s.bindfirst
  passed : s'.passed = s.passed ++ [(d.payload.drop 4).take (d.size - 4)]
  next : s'.running → s'.nextBlockNumber = (s.nextBlockNumber + 1) % 2 ^ 32 ∧ ¬ d.size - 4 < TFTP_BLOCK_SIZE
  finished : s'.pc = .done OK → d.size - 4 < TFTP_BLOCK_SIZE

theorem bytes_range (bytes : List Byte) (n k : Nat) (bound : n + k ≤ bytes.length) :
    ((List.range k).map fun i : Nat => bytes.getD (n + i) 0) = (bytes.drop n).take k := by
  apply List.ext_getElem
  · simp only [List.length_map, List.length_range, List.length_take, List.length_drop]
    omega
  · intro i left right
    simp only [List.length_map, List.length_range] at left
    rw [List.getElem_map, List.getElem_range, List.getElem_take, List.getElem_drop,
      List.getD_eq_getElem _ _ (by omega)]

theorem loaded_opcode (loaded : Loaded s) (last : s.last = some d) (long : 4 ≤ d.payload.length) :
    s.opcode = d.opcode := by
  have size : 4 ≤ d.size := by
    rw [Datagram.size, TFTP_MAX_PACKET_LEN]
    omega
  rw [Tftp.opcode, loaded d last 0 (by omega), loaded d last 1 (by omega), Datagram.opcode]

theorem loaded_number (loaded : Loaded s) (last : s.last = some d) (long : 4 ≤ d.payload.length) :
    s.recvBlockNumber = d.number := by
  have size : 4 ≤ d.size := by
    rw [Datagram.size, TFTP_MAX_PACKET_LEN]
    omega
  rw [recvBlockNumber, loaded d last 2 (by omega), loaded d last 3 (by omega), Datagram.number]

theorem loaded_data (loaded : Loaded s) (last : s.last = some d) :
    ((List.range (d.size - 4)).map fun i : Nat => s.pkt (4 + i)) = (d.payload.drop 4).take (d.size - 4) := by
  by_cases long : 4 ≤ d.size
  · rw [← bytes_range d.payload 4 (d.size - 4) (by rw [Datagram.size] at long ⊢; omega)]
    apply List.map_congr_left
    intro i member
    have bound := List.mem_range.mp member
    exact loaded d last (4 + i) (by omega)
  · have none : d.size - 4 = 0 := by omega
    rw [none]
    rfl

theorem reject_rejected (why : s.wrongSource ∨ ¬ (4 ≤ d.payload.length ∧ d.opcode = TFTP_OPCODE_DATA) ∨
    d.number ≠ s.nextBlockNumber % 2 ^ 16 ∧
      (s.nextBlockNumber = 1 ∨ (d.number : Int) ≠ (s.nextBlockNumber % 2 ^ 16 : Nat) - 1)) (len : Int) :
    Rejected s (s.reject len) d := by
  rw [reject]
  split
  · exact ⟨why, rfl, rfl, rfl, (fun done => by cases done), .inl ⟨rfl, rfl⟩⟩
  · split
    · rename_i wrong
      exact ⟨why, rfl, rfl, rfl, (fun done => by cases done), .inr ⟨wrong.1, wrong.2, rfl, rfl⟩⟩
    · exact ⟨why, rfl, rfl, rfl, (fun done => by cases done), .inl ⟨rfl, rfl⟩⟩

theorem acknowledge_fields (s : Tftp) (nbytes : Nat) (sends : Bool) :
    (s.acknowledge nbytes sends).serverIp = s.serverIp ∧ (s.acknowledge nbytes sends).remote = s.remote ∧
      (s.acknowledge nbytes sends).bindfirst = s.bindfirst ∧ (s.acknowledge nbytes sends).passed = s.passed ∧
      (s.acknowledge nbytes sends).nextBlockNumber = s.nextBlockNumber ∧
      ((s.acknowledge nbytes sends).acks = if sends then s.acks ++ [s.recvBlockNumber] else s.acks) ∧
      ((s.acknowledge nbytes sends).running → ¬ nbytes < TFTP_BLOCK_SIZE) ∧
      ((s.acknowledge nbytes sends).pc = .done OK → nbytes < TFTP_BLOCK_SIZE) := by
  rw [acknowledge]
  cases sends
  all_goals
    simp only [if_true, if_false, Bool.false_eq_true, not_true, not_false_eq_true]
    split
  · exact ⟨rfl, rfl, rfl, rfl, rfl, rfl, (fun running => by cases running), fun _ => ‹_›⟩
  · exact ⟨rfl, rfl, rfl, rfl, rfl, rfl, (fun running => by cases running), (fun done => by cases done)⟩
  · exact ⟨rfl, rfl, rfl, rfl, rfl, rfl, (fun running => by cases running), fun _ => ‹_›⟩
  · exact ⟨rfl, rfl, rfl, rfl, rfl, rfl, fun _ => ‹_›, (fun done => by cases done)⟩

theorem bindPort_fields (s : Tftp) :
    s.bindPort.serverIp = s.serverIp ∧ s.bindPort.remote = s.remote ∧ s.bindPort.bindfirst = s.bindfirst ∧
      s.bindPort.passed = s.passed ∧ s.bindPort.nextBlockNumber = s.nextBlockNumber ∧
      s.bindPort.acks = s.acks ∧ s.bindPort.recvBlockNumber = s.recvBlockNumber := by
  rw [bindPort]
  split <;> exact ⟨rfl, rfl, rfl, rfl, rfl, rfl, rfl⟩

theorem accept_taken (loaded : Loaded s) (last : s.last = some d) (right : s.wrongSource = false)
    (data : 4 ≤ d.payload.length ∧ d.opcode = TFTP_OPCODE_DATA)
    (number : d.number = s.nextBlockNumber % 2 ^ 16) (callback : Int) (sends : Bool) :
    Taken s (s.bindPort.accept d.size callback sends) d := by
  obtain ⟨serverIp, remote, bindfirst, passed, next, -, recv⟩ := bindPort_fields s
  obtain ⟨-, -, -, pkt, -, -⟩ := bindPort_same s
  have same : s.bindPort.recvBlockNumber = s.bindPort.nextBlockNumber % 2 ^ 16 := by
    rw [recv, next, loaded_number loaded last data.1, number]
  have size : ((d.size : Int) - 4).toNat = d.size - 4 := by omega
  have bytes := loaded_data loaded last
  rw [← pkt] at bytes
  rw [accept, if_pos same]
  simp only [size, bytes, passed, next]
  split
  · rename_i failed
    refine ⟨right, data, number, serverIp, remote, bindfirst, rfl, (fun running => by cases running), ?_⟩
    intro done
    cases done
    exact absurd rfl failed
  · obtain ⟨serverIp', remote', bindfirst', passed', next', -, running, finished⟩ := acknowledge_fields
      { s.bindPort with
        passed := s.passed ++ [(d.payload.drop 4).take (d.size - 4)]
        nextBlockNumber := (s.nextBlockNumber + 1) % 2 ^ 32
        blockRecvTries := 0 } (d.size - 4) sends
    exact ⟨right, data, number, serverIp'.trans serverIp, remote'.trans remote, bindfirst'.trans bindfirst,
      passed', fun runs => ⟨next', running runs⟩, finished⟩

theorem accept_repeated (loaded : Loaded s) (last : s.last = some d) (right : s.wrongSource = false)
    (long : 4 ≤ d.payload.length) (number : d.number ≠ s.nextBlockNumber % 2 ^ 16) (callback : Int)
    (sends : Bool) : Repeated s (s.bindPort.accept d.size callback sends) d sends := by
  obtain ⟨serverIp, remote, bindfirst, passed, next, acks, recv⟩ := bindPort_fields s
  have other : ¬ s.bindPort.recvBlockNumber = s.bindPort.nextBlockNumber % 2 ^ 16 := by
    rw [recv, next, loaded_number loaded last long]
    exact number
  obtain ⟨serverIp', remote', bindfirst', passed', next', acks', -, finished⟩ :=
    acknowledge_fields s.bindPort TFTP_BLOCK_SIZE sends
  rw [acks, recv, loaded_number loaded last long] at acks'
  rw [accept, if_neg other]
  exact ⟨right, serverIp'.trans serverIp, remote'.trans remote, bindfirst'.trans bindfirst,
    passed'.trans passed, next'.trans next, acks', fun done => absurd (finished done) (Nat.lt_irrefl _)⟩

theorem received_cases (loaded : Loaded s) (last : s.last = some d) (callback : Int) (sends : Bool) :
    Rejected s (s.received d.size callback sends) d ∨ Repeated s (s.received d.size callback sends) d sends ∨
      Taken s (s.received d.size callback sends) d := by
  rw [received]
  split
  · rename_i why
    left
    apply reject_rejected
    by_cases data : 4 ≤ d.payload.length ∧ d.opcode = TFTP_OPCODE_DATA
    · rcases why with wrong | short | opcode | strange
      · exact .inl wrong
      · rw [Datagram.size, TFTP_MAX_PACKET_LEN] at short
        omega
      · rw [loaded_opcode loaded last data.1] at opcode
        exact absurd data.2 opcode
      · rw [unexpected, decide_eq_true_eq, loaded_number loaded last data.1] at strange
        exact .inr (.inr strange)
    · exact .inr (.inl data)
  · rename_i good
    right
    simp only [not_or, not_not, Bool.not_eq_true] at good
    obtain ⟨right, long, opcode, expected⟩ := good
    have data : 4 ≤ d.payload.length := by
      rw [Datagram.size] at long
      omega
    by_cases number : d.number = s.nextBlockNumber % 2 ^ 16
    · rw [loaded_opcode loaded last data] at opcode
      exact .inr (accept_taken loaded last right ⟨data, opcode⟩ number callback sends)
    · exact .inl (accept_repeated loaded last right data number callback sends)

def Fits (file : List Byte) (s : Tftp) (k : Nat) (d : Datagram) : Prop :=
  d.source.ip = s.serverIp → ∀ m, s.passed.length < m → m ≤ s.passed.length + k + 1 → d.Numbered m →
    d.payload = dataPacket file m ∧ m ≤ total file

structure Contents (file : List Byte) (s : Tftp) : Prop where
  bind : s.remote = none → s.bindfirst = true
  sourced : ∀ d ∈ s.queue, s.remote = some d.source
  fits : ∀ k d, s.queue[k]? = some d → Fits file s k d
  passed : s.passed <+: blocks file
  next : s.running → s.nextBlockNumber = (s.passed.length + 1) % 2 ^ 32 ∧ s.passed.length < total file
  finished : s.pc = .done OK → s.passed.length = total file

theorem start_contents (file : List Byte) (serverIp clktime : Nat) :
    Contents file (start serverIp clktime) :=
  { bind := fun _ => rfl
    sourced := fun _ member => nomatch member
    fits := fun _ _ member => nomatch member
    passed := List.nil_prefix
    next := fun _ => ⟨rfl, Nat.succ_pos _⟩
    finished := fun done => nomatch done }

theorem Contents.still (contents : Contents file s) (still : Still s s') : Contents file s' := by
  refine
    { bind := by rw [still.remote, still.bindfirst]; exact contents.bind
      sourced := by rw [still.queue, still.remote]; exact contents.sourced
      fits := ?_
      passed := still.passed ▸ contents.passed
      next := fun running => ?_
      finished := fun done => ?_ }
  · intro k d
    rw [still.queue, Fits, still.passed, still.serverIp]
    exact contents.fits k d
  · rw [still.nextBlockNumber, still.passed]
    exact contents.next (still.running running)
  · rw [still.passed]
    exact contents.finished (still.finished done)

theorem arrive_cases (s : Tftp) (d : Datagram) :
    s.arrive d = s ∨
      (s.arrive d).queue = s.queue ++ [d] ∧
        (s.remote = none ∨ s.remote = some d.source) ∧
        ((s.arrive d).remote = some d.source ∨ s.bindfirst = false ∧ (s.arrive d).remote = s.remote) ∧
        (s.arrive d).serverIp = s.serverIp ∧ (s.arrive d).passed = s.passed ∧
        (s.arrive d).nextBlockNumber = s.nextBlockNumber := by
  have append {t : Tftp} (carried : t.carried = s.carried) (last : t.last = s.last)
      (ring : t.ring = s.ring ++ [d]) : t.queue = s.queue ++ [d] := by
    rw [queue, carried, last, ring, ← List.append_assoc, queue]
  rw [arrive]
  split
  · exact .inl rfl
  · split
    · exact .inl rfl
    · rename_i known
      split
      · exact .inl rfl
      · right
        have known : s.remote = none ∨ s.remote = some d.source := by
          cases remote : s.remote with
          | none => exact .inl rfl
          | some e =>
              rw [remote] at known
              exact .inr (not_not.mp fun other => known ⟨rfl, other⟩)
        split
        · exact ⟨append rfl rfl rfl, known, .inl rfl, rfl, rfl, rfl⟩
        · rename_i unbound
          exact ⟨append rfl rfl rfl, known, .inr ⟨eq_false_of_ne_true unbound, rfl⟩, rfl, rfl, rfl⟩

theorem Contents.arrive (contents : Contents file s) (d : Datagram)
    (fits : Fits file s s.queue.length d) : Contents file (s.arrive d) := by
  obtain ⟨pc, -⟩ := arrive_same s d
  rcases arrive_cases s d with same | ⟨queue, known, remote, serverIp, passed, next⟩
  · rw [same]
    exact contents
  · have bound : (s.arrive d).remote = some d.source := by
      rcases remote with remote | ⟨unbound, remote⟩
      · exact remote
      · rw [remote]
        rcases known with none | some
        · rw [contents.bind none] at unbound
          cases unbound
        · exact some
    refine
      { bind := fun none => ?_
        sourced := fun e member => ?_
        fits := fun k e member => ?_
        passed := passed ▸ contents.passed
        next := fun running => ?_
        finished := fun done => ?_ }
    · rw [bound] at none
      cases none
    · rw [queue, List.mem_append, List.mem_singleton] at member
      rcases member with member | member
      · have source := contents.sourced e member
        rcases known with none | some
        · rw [none] at source
          cases source
        · rw [bound, ← some, source]
      · rw [bound, member]
    · rw [Fits, serverIp, passed]
      rw [queue] at member
      by_cases before : k < s.queue.length
      · rw [List.getElem?_append_left before] at member
        exact contents.fits k e member
      · rw [List.getElem?_append_right (Nat.le_of_not_lt before)] at member
        have last : k = s.queue.length := by
          have := (List.getElem?_eq_some_iff.mp member).1
          rw [List.length_singleton] at this
          omega
        subst last
        rw [Nat.sub_self] at member
        cases member
        exact fits
    · rw [next, passed]
      rw [Tftp.running, pc] at running
      exact contents.next running
    · rw [passed]
      exact contents.finished (pc ▸ done)

theorem right_source (sourced : s.remote = some d.source) (right : s.wrongSource = false) :
    d.source.ip = s.serverIp := by
  rw [wrongSource, sourced, decide_eq_false_iff_not, not_not, Option.map_some, Option.some.injEq] at right
  exact right

theorem dataPacket_data (payload : d.payload = dataPacket file j) :
    (d.payload.drop 4).take (d.size - 4) = block file j ∧ d.size - 4 = (block file j).length := by
  have length := length_dataPacket file j
  have short : (block file j).length ≤ TFTP_BLOCK_SIZE := by
    rw [length_block]
    exact Nat.min_le_left _ _
  have size : d.size = 4 + (block file j).length := by
    rw [Datagram.size, payload, length, TFTP_MAX_PACKET_LEN]
    rw [TFTP_BLOCK_SIZE] at short
    omega
  have rest : d.payload.drop 4 = block file j := by
    rw [payload]
    rfl
  have bytes : d.size - 4 = (block file j).length := by omega
  rw [rest, bytes, List.take_length]
  exact ⟨rfl, rfl⟩

theorem prefix_blocks (pre : s.passed <+: blocks file) (more : s.passed.length < total file) :
    s.passed ++ [block file (s.passed.length + 1)] <+: blocks file := by
  have next := blocks_getElem? more
  rw [List.prefix_iff_eq_take] at pre
  rw [List.prefix_iff_eq_take, List.length_append, List.length_singleton, List.take_add_one, next, ← pre]
  rfl

theorem Contents.finish (single : Single s) (contents : Contents file s) {callback : Int} {sends : Bool}
    (finishes : Finishes s s' d callback sends)
    (flushed : s.wrongSource → s.nextBlockNumber = 1 → s.ring = []) : Contents file s' := by
  obtain ⟨pc, last, queue, result, rest⟩ := finishes
  have apart := received_apart s d.size callback sends
  rw [← result] at apart
  have running : s.running := by rw [Tftp.running, pc]
  obtain ⟨next, more⟩ := contents.next running
  have source : s.remote = some d.source := by
    apply contents.sourced
    rw [queue]
    exact List.mem_cons_self
  rw [apart.ring] at rest
  have behind : ∀ k e, s'.queue[k]? = some e → Fits file s (k + 1) e := by
    intro k e member
    apply contents.fits
    rw [queue, List.getElem?_cons_succ, ← rest, member]
  have sources : ∀ e ∈ s'.queue, s.remote = some e.source := by
    intro e member
    apply contents.sourced
    rw [queue]
    rw [rest] at member
    exact List.mem_cons_of_mem _ member
  have same (serverIp : s'.serverIp = s.serverIp) (passed : s'.passed = s.passed)
      (k : Nat) (e : Datagram) (member : s'.queue[k]? = some e) : Fits file s' k e := by
    rw [Fits, serverIp, passed]
    intro ip m above below
    exact behind k e member ip m above (by omega)
  have cases := received_cases single.loaded last callback sends
  rw [← result] at cases
  rcases cases with rejected | repeated | taken
  · refine
      { bind := fun none => ?_
        sourced := fun e member => ?_
        fits := same rejected.serverIp rejected.passed
        passed := rejected.passed ▸ contents.passed
        next := fun _ => by rw [rejected.nextBlockNumber, rejected.passed]; exact ⟨next, more⟩
        finished := fun done => absurd done rejected.unfinished }
    · rcases rejected.bound with ⟨remote, bindfirst⟩ | ⟨-, -, -, bindfirst⟩
      · rw [remote, source] at none
        cases none
      · exact bindfirst
    · rcases rejected.bound with ⟨remote, -⟩ | ⟨wrong, first, -, -⟩
      · rw [remote]
        exact sources e member
      · rw [rest, flushed wrong first] at member
        cases member
  · refine
      { bind := fun none => ?_
        sourced := fun e member => by rw [repeated.remote]; exact sources e member
        fits := same repeated.serverIp repeated.passed
        passed := repeated.passed ▸ contents.passed
        next := fun _ => by rw [repeated.nextBlockNumber, repeated.passed]; exact ⟨next, more⟩
        finished := fun done => absurd done repeated.unfinished }
    rw [repeated.remote, source] at none
    cases none
  · have numbered : d.Numbered (s.passed.length + 1) := by
      refine ⟨taken.data.1, taken.data.2, ?_⟩
      rw [taken.number, next]
      omega
    have first : s.queue[0]? = some d := by rw [queue]; rfl
    obtain ⟨payload, bound⟩ := contents.fits 0 d first (right_source source taken.right) _
      (Nat.lt_succ_self _) (Nat.le_refl _) numbered
    obtain ⟨bytes, size⟩ := dataPacket_data payload
    have passed : s'.passed = s.passed ++ [block file (s.passed.length + 1)] := by rw [taken.passed, bytes]
    have length : s'.passed.length = s.passed.length + 1 := by
      rw [passed, List.length_append, List.length_singleton]
    have short := block_short (Nat.succ_pos s.passed.length) bound
    refine
      { bind := fun none => ?_
        sourced := fun e member => by rw [taken.remote]; exact sources e member
        fits := fun k e member => ?_
        passed := passed ▸ prefix_blocks contents.passed more
        next := fun running => ?_
        finished := fun done => ?_ }
    · rw [taken.remote, source] at none
      cases none
    · rw [Fits, taken.serverIp, length]
      intro ip m above below
      exact behind k e member ip m (by omega) (by omega)
    · obtain ⟨next', full⟩ := taken.next running
      rw [size, short] at full
      rw [next', next, length]
      omega
    · have full := taken.finished done
      rw [size, short] at full
      rw [length]
      exact full

structure Download where
  client : Tftp
  cur : Nat

inductive Event
  | client (op : Op)
  /-- A DATA packet of the server, which has sent it once at least. -/
  | data (port j : Nat)
  /-- The server gets an acknowledgement with the number of its block. -/
  | acknowledged
  /-- A packet from elsewhere, a short one, or one that is not a DATA packet. -/
  | stray (d : Datagram)
  /-- A packet with the number of the block `j`, which has been accepted. -/
  | old (d : Datagram) (j : Nat)
  deriving DecidableEq

def isArrive : Op → Bool
  | .arrive _ => true
  | _ => false

namespace Download

def start (serverIp clktime : Nat) : Download := { client := Tftp.start serverIp clktime, cur := 1 }

def deliver (x : Download) (d : Datagram) : Option Download :=
  (step (.arrive d) x.client).map fun client => { x with client }

def step (file : List Byte) : Event → Download → Option Download
  | .client op, x =>
      if isArrive op then none else (Tftp.step op x.client).map fun client => { x with client }
  | .data port j, x =>
      if 1 ≤ j ∧ j ≤ x.cur then x.deliver ⟨⟨x.client.serverIp, port⟩, dataPacket file j⟩ else none
  | .acknowledged, x =>
      if x.cur % 2 ^ 16 ∈ x.client.acks ∧ x.cur < total file then some { x with cur := x.cur + 1 } else none
  | .stray d, x =>
      if d.source.ip ≠ x.client.serverIp ∨ d.payload.length < 4 ∨ d.opcode ≠ TFTP_OPCODE_DATA then
        x.deliver d
      else none
  | .old d j, x =>
      if j ≤ x.client.passed.length ∧ d.number = j % 2 ^ 16 then x.deliver d else none

/-- The packet in the buffer is the block accepted last once more, and `tftpGet` does not find the
number before the next: that number is 0, or the counter is at 1 again. -/
def overlooked (s : Tftp) : Bool :=
  s.opcode = TFTP_OPCODE_DATA ∧ s.passed ≠ [] ∧ s.recvBlockNumber = s.passed.length % 2 ^ 16 ∧
    (s.nextBlockNumber % 2 ^ 16 = 0 ∨ s.nextBlockNumber = 1)

/-- The buffer is not read into before `tftpGet` is done with it, the device is not bound anew while
packets are in its ring, no packet comes so late that its number is that of a later block, and none
is overlooked. -/
def careful (x : Download) : Event → Bool
  | .client .read => x.client.msg = none ∧ x.client.pc.holds = false
  | .client (.process _ _) =>
      x.client.pc.holds = true → (x.client.wrongSource → x.client.nextBlockNumber = 1 → x.client.ring = []) ∧
        overlooked x.client = false
  | .client _ => true
  | .data _ j => x.client.passed.length + x.client.queue.length + 1 < j + 2 ^ 16
  | .acknowledged => x.cur ≤ x.client.passed.length
  | .stray _ => true
  | .old _ j => x.client.passed.length + x.client.queue.length + 1 < j + 2 ^ 16

structure Inv (file : List Byte) (x : Download) : Prop where
  single : Single x.client
  contents : Contents file x.client
  ahead : x.cur ≤ x.client.passed.length + 1
  cur : x.cur ≤ total file

variable {x x' : Download} {e : Event}

theorem start_inv (file : List Byte) (serverIp clktime : Nat) : Inv file (start serverIp clktime) :=
  { single := start_single serverIp clktime
    contents := start_contents file serverIp clktime
    ahead := Nat.le_refl _
    cur := Nat.succ_pos _ }

theorem deliver_inv (inv : Inv file x) (fits : Fits file x.client x.client.queue.length d)
    (action : x.deliver d = some x') : Inv file x' := by
  rw [deliver, Option.map_eq_some_iff] at action
  obtain ⟨client, arrives, rfl⟩ := action
  have gentle : Gentle x.client (.arrive d) := trivial
  have single := step_single inv.single gentle arrives
  simp only [Tftp.step] at arrives
  split at arrives <;> cases arrives
  refine ⟨single, inv.contents.arrive d fits, ?_, inv.cur⟩
  rcases arrive_cases x.client d with same | ⟨-, -, -, -, passed, -⟩
  · simp only [same]
    exact inv.ahead
  · simp only [passed]
    exact inv.ahead

theorem received_length (loaded : Loaded s) (last : s.last = some d) (callback : Int) (sends : Bool) :
    s.passed.length ≤ (s.received d.size callback sends).passed.length := by
  rcases received_cases loaded last callback sends with rejected | repeated | taken
  · rw [rejected.passed]
  · rw [repeated.passed]
  · rw [taken.passed, List.length_append]
    exact Nat.le_add_right _ _

theorem client_inv (inv : Inv file x) (care : careful x (.client op) = true) (network : isArrive op = false)
    {client : Tftp} (action : Tftp.step op x.client = some client) : Inv file { x with client } := by
  have gentle : Gentle x.client op := by
    cases op with
    | read =>
        simp only [careful, decide_eq_true_eq] at care
        exact care
    | _ => trivial
  have single := step_single inv.single gentle action
  rcases step_cases inv.single gentle action with still | ⟨d, rfl, -⟩ | ⟨callback, sends, d, rfl, finishes⟩
  · refine ⟨single, inv.contents.still still, ?_, inv.cur⟩
    simp only [still.passed]
    exact inv.ahead
  · cases network
  · have holds : x.client.pc.holds = true := by
      rw [finishes.pc]
      exact decide_eq_true (size_ne_timeout d)
    simp only [careful, decide_eq_true_eq] at care
    refine ⟨single, inv.contents.finish inv.single finishes (care holds).1, ?_, inv.cur⟩
    have grows := received_length inv.single.loaded finishes.last callback sends
    rw [← finishes.result] at grows
    exact inv.ahead.trans (Nat.succ_le_succ grows)

theorem step_inv (inv : Inv file x) (care : careful x e = true) (action : step file e x = some x') :
    Inv file x' := by
  cases e with
  | client op =>
      simp only [step] at action
      split at action
      · cases action
      · rename_i network
        rw [Option.map_eq_some_iff] at action
        obtain ⟨client, action, rfl⟩ := action
        exact client_inv inv care (eq_false_of_ne_true network) action
  | data port j =>
      simp only [step] at action
      split at action
      · rename_i sent
        apply deliver_inv inv _ action
        simp only [careful, decide_eq_true_eq] at care
        intro _ m above below numbered
        have number := numbered.2.2
        rw [(dataPacket_numbered _ j).2.2] at number
        have ahead := inv.ahead
        have same : m = j := by omega
        subst same
        exact ⟨rfl, sent.2.trans inv.cur⟩
      · cases action
  | acknowledged =>
      simp only [step] at action
      split at action
      · rename_i more
        cases action
        simp only [careful, decide_eq_true_eq] at care
        exact ⟨inv.single, inv.contents, Nat.succ_le_succ care, more.2⟩
      · cases action
  | stray d =>
      simp only [step] at action
      split at action
      · rename_i stray
        apply deliver_inv inv _ action
        intro ip m _ _ numbered
        rcases stray with foreign | short | opcode
        · exact absurd ip foreign
        · exact absurd numbered.1 (Nat.not_le_of_lt short)
        · exact absurd numbered.2.1 opcode
      · cases action
  | old d j =>
      simp only [step] at action
      split at action
      · rename_i old
        apply deliver_inv inv _ action
        simp only [careful, decide_eq_true_eq] at care
        intro _ m above below numbered
        have number := numbered.2.2
        rw [old.2] at number
        omega
      · cases action

theorem process_acks (inv : Inv file x) {callback : Int}
    (care : careful x (.client (.process callback true)) = true)
    (action : step file (.client (.process callback true)) x = some x') (pc : x.client.pc = .got d.size)
    (last : x.client.last = some d) (source : d.source.ip = x.client.serverIp)
    (again : d.Numbered x.client.passed.length) (nonempty : x.client.passed ≠ []) :
    x'.client.acks = x.client.acks ++ [x.client.passed.length % 2 ^ 16] := by
  have holds : x.client.pc.holds = true := by
    rw [pc]
    exact decide_eq_true (size_ne_timeout d)
  simp only [careful, decide_eq_true_eq] at care
  have seen := (care holds).2
  simp only [step, isArrive, Tftp.step, pc, Bool.false_eq_true, if_false, Option.map_some,
    Option.some.injEq] at action
  obtain ⟨d', finishes⟩ := process_finishes inv.single pc (size_ne_timeout d) callback true
  have same : d' = d := Option.some.inj (finishes.last.symm.trans last)
  subst same
  obtain ⟨long, opcode, number⟩ := again
  have running : x.client.running := by rw [Tftp.running, pc]
  have next := (inv.contents.next running).1
  have bound : x.client.remote = some d'.source := by
    apply inv.contents.sourced
    rw [finishes.queue]
    exact List.mem_cons_self
  have right : x.client.wrongSource = false := by
    rw [wrongSource, bound, decide_eq_false_iff_not, not_not, Option.map_some, source]
  simp only [overlooked, loaded_opcode inv.single.loaded last long, opcode,
    loaded_number inv.single.loaded last long, number, nonempty, ne_eq, not_false_eq_true, true_and,
    decide_eq_false_iff_not, not_or] at seen
  subst action
  have cases := received_cases inv.single.loaded last callback true
  rw [← finishes.result] at cases
  rcases cases with rejected | repeated | taken
  · rcases rejected.why with wrong | other | ⟨-, first | unexpected⟩
    · rw [right] at wrong
      cases wrong
    · exact absurd ⟨long, opcode⟩ other
    · exact absurd first seen.2
    · omega
  · have acks := repeated.acks
    rw [if_pos rfl, number] at acks
    exact acks
  · have taken := taken.number
    omega

/-- In every careful run, what has been passed on is a prefix of the blocks of the file, `OK` comes
after the last of them, and the block accepted last is acknowledged whenever it comes. -/
theorem tftpGet_download {serverIp clktime : Nat}
    (reach : Lib.Reach (step file) (fun x e => careful x e = true) (start serverIp clktime) x) :
    x.client.passed <+: blocks file ∧
      (x.client.pc = .done OK → x.client.passed = blocks file) ∧
      ∀ callback x' d, careful x (.client (.process callback true)) = true →
        step file (.client (.process callback true)) x = some x' → x.client.pc = .got d.size →
        x.client.last = some d → d.source.ip = x.client.serverIp → d.Numbered x.client.passed.length →
        x.client.passed ≠ [] →
        x'.client.acks = x.client.acks ++ [x.client.passed.length % 2 ^ 16] := by
  have inv : Inv file x := reach.invariant (start_inv file serverIp clktime) fun _ _ _ => step_inv
  refine ⟨inv.contents.passed, ?_, ?_⟩
  · intro done
    have length := inv.contents.finished done
    exact inv.contents.passed.eq_of_length (length.trans (length_blocks file).symm)
  · intro callback x' d care action pc last source again nonempty
    exact process_acks inv care action pc last source again nonempty

def exchange (j : Nat) : List Event :=
  [.client .loopTop, .client .recvtime, .client .receive, .data 5000 j, .client .read, .client .sendResult,
    .client .wake]

def twoBlocks : List Byte := List.replicate TFTP_BLOCK_SIZE 65 ++ [66]

def firstBlockAgain : List Event := exchange 1 ++ .client (.process OK true) :: exchange 1

def secondBlock : List Event :=
  .client (.process OK true) :: .acknowledged :: exchange 2 ++ [.client (.process OK true)]

theorem oneByte_download :
    (∃ x, Lib.Reach (step [65]) (fun x e => careful x e = true) (start 1 0) x ∧
      x.client.pc = .done OK ∧ x.client.passed = blocks [65]) ∧
    ∃ x x' x'', Lib.Reach (step twoBlocks) (fun x e => careful x e = true) (start 1 0) x ∧
      step twoBlocks (.client (.process OK true)) x = some x' ∧ x'.client.acks = x.client.acks ++ [1] ∧
      Lib.Reach (step twoBlocks) (fun x e => careful x e = true) (start 1 0) x'' ∧ x''.client.pc = .done OK ∧
      x''.client.passed = blocks twoBlocks := by
  constructor
  · have runs : (Lib.run (step [65]) careful (exchange 1 ++ [.client (.process OK true)]) (start 1 0)).map
        (fun x => x.client.pc) = some (.done OK) := by
      decide +kernel
    rw [Option.map_eq_some_iff] at runs
    obtain ⟨x, run, pc⟩ := runs
    have reach : Lib.Reach (step [65]) (fun x e => careful x e = true) (start 1 0) x :=
      Lib.Reach.run (fun _ _ care => care) .init run
    exact ⟨x, reach, pc, (tftpGet_download reach).2.1 pc⟩
  · have runs : ((Lib.run (step twoBlocks) careful firstBlockAgain (start 1 0)).any fun x =>
        (careful x (.client (.process OK true)) = true ∧ (step twoBlocks (.client (.process OK true)) x).isSome ∧
          x.client.pc = .got 516 ∧ x.client.last = some ⟨⟨1, 5000⟩, dataPacket twoBlocks 1⟩ ∧
          x.client.serverIp = 1 ∧ x.client.passed.length = 1) ∧
        (Lib.run (step twoBlocks) careful secondBlock x).any fun x'' => x''.client.pc = .done OK) = true := by
      decide +kernel
    obtain ⟨x, run, observed⟩ := (Option.any_eq_true _ _).mp runs
    obtain ⟨⟨care, action, pc, last, serverIp, passed⟩, more⟩ := of_decide_eq_true observed
    obtain ⟨x', action⟩ := Option.isSome_iff_exists.mp action
    obtain ⟨x'', run', ended⟩ := (Option.any_eq_true _ _).mp more
    have reach : Lib.Reach (step twoBlocks) (fun x e => careful x e = true) (start 1 0) x :=
      Lib.Reach.run (fun _ _ care => care) .init run
    have reach' : Lib.Reach (step twoBlocks) (fun x e => careful x e = true) (start 1 0) x'' :=
      Lib.Reach.run (fun _ _ care => care) reach run'
    have size : Datagram.size ⟨⟨1, 5000⟩, dataPacket twoBlocks 1⟩ = 516 := by decide +kernel
    have acks := (tftpGet_download reach).2.2 OK x' ⟨⟨1, 5000⟩, dataPacket twoBlocks 1⟩ care action
      (by rw [pc, size]; rfl) last serverIp.symm (by rw [passed]; exact dataPacket_numbered _ 1)
      (fun none => by rw [none] at passed; cases passed)
    rw [passed] at acks
    exact ⟨x, x', x'', reach, action, acks, reach', of_decide_eq_true ended,
      (tftpGet_download reach').2.1 (of_decide_eq_true ended)⟩

def twoForeign : List Event :=
  [.client .loopTop, .client .recvtime, .client .receive, .stray ⟨⟨9, 7⟩, []⟩,
    .stray ⟨⟨9, 7⟩, dataPacket [66] 1⟩, .client .read, .client .sendResult, .client .wake,
    .client (.process OK true), .client .loopTop, .client .recvtime, .client .receive, .data 5000 1,
    .client .read, .client .sendResult, .client .wake, .client (.process OK true)]

theorem twoForeign_passed :
    ∃ x, Lib.Reach (step [65]) (fun _ _ => True) (start 1 0) x ∧ ¬ x.client.passed <+: blocks [65] := by
  have runs : (Lib.run (step [65]) (fun _ _ => true) twoForeign (start 1 0)).map
      (fun x => x.client.passed) = some [[66]] := by
    decide +kernel
  rw [Option.map_eq_some_iff] at runs
  obtain ⟨x, run, passed⟩ := runs
  refine ⟨x, Lib.Reach.run (fun _ _ _ => trivial) .init run, ?_⟩
  rw [passed]
  decide +kernel

end Download

end Xinu.Tftp
