import Xinu.System.Tftp

namespace Xinu.Tftp
open Lib (Byte)

variable {s s' : Tftp} {op : Op}

def Datagram.size (d : Datagram) : Nat := min d.payload.length TFTP_MAX_PACKET_LEN

def Loaded (s : Tftp) : Prop :=
  ∀ d, s.last = some d → ∀ i < d.size, s.pkt i = d.payload.getD i 0

def Quiet (s : Tftp) : Prop := (s.child = .receive ∨ s.child = .blocked) ∧ s.childMsg = none

def Outstanding (s : Tftp) : Prop :=
  ((s.child = .receive ∨ s.child = .blocked) ∧ s.childMsg ≠ none ∧ s.msg = none) ∨
    (s.child = .reading ∧ s.childMsg = none ∧ s.msg = none) ∨
    (∃ d, s.last = some d ∧ s.child = .readDone d.size ∧ s.childMsg = none ∧ s.msg = none) ∨
    (∃ d, s.last = some d ∧ s.msg = some d.size ∧ s.Quiet)

def GivesUp (s : Tftp) : Prop :=
  ¬ (s.nextBlockNumber = 1 ∧ s.numRreqsSent < TFTP_INIT_BLOCK_MAX_RETRIES)

/-- The condition on the steps: a `recvtime` that times out is the last one, nothing can be read then,
and no packet arrives for a receive thread that still has its go-ahead. -/
def Patient (s : Tftp) (op : Op) : Prop :=
  match op with
  | .timeout => s.GivesUp ∧ s.ring = []
  | .arrive _ => s.pc = .expired ∨ s.pc = .got TIMEOUT → s.Quiet
  | _ => True

def Leaving (s : Tftp) : Prop := s.Outstanding ∧ s.GivesUp ∧ (s.ring = [] ∨ s.Quiet)

def Answered (s : Tftp) (retval : Int) : Prop :=
  s.Quiet ∧ s.msg = none ∧ (retval = TIMEOUT ∨ ∃ d, s.last = some d ∧ retval = d.size)

def Turn (s : Tftp) : Prop :=
  match s.pc with
  | .sent | .waiting => s.Outstanding
  | .expired => s.Leaving
  | .got retval => s.Answered retval ∨ retval = TIMEOUT ∧ s.Leaving
  | .loop => s.Quiet ∧ s.msg = none
  | .done _ => True

theorem start_loaded (serverIp clktime : Nat) : Loaded (start serverIp clktime) := by
  intro d read
  cases read

theorem start_turn (serverIp clktime : Nat) : Turn (start serverIp clktime) :=
  ⟨⟨.inl rfl, rfl⟩, rfl⟩

structure Apart (s s' : Tftp) : Prop where
  child : s'.child = s.child
  childMsg : s'.childMsg = s.childMsg
  msg : s'.msg = s.msg
  pkt : s'.pkt = s.pkt
  last : s'.last = s.last
  ring : s'.ring = s.ring
  pc : s'.pc = .loop ∨ ∃ retval, s'.pc = .done retval

theorem timedOut_apart (s : Tftp) (sends : Bool) : Apart s (s.timedOut sends) := by
  rw [timedOut]
  split
  · split
    · exact ⟨rfl, rfl, rfl, rfl, rfl, rfl, .inr ⟨_, rfl⟩⟩
    · exact ⟨rfl, rfl, rfl, rfl, rfl, rfl, .inl rfl⟩
  · exact ⟨rfl, rfl, rfl, rfl, rfl, rfl, .inr ⟨_, rfl⟩⟩

theorem reject_apart (s : Tftp) (len : Int) : Apart s (s.reject len) := by
  rw [reject]
  split
  · exact ⟨rfl, rfl, rfl, rfl, rfl, rfl, .inr ⟨_, rfl⟩⟩
  · split <;> exact ⟨rfl, rfl, rfl, rfl, rfl, rfl, .inl rfl⟩

theorem acknowledge_apart (s : Tftp) (nbytes : Nat) (sends : Bool) : Apart s (s.acknowledge nbytes sends) := by
  rw [acknowledge]
  cases sends <;> simp only [if_true, if_false, Bool.false_eq_true]
  all_goals split
  · exact ⟨rfl, rfl, rfl, rfl, rfl, rfl, .inr ⟨_, rfl⟩⟩
  · exact ⟨rfl, rfl, rfl, rfl, rfl, rfl, .inr ⟨_, rfl⟩⟩
  · exact ⟨rfl, rfl, rfl, rfl, rfl, rfl, .inr ⟨_, rfl⟩⟩
  · exact ⟨rfl, rfl, rfl, rfl, rfl, rfl, .inl rfl⟩

theorem accept_apart (s : Tftp) (len callback : Int) (sends : Bool) :
    Apart s (s.accept len callback sends) := by
  rw [accept]
  split
  · split
    · exact ⟨rfl, rfl, rfl, rfl, rfl, rfl, .inr ⟨_, rfl⟩⟩
    · obtain ⟨child, childMsg, msg, pkt, last, ring, pc⟩ := acknowledge_apart
        { s with
          passed := s.passed ++ [(List.range (len - 4).toNat).map fun i => s.pkt (4 + i)]
          nextBlockNumber := (s.nextBlockNumber + 1) % 2 ^ 32
          blockRecvTries := 0 } (len - 4).toNat sends
      exact ⟨child, childMsg, msg, pkt, last, ring, pc⟩
  · exact acknowledge_apart s TFTP_BLOCK_SIZE sends

theorem bindPort_same (s : Tftp) :
    s.bindPort.child = s.child ∧ s.bindPort.childMsg = s.childMsg ∧ s.bindPort.msg = s.msg ∧
      s.bindPort.pkt = s.pkt ∧ s.bindPort.last = s.last ∧ s.bindPort.ring = s.ring := by
  rw [bindPort]
  split <;> exact ⟨rfl, rfl, rfl, rfl, rfl, rfl⟩

theorem received_apart (s : Tftp) (len callback : Int) (sends : Bool) :
    Apart s (s.received len callback sends) := by
  rw [received]
  split
  · exact reject_apart s len
  · obtain ⟨child, childMsg, msg, pkt, last, ring, pc⟩ := accept_apart s.bindPort len callback sends
    obtain ⟨childB, childMsgB, msgB, pktB, lastB, ringB⟩ := bindPort_same s
    exact ⟨child.trans childB, childMsg.trans childMsgB, msg.trans msgB, pkt.trans pktB,
      last.trans lastB, ring.trans ringB, pc⟩

theorem process_apart (s : Tftp) (retval callback : Int) (sends : Bool) :
    Apart s (s.process retval callback sends) := by
  rw [process]
  split
  · exact timedOut_apart s sends
  · split
    · exact ⟨rfl, rfl, rfl, rfl, rfl, rfl, .inr ⟨_, rfl⟩⟩
    · exact received_apart s retval callback sends

theorem arrive_same (s : Tftp) (d : Datagram) :
    (s.arrive d).pc = s.pc ∧ (s.arrive d).child = s.child ∧ (s.arrive d).childMsg = s.childMsg ∧
      (s.arrive d).msg = s.msg ∧ (s.arrive d).pkt = s.pkt ∧ (s.arrive d).last = s.last := by
  rw [arrive]
  split
  · exact ⟨rfl, rfl, rfl, rfl, rfl, rfl⟩
  · split
    · exact ⟨rfl, rfl, rfl, rfl, rfl, rfl⟩
    · split
      · exact ⟨rfl, rfl, rfl, rfl, rfl, rfl⟩
      · split <;> exact ⟨rfl, rfl, rfl, rfl, rfl, rfl⟩

inductive Taking (s : Tftp) : Op → Tftp → Prop
  | loopTop : s.pc = .loop → Taking s .loopTop s.loopTop
  | recvtime : s.pc = .sent → Taking s .recvtime s.recvtime
  | timeout : s.pc = .waiting → Taking s .timeout { s with pc := .expired }
  | wake : s.pc = .waiting ∧ s.msg ≠ none ∨ s.pc = .expired → Taking s .wake s.wake
  | process {retval : Int} (callback : Int) (sends : Bool) :
      s.pc = .got retval → Taking s (.process callback sends) (s.process retval callback sends)
  | receive : s.child = .receive ∨ s.child = .blocked → Taking s .receive s.receive
  | read {d : Datagram} {rest : List Datagram} :
      s.child = .reading → s.ring = d :: rest → s.running → Taking s .read (s.read d rest)
  | sendResult {result : Int} : s.child = .readDone result → Taking s .sendResult (s.sendResult result)
  | arrive (d : Datagram) : s.running → Taking s (.arrive d) (s.arrive d)
  | tick : Taking s .tick { s with clktime := s.clktime + 1 }

theorem step_taking (action : step op s = some s') : Taking s op s' := by
  cases op with
  | loopTop =>
      simp only [step] at action
      split at action <;> cases action
      exact .loopTop ‹_›
  | recvtime =>
      simp only [step] at action
      split at action <;> cases action
      exact .recvtime ‹_›
  | timeout =>
      simp only [step] at action
      split at action <;> cases action
      rename_i waits
      exact .timeout waits.1
  | wake =>
      simp only [step] at action
      split at action <;> cases action
      exact .wake ‹_›
  | process callback sends =>
      simp only [step] at action
      split at action <;> cases action
      exact .process callback sends ‹_›
  | receive =>
      simp only [step] at action
      split at action <;> cases action
      rename_i ready
      exact .receive (ready.2.imp id And.left)
  | read =>
      simp only [step] at action
      split at action
      · split at action <;> cases action
        exact .read ‹_› ‹_› ‹_›
      · cases action
  | sendResult =>
      simp only [step] at action
      split at action
      · split at action <;> cases action
        exact .sendResult ‹_›
      · cases action
  | arrive d =>
      simp only [step] at action
      split at action <;> cases action
      exact .arrive d ‹_›
  | tick =>
      cases action
      exact .tick

theorem Loaded.keep (loaded : Loaded s) (pkt : s'.pkt = s.pkt) (last : s'.last = s.last) : Loaded s' := by
  intro d read
  rw [last] at read
  rw [pkt]
  exact loaded d read

theorem read_loaded (s : Tftp) (d : Datagram) (rest : List Datagram) : Loaded (s.read d rest) := by
  intro d' read i bound
  simp only [Tftp.read, Option.some.injEq] at read
  subst read
  exact if_pos bound

theorem loopTop_buffer (s : Tftp) : s.loopTop.pkt = s.pkt ∧ s.loopTop.last = s.last := by
  simp only [loopTop]
  split <;> exact ⟨rfl, rfl⟩

theorem recvtime_buffer (s : Tftp) : s.recvtime.pkt = s.pkt ∧ s.recvtime.last = s.last := by
  rw [recvtime]
  split <;> exact ⟨rfl, rfl⟩

theorem wake_buffer (s : Tftp) : s.wake.pkt = s.pkt ∧ s.wake.last = s.last := by
  rw [wake]
  split <;> exact ⟨rfl, rfl⟩

theorem receive_buffer (s : Tftp) : s.receive.pkt = s.pkt ∧ s.receive.last = s.last := by
  rw [receive]
  split <;> exact ⟨rfl, rfl⟩

theorem step_loaded (loaded : Loaded s) (action : step op s = some s') : Loaded s' := by
  cases step_taking action with
  | loopTop _ => exact loaded.keep (loopTop_buffer s).1 (loopTop_buffer s).2
  | recvtime _ => exact loaded.keep (recvtime_buffer s).1 (recvtime_buffer s).2
  | timeout _ => exact loaded.keep rfl rfl
  | wake _ => exact loaded.keep (wake_buffer s).1 (wake_buffer s).2
  | @process retval callback sends _ =>
      have apart := process_apart s retval callback sends
      exact loaded.keep apart.pkt apart.last
  | receive _ => exact loaded.keep (receive_buffer s).1 (receive_buffer s).2
  | read _ _ _ => exact read_loaded _ _ _
  | sendResult _ => exact loaded.keep rfl rfl
  | arrive d _ =>
      obtain ⟨-, -, -, -, pkt, last⟩ := arrive_same s d
      exact loaded.keep pkt last
  | tick => exact loaded.keep rfl rfl

theorem Outstanding.listens (outstanding : s.Outstanding) :
    (s.child = .receive ∨ s.child = .blocked) → (s.childMsg ≠ none ∧ s.msg = none) ∨
      ∃ d, s.last = some d ∧ s.msg = some d.size ∧ s.Quiet := by
  intro listens
  rcases outstanding with ⟨-, given, none⟩ | ⟨reading, -, -⟩ | ⟨d, -, finished, -⟩ | answered
  · exact .inl ⟨given, none⟩
  · rcases listens with listens | listens <;> rw [reading] at listens <;> cases listens
  · rcases listens with listens | listens <;> rw [finished] at listens <;> cases listens
  · exact .inr answered

theorem Outstanding.answer {m : Int} (outstanding : s.Outstanding) (arrived : s.msg = some m) :
    s.Quiet ∧ ∃ d, s.last = some d ∧ m = d.size := by
  rcases outstanding with ⟨-, -, none⟩ | ⟨-, -, none⟩ | ⟨d, -, -, -, none⟩ | ⟨d, last, msg, quiet⟩
  · rw [none] at arrived
    cases arrived
  · rw [none] at arrived
    cases arrived
  · rw [none] at arrived
    cases arrived
  · rw [msg] at arrived
    cases arrived
    exact ⟨quiet, d, last, rfl⟩

theorem Quiet.not_reading (quiet : s.Quiet) : s.child ≠ .reading := by
  intro reading
  rcases quiet.1 with listens | listens <;> rw [reading] at listens <;> cases listens

theorem Quiet.not_finished {result : Int} (quiet : s.Quiet) : s.child ≠ .readDone result := by
  intro finished
  rcases quiet.1 with listens | listens <;> rw [finished] at listens <;> cases listens

structure InTurn (s s' : Tftp) : Prop where
  pc : s'.pc = s.pc
  block : s'.nextBlockNumber = s.nextBlockNumber
  requests : s'.numRreqsSent = s.numRreqsSent
  outstanding : s.Outstanding → s'.Outstanding
  quiet : s.Quiet → s.msg = none → s'.Quiet ∧ s'.msg = none ∧ s'.last = s.last
  ring : s.ring = [] ∨ s.Quiet → s'.ring = [] ∨ s'.Quiet

theorem InTurn.leaving (step : InTurn s s') (leaving : s.Leaving) : s'.Leaving :=
  ⟨step.outstanding leaving.1, by rw [GivesUp, step.block, step.requests]; exact leaving.2.1,
    step.ring leaving.2.2⟩

theorem InTurn.answered {retval : Int} (step : InTurn s s') (answered : s.Answered retval) :
    s'.Answered retval := by
  obtain ⟨quiet, none, length⟩ := answered
  obtain ⟨quiet', none', last⟩ := step.quiet quiet none
  rw [Answered, last]
  exact ⟨quiet', none', length⟩

theorem InTurn.turn (step : InTurn s s') (turn : Turn s) : Turn s' := by
  rw [Turn] at turn ⊢
  rw [step.pc]
  cases pc : s.pc with
  | loop =>
      rw [pc] at turn
      obtain ⟨quiet, none, -⟩ := step.quiet turn.1 turn.2
      exact ⟨quiet, none⟩
  | sent =>
      rw [pc] at turn
      exact step.outstanding turn
  | waiting =>
      rw [pc] at turn
      exact step.outstanding turn
  | expired =>
      rw [pc] at turn
      exact step.leaving turn
  | got retval =>
      rw [pc] at turn
      rcases turn with answered | ⟨timeout, leaving⟩
      · exact .inl (step.answered answered)
      · exact .inr ⟨timeout, step.leaving leaving⟩
  | done retval => trivial

theorem receive_inTurn (listens : s.child = .receive ∨ s.child = .blocked) : InTurn s s.receive := by
  rw [receive]
  split
  · rename_i m given
    have notQuiet : ¬ s.Quiet := by
      intro quiet
      rw [quiet.2] at given
      cases given
    refine ⟨rfl, rfl, rfl, ?_, fun quiet _ => absurd quiet notQuiet,
      fun nothing => nothing.imp id fun quiet => absurd quiet notQuiet⟩
    intro outstanding
    rcases outstanding.listens listens with ⟨-, none⟩ | ⟨_, -, -, quiet⟩
    · exact .inr (.inl ⟨rfl, rfl, none⟩)
    · exact absurd quiet notQuiet
  · rename_i none
    refine ⟨rfl, rfl, rfl, ?_, fun quiet empty => ⟨⟨.inr rfl, quiet.2⟩, empty, rfl⟩,
      fun nothing => nothing.imp id fun quiet => ⟨.inr rfl, quiet.2⟩⟩
    intro outstanding
    rcases outstanding.listens listens with ⟨given, -⟩ | ⟨d, last, msg, quiet⟩
    · exact absurd none given
    · exact .inr (.inr (.inr ⟨d, last, msg, .inr rfl, quiet.2⟩))

theorem read_inTurn {d : Datagram} {rest : List Datagram} (reading : s.child = .reading)
    (ring : s.ring = d :: rest) : InTurn s (s.read d rest) := by
  refine ⟨rfl, rfl, rfl, ?_, fun quiet => absurd reading quiet.not_reading, ?_⟩
  · rintro (⟨listens, -, -⟩ | ⟨-, given, none⟩ | ⟨d, -, listens, -⟩ | ⟨d, -, -, quiet⟩)
    · rcases listens with listens | listens <;> rw [reading] at listens <;> cases listens
    · exact .inr (.inr (.inl ⟨d, rfl, rfl, given, none⟩))
    · rw [reading] at listens
      cases listens
    · exact absurd reading quiet.not_reading
  · rintro (empty | quiet)
    · rw [empty] at ring
      cases ring
    · exact absurd reading quiet.not_reading

theorem sendResult_inTurn {result : Int} (finished : s.child = .readDone result) :
    InTurn s (s.sendResult result) := by
  refine ⟨rfl, rfl, rfl, ?_, fun quiet => absurd finished quiet.not_finished,
    fun nothing => nothing.imp id fun quiet => absurd finished quiet.not_finished⟩
  rintro (⟨listens, -, -⟩ | ⟨reading, -, -⟩ | ⟨d, last, size, given, none⟩ | ⟨d, -, -, quiet⟩)
  · rcases listens with listens | listens <;> rw [finished] at listens <;> cases listens
  · rw [finished] at reading
    cases reading
  · rw [finished] at size
    cases size
    exact .inr (.inr (.inr ⟨d, last, by rw [sendResult, none]; rfl, .inl rfl, given⟩))
  · exact absurd finished quiet.not_finished

theorem arrive_requests (s : Tftp) (d : Datagram) :
    (s.arrive d).nextBlockNumber = s.nextBlockNumber ∧ (s.arrive d).numRreqsSent = s.numRreqsSent := by
  rw [arrive]
  split
  · exact ⟨rfl, rfl⟩
  · split
    · exact ⟨rfl, rfl⟩
    · split
      · exact ⟨rfl, rfl⟩
      · split <;> exact ⟨rfl, rfl⟩

theorem arrive_turn {d : Datagram} (turn : Turn s) (patient : Patient s (.arrive d)) :
    Turn (s.arrive d) := by
  obtain ⟨pc, child, childMsg, msg, -, last⟩ := arrive_same s d
  obtain ⟨block, requests⟩ := arrive_requests s d
  have outstanding : (s.arrive d).Outstanding = s.Outstanding := by
    rw [Outstanding, Outstanding, Quiet, Quiet, child, childMsg, msg, last]
  have quiet : (s.arrive d).Quiet = s.Quiet := by rw [Quiet, Quiet, child, childMsg]
  have leaving (still : s.Quiet) (left : s.Leaving) : (s.arrive d).Leaving := by
    rw [Leaving, outstanding, quiet, GivesUp, block, requests]
    exact ⟨left.1, left.2.1, .inr still⟩
  rw [Turn] at turn ⊢
  rw [pc]
  cases here : s.pc with
  | loop =>
      rw [here] at turn
      simp only [quiet, msg]
      exact turn
  | sent =>
      rw [here] at turn
      simp only [outstanding]
      exact turn
  | waiting =>
      rw [here] at turn
      simp only [outstanding]
      exact turn
  | expired =>
      rw [here] at turn
      exact leaving (patient (.inl here)) turn
  | got retval =>
      rw [here] at turn
      rcases turn with answered | ⟨timeout, left⟩
      · rw [Answered, ← quiet, ← msg, ← last] at answered
        exact .inl answered
      · rw [timeout] at here
        exact .inr ⟨timeout, leaving (patient (.inr here)) left⟩
  | done retval => trivial

theorem loopTop_turn (turn : Turn s) (pc : s.pc = .loop) : Turn s.loopTop := by
  rw [Turn, pc] at turn
  obtain ⟨quiet, none⟩ := turn
  simp only [loopTop]
  split
  · exact .inl ⟨quiet.1, by rw [deposit, quiet.2]; exact Option.some_ne_none _, none⟩
  · exact .inl ⟨quiet, none, .inl rfl⟩

theorem recvtime_turn (turn : Turn s) (pc : s.pc = .sent) : Turn s.recvtime := by
  rw [Turn, pc] at turn
  rw [recvtime]
  split
  · rename_i m arrived
    obtain ⟨quiet, length⟩ := turn.answer arrived
    exact .inl ⟨quiet, rfl, .inr length⟩
  · exact turn

theorem wake_turn (turn : Turn s) (ready : s.pc = .waiting ∧ s.msg ≠ none ∨ s.pc = .expired) :
    Turn s.wake := by
  rw [wake]
  split
  · rename_i m arrived
    have outstanding : s.Outstanding := by
      rcases ready with ⟨pc, -⟩ | pc <;> rw [Turn, pc] at turn
      · exact turn
      · exact turn.1
    obtain ⟨quiet, length⟩ := outstanding.answer arrived
    exact .inl ⟨quiet, rfl, .inr length⟩
  · rename_i empty
    rcases ready with ⟨-, arrived⟩ | pc
    · exact absurd empty arrived
    · rw [Turn, pc] at turn
      exact .inr ⟨rfl, turn⟩

theorem process_turn {retval callback : Int} {sends : Bool} (turn : Turn s) (pc : s.pc = .got retval) :
    Turn (s.process retval callback sends) := by
  rw [Turn, pc] at turn
  rcases turn with ⟨quiet, none, -⟩ | ⟨timeout, -, givesUp, -⟩
  · have apart := process_apart s retval callback sends
    have still : (s.process retval callback sends).Quiet ∧ (s.process retval callback sends).msg = .none := by
      rw [Quiet, apart.child, apart.childMsg, apart.msg]
      exact ⟨quiet, none⟩
    rcases apart.pc with pc | ⟨_, pc⟩ <;> rw [Turn, pc]
    · exact still
    · trivial
  · rw [process, if_pos timeout, timedOut, if_neg givesUp]
    trivial

theorem step_turn (turn : Turn s) (patient : Patient s op) (action : step op s = some s') : Turn s' := by
  cases step_taking action with
  | loopTop pc => exact loopTop_turn turn pc
  | recvtime pc => exact recvtime_turn turn pc
  | timeout pc =>
      rw [Turn, pc] at turn
      exact ⟨turn, patient.1, .inl patient.2⟩
  | wake ready => exact wake_turn turn ready
  | process callback sends pc => exact process_turn turn pc
  | receive listens => exact (receive_inTurn listens).turn turn
  | read reading ring _ => exact (read_inTurn reading ring).turn turn
  | sendResult finished => exact (sendResult_inTurn finished).turn turn
  | arrive d _ => exact arrive_turn turn patient
  | tick => exact turn

theorem Turn.read_waits (turn : Turn s) (action : step .read s = some s') :
    s.pc = .sent ∨ s.pc = .waiting := by
  cases step_taking action with
  | read reading ring runs =>
      have leaving : ¬ s.Leaving := by
        rintro ⟨-, -, empty | quiet⟩
        · rw [ring] at empty
          cases empty
        · exact absurd reading quiet.not_reading
      rw [Turn] at turn
      cases pc : s.pc with
      | loop =>
          rw [pc] at turn
          exact absurd reading turn.1.not_reading
      | sent => exact .inl rfl
      | waiting => exact .inr rfl
      | expired =>
          rw [pc] at turn
          exact absurd turn leaving
      | got retval =>
          rw [pc] at turn
          rcases turn with answered | ⟨-, left⟩
          · exact absurd reading answered.1.not_reading
          · exact absurd left leaving
      | done retval =>
          rw [running, pc] at runs
          cases runs

instance : DecidablePred Quiet := fun _ => inferInstanceAs (Decidable (_ ∧ _))

instance : DecidablePred GivesUp := fun _ => inferInstanceAs (Decidable (¬ _))

instance (s : Tftp) : DecidablePred (Patient s)
  | .timeout => inferInstanceAs (Decidable (_ ∧ _))
  | .arrive _ => inferInstanceAs (Decidable (_ → _))
  | .loopTop | .recvtime | .wake | .process _ _ | .receive | .read | .sendResult | .tick =>
      inferInstanceAs (Decidable True)

def firstBlock : Datagram := ⟨⟨1, 5000⟩, [0, 3, 0, 1, 65]⟩

def fullBlock : Datagram := ⟨⟨1, 5000⟩, [0, 3, 0, 1] ++ List.replicate 512 65⟩

def oneExchange : List Op :=
  [.loopTop, .recvtime, .receive, .arrive fullBlock, .read, .sendResult, .wake]

def noSecond : List Op := [.process OK true, .loopTop, .recvtime, .receive, .timeout, .wake, .process OK true]

def twoGoAheads : List Op :=
  [.loopTop, .recvtime, .receive, .timeout, .wake, .process OK true, .loopTop, .recvtime,
    .arrive firstBlock, .arrive firstBlock, .read, .sendResult, .wake, .receive]

end Xinu.Tftp
