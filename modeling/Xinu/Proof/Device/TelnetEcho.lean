import Xinu.Proof.Device.Telnet

namespace Xinu.Telnet
open Lib

section
variable {t t' : Telnet} {willSga : Bool}

/-! ## Output -/

def output (t : Telnet) : List Byte := t.sent ++ t.out

def echo (icount : Nat) (ch : Byte) : List Byte :=
  if ch = 127 ∨ ch = 8 then if 1 ≤ icount then [8, 32, 8] else []
  else if ch = 247 then [8, 32, 8]
  else if ch = 13 then [13, 13, 10]
  else if ch ≠ 10 ∧ isprint ch then [ch]
  else []

def echoes : Nat → List Byte → List Byte
  | _, [] => []
  | icount, ch :: chars => echo icount ch ++ echoes (icount + 1) chars

inductive Shows (t t' : Telnet) : List Byte → Prop
  | nothing : t'.sent = t.sent → t'.out = t.out → Shows t t' []
  | sent {chars : List Byte} : chars ≠ [] → t'.sent = t.sent ++ t.out ++ chars → t'.out = [] → Shows t t' chars

theorem Shows.trans {t'' : Telnet} {chars chars' : List Byte} (first : Shows t t' chars) (second : Shows t' t'' chars') :
    Shows t t'' (chars ++ chars') := by
  cases first with
  | nothing sent out =>
      cases second with
      | nothing sent' out' => exact .nothing (sent'.trans sent) (out'.trans out)
      | sent some sent' out' => exact .sent some (by rw [sent', sent, out]; rfl) out'
  | sent some sent out =>
      cases second with
      | nothing sent' out' =>
          rw [List.append_nil]
          exact .sent some (sent'.trans sent) (out'.trans out)
      | sent _ sent' out' => exact .sent (List.append_ne_nil_of_left_ne_nil some _) (by rw [sent', sent, out]; simp) out'

theorem Shows.none (shows : Shows t t' []) : t'.sent = t.sent ∧ t'.out = t.out := by
  cases shows with
  | nothing sent out => exact ⟨sent, out⟩
  | sent some => exact absurd rfl some

theorem Shows.like {t₁ t₂ : Telnet} {chars : List Byte} (shows : Shows t₁ t₂ chars)
    (before : t₁.sent = t.sent ∧ t₁.out = t.out) (after : t'.sent = t₂.sent ∧ t'.out = t₂.out) : Shows t t' chars := by
  cases shows with
  | nothing sent out => exact .nothing (after.1.trans (sent.trans before.1)) (after.2.trans (out.trans before.2))
  | sent some sent out => exact .sent some (by rw [after.1, sent, before.1, before.2]) (after.2.trans out)

theorem Shows.flush {ch : Byte} {chars : List Byte} (shows : Shows t t' (ch :: chars)) : Shows t (telnetFlush t') (ch :: chars) := by
  cases shows with
  | sent some sent out => exact .sent some (by rw [telnetFlush, sent, out, List.append_nil]) rfl

theorem flush_shows {chars : List Byte} (some : chars ≠ []) (shown : output t' = output t ++ chars) :
    Shows t (telnetFlush t') chars := .sent some shown rfl

theorem flush_output (t : Telnet) : output (telnetFlush t) = output t := List.append_nil _

theorem putc_output (ch : Byte) (t : Telnet) :
    output (telnetPutc ch t) = output t ++ if ch = 10 then [13, 10] else if ch = TELNET_IAC then [ch, ch] else [ch] := by
  have put (t : Telnet) (chars : List Byte) : output { t with out := t.out ++ chars } = output t ++ chars :=
    (List.append_assoc _ _ _).symm
  have room : output (if TELNET_OBLEN - 1 ≤ t.out.length then telnetFlush t else t) = output t := by
    split
    · exact flush_output t
    · rfl
  unfold telnetPutc
  generalize (if TELNET_OBLEN - 1 ≤ t.out.length then telnetFlush t else t) = t₁ at room
  simp only
  rw [← room]
  split
  · exact (flush_output _).trans (put t₁ _)
  · split
    · exact put t₁ _
    · exact put t₁ _

theorem echo_shows {ch : Byte} {icount : Nat} (t : Telnet) (shown : ch = 127 ∨ ch = 8 → 1 ≤ icount) :
    Shows t (telnetEcho ch t) (echo icount ch) := by
  have erase : Shows t (telnetFlush (telnetPutc 8 (telnetPutc 32 (telnetPutc 8 t)))) [8, 32, 8] := by
    refine flush_shows (by simp) ?_
    rw [putc_output, putc_output, putc_output]
    simp
  unfold telnetEcho echo
  by_cases key : ch = 127 ∨ ch = 8
  · rw [if_pos (key.elim (fun h => .inr (.inr h)) .inl), if_pos key, if_pos (shown key)]
    exact erase
  · have other : (ch = 8 ∨ ch = 247 ∨ ch = 127) ↔ ch = 247 := by
      constructor
      · rintro (h | h | h)
        · exact absurd (.inr h) key
        · exact h
        · exact absurd (.inl h) key
      · exact fun h => .inr (.inl h)
    simp only [other, if_neg key]
    by_cases command : ch = 247
    · rw [if_pos command, if_pos command]
      exact erase
    · rw [if_neg command, if_neg command]
      by_cases cr : ch = 13
      · rw [if_pos cr, if_pos cr]
        refine flush_shows (by simp) ?_
        rw [putc_output, putc_output]
        simp
      · rw [if_neg cr, if_neg cr]
        by_cases lf : ch = 10
        · rw [if_pos lf, if_neg fun both => both.1 lf]
          exact .nothing rfl rfl
        · rw [if_neg lf]
          by_cases print : isprint ch
          · have plain : ch ≠ TELNET_IAC := by
              rintro rfl
              exact absurd print (by decide)
            rw [if_neg (not_not.mpr print), if_pos ⟨lf, print⟩]
            refine flush_shows (by simp) ?_
            rw [putc_output, if_neg lf, if_neg plain]
          · rw [if_pos print, if_neg fun both => print both.2]
            exact .nothing rfl rfl

/-! ## What does not take part in the negotiation -/

structure Steady (t t' : Telnet) : Prop where
  flag : t'.flag_echo = t.flag_echo
  state : t'.echoState = t.echoState
  suppressed : t'.flag_suppress_ga = t.flag_suppress_ga
  place : t'.place = t.place

theorem Steady.refl (t : Telnet) : Steady t t := ⟨rfl, rfl, rfl, rfl⟩

theorem Steady.trans {t'' : Telnet} (first : Steady t t') (second : Steady t' t'') : Steady t t'' :=
  ⟨second.flag.trans first.flag, second.state.trans first.state, second.suppressed.trans first.suppressed,
    second.place.trans first.place⟩

theorem putc_steady (ch : Byte) (t : Telnet) : Steady t (telnetPutc ch t) := by
  unfold telnetPutc
  split <;> split
  · exact ⟨rfl, rfl, rfl, rfl⟩
  · split <;> exact ⟨rfl, rfl, rfl, rfl⟩
  · exact ⟨rfl, rfl, rfl, rfl⟩
  · split <;> exact ⟨rfl, rfl, rfl, rfl⟩

theorem flush_steady (t : Telnet) : Steady t (telnetFlush t) := ⟨rfl, rfl, rfl, rfl⟩

theorem echo_steady (ch : Byte) (t : Telnet) : Steady t (telnetEcho ch t) := by
  unfold telnetEcho
  split
  · exact (((putc_steady _ _).trans (putc_steady _ _)).trans (putc_steady _ _)).trans (flush_steady _)
  · split
    · exact ((putc_steady _ _).trans (putc_steady _ _)).trans (flush_steady _)
    · split
      · exact .refl t
      · split
        · exact .refl t
        · exact (putc_steady _ _).trans (flush_steady _)

theorem Steady.echo (same : Steady t t') (ch : Byte) : Steady t (telnetEcho ch t') := same.trans (echo_steady ch t')

theorem put_steady (c : Char) (t : Telnet) : Steady t (put c t) := ⟨rfl, rfl, rfl, rfl⟩

theorem eraseLine_steady (n index : Nat) (t : Telnet) : Steady t (eraseLine n index t) := by
  induction n generalizing t index with
  | zero => exact .refl t
  | succ n ih =>
      rw [eraseLine]
      split
      · exact .refl t
      · have erased := ih (n + t.istart)
          { t with icount := n, buffer := Function.update t.buffer ((n + t.istart) % TELNET_IBLEN) NUL }
        exact ⟨erased.flag, erased.state, erased.suppressed, erased.place⟩

/-! ## Characters -/

def Round.telnet : Round → Option Telnet
  | next t _ => some t
  | failed t => some t
  | killed t => some t
  | blocked => none

def typed (ch : Byte) (input : List (Option Byte)) : List Byte :=
  if ch = 13 then match input with
    | some ch' :: _ => [13, ch']
    | _ => [13]
  else [ch]

theorem dispatch_typed {c : Char} (willSga : Bool) (t : Telnet) (cr : c.ch ≠ 13) (iac : c.ch ≠ TELNET_IAC) :
    ∃ t', dispatch willSga c t = .next t' willSga ∧ Shows t t' (echo t.icount c.ch) ∧ Steady t t' := by
  unfold dispatch
  rw [if_neg cr]
  by_cases key : c.ch = 127 ∨ c.ch = 8
  · rw [if_pos key]
    by_cases some : 1 ≤ t.icount
    · rw [if_pos some]
      have steady : Steady t { t with icount := t.icount - 1 } := ⟨rfl, rfl, rfl, rfl⟩
      have shows := echo_shows { t with icount := t.icount - 1 } fun _ : c.ch = 127 ∨ c.ch = 8 => some
      exact ⟨_, rfl, shows.like ⟨rfl, rfl⟩ ⟨rfl, rfl⟩, steady.echo c.ch⟩
    · rw [if_neg some]
      refine ⟨_, rfl, ?_, .refl t⟩
      rw [echo, if_pos key, if_neg some]
      exact .nothing rfl rfl
  · have shown {icount : Nat} : c.ch = 127 ∨ c.ch = 8 → 1 ≤ icount := fun erases => absurd erases key
    rw [if_neg key]
    by_cases lf : c.ch = 10
    · rw [if_pos lf]
      have steady : Steady t { put c t with idelim := true } := ⟨rfl, rfl, rfl, rfl⟩
      exact ⟨_, rfl, (echo_shows { put c t with idelim := true } shown).like ⟨rfl, rfl⟩ ⟨rfl, rfl⟩, steady.echo c.ch⟩
    · rw [if_neg lf]
      by_cases eof : c.ch = 4
      · rw [if_pos eof]
        refine ⟨_, rfl, ?_, ⟨rfl, rfl, rfl, rfl⟩⟩
        rw [eof]
        exact .nothing rfl rfl
      · rw [if_neg eof, if_neg iac]
        refine ⟨_, rfl, ?_⟩
        split
        · exact ⟨(echo_shows (put c t) shown).like ⟨rfl, rfl⟩ ⟨rfl, rfl⟩, (put_steady c t).echo c.ch⟩
        · exact ⟨echo_shows t shown, echo_steady c.ch t⟩

theorem carriageReturn_typed {icount : Nat} (some : 1 ≤ icount) (c : Char) (t : Telnet) :
    Shows t (carriageReturn c t) (echo icount c.ch) ∧ Steady t (carriageReturn c t) := by
  unfold carriageReturn
  split
  · rename_i ending
    have nothing : echo icount c.ch = [] := by
      rcases ending with nul | lf
      · rw [nul]
        rfl
      · rw [lf]
        rfl
    have steady : Steady t { put c t with idelim := true } := ⟨rfl, rfl, rfl, rfl⟩
    refine ⟨?_, (steady.echo c.ch).echo c.ch⟩
    have once := @echo_shows c.ch icount { put c t with idelim := true } fun _ => some
    have twice := once.trans (@echo_shows c.ch icount _ fun _ => some)
    rw [nothing] at twice ⊢
    exact twice.like ⟨rfl, rfl⟩ ⟨rfl, rfl⟩
  · have steady : Steady t (put c (put NUL t)) := (put_steady NUL t).trans (put_steady c _)
    exact ⟨(echo_shows (put c (put NUL t)) fun _ => some).like ⟨rfl, rfl⟩ ⟨rfl, rfl⟩, steady.echo c.ch⟩

theorem receive_typed {ch : Byte} {input : List (Option Byte)} (read : t.input = some ch :: input) (text : ch ≠ TELNET_IAC)
    (round : (receive willSga t).telnet = some t') : Shows t t' (echoes t.icount (typed ch input)) := by
  have first : receive willSga t = dispatch willSga ⟨ch, (t.place.next ch).1⟩ { t with input, place := (t.place.next ch).2 } := by
    rw [receive, getc, read]
  rw [first] at round
  by_cases cr : ch = 13
  · subst cr
    let t₁ := put ⟨13, (t.place.next 13).1⟩ { t with input, place := (t.place.next 13).2 }
    have shown : Shows t (telnetFlush (telnetEcho 13 t₁)) [13, 13, 10] := by
      have first : Shows t₁ (telnetEcho 13 t₁) [13, 13, 10] := @echo_shows 13 0 t₁ fun key => absurd key (by decide)
      exact first.flush.like ⟨rfl, rfl⟩ ⟨rfl, rfl⟩
    have rest : (telnetFlush (telnetEcho 13 t₁)).input = input := (echo_quiet 13 t₁).input
    rw [dispatch, if_pos rfl] at round
    change (getc (telnetFlush (telnetEcho 13 t₁)) fun c t => .next (carriageReturn c t) willSga).telnet = some t' at round
    rw [getc, rest] at round
    cases input with
    | nil => cases round
    | cons got input =>
        cases got with
        | none =>
            cases Option.some.inj round
            exact shown.like ⟨rfl, rfl⟩ ⟨rfl, rfl⟩
        | some ch' =>
            cases Option.some.inj round
            have behind := (carriageReturn_typed (Nat.le_add_left 1 t.icount) ⟨ch', ((telnetFlush (telnetEcho 13 t₁)).place.next ch').1⟩
              { telnetFlush (telnetEcho 13 t₁) with input, place := ((telnetFlush (telnetEcho 13 t₁)).place.next ch').2 }).1
            have both := shown.trans (behind.like ⟨rfl, rfl⟩ ⟨rfl, rfl⟩)
            have chars : echoes t.icount (typed 13 (some ch' :: input)) = [13, 13, 10] ++ echo (t.icount + 1) ch' := by
              simp [typed, echoes, echo]
            rw [chars]
            exact both
  · obtain ⟨t'', next, shown, -⟩ := dispatch_typed (c := ⟨ch, (t.place.next ch).1⟩) willSga
      { t with input, place := (t.place.next ch).2 } cr text
    rw [next] at round
    cases Option.some.inj round
    unfold typed
    rw [if_neg cr, echoes, echoes, List.append_nil]
    exact shown.like ⟨rfl, rfl⟩ ⟨rfl, rfl⟩

/-! ## Requests -/

structure Request where
  command : Byte
  option : Byte
  named : command = TELNET_WILL ∨ command = TELNET_WONT ∨ command = TELNET_DO ∨ command = TELNET_DONT

def Request.bytes (m : Request) : List Byte := [TELNET_IAC, m.command, m.option]

def requests : List Byte → List Request
  | _ :: command :: option :: sent =>
      if named : command = TELNET_WILL ∨ command = TELNET_WONT ∨ command = TELNET_DO ∨ command = TELNET_DONT then
        ⟨command, option, named⟩ :: requests sent
      else requests sent
  | _ => []

theorem requests_bytes (l : List Request) : requests (l.flatMap Request.bytes) = l := by
  induction l with
  | nil => rfl
  | cons m l ih =>
      rw [List.flatMap_cons, Request.bytes]
      simp only [List.cons_append, List.nil_append, requests, m.named, dite_true]
      rw [ih]

def Answers (t t' : Telnet) (l : List Request) : Prop := t'.sent = t.sent ++ l.flatMap Request.bytes

theorem Answers.requests {l : List Request} (answers : Answers t t' l) : requests (t'.sent.drop t.sent.length) = l := by
  rw [answers, List.drop_left, requests_bytes]

theorem Answers.none (t : Telnet) : Answers t t [] := (List.append_nil _).symm

def Request.round (m : Request) (willSga : Bool) (t : Telnet) : Round :=
  if m.command = TELNET_WILL then will willSga m.option t
  else if m.command = TELNET_WONT then .next (wont m.option t) willSga
  else if m.command = TELNET_DO then .next (doOption m.option t) willSga
  else .next (dont m.option t) willSga

theorem command_round (m : Request) (willSga : Bool) (t : Telnet) :
    command willSga m.command t = getc t fun c t => Request.round ⟨m.command, c.ch, m.named⟩ willSga t := by
  obtain ⟨command, option, named⟩ := m
  rcases named with rfl | rfl | rfl | rfl
  · rfl
  · rfl
  · rfl
  · rfl

theorem receive_command {input : List (Option Byte)} (read : t.input = some TELNET_IAC :: input) :
    receive willSga t =
      getc { t with input, place := (t.place.next TELNET_IAC).2 } fun c t => command willSga c.ch t := by
  rw [receive, getc, read]
  rfl

theorem receive_request {m : Request} {input : List (Option Byte)} (read : t.input = m.bytes.map some ++ input) :
    receive willSga t = m.round willSga { t with
      input, place := (((t.place.next TELNET_IAC).2.next m.command).2.next m.option).2 } := by
  have behind : t.input = some TELNET_IAC :: some m.command :: some m.option :: input := read
  rw [receive_command behind, getc]
  simp only
  rw [command_round, getc]

theorem getc_inv {k : Char → Telnet → Round} (round : (getc t k).telnet = some t') :
    (∃ input, t.input = none :: input ∧ t' = { t with input }) ∨
      ∃ ch input, t.input = some ch :: input ∧
        (k ⟨ch, (t.place.next ch).1⟩ { t with input, place := (t.place.next ch).2 }).telnet = some t' := by
  rw [getc] at round
  cases read : t.input with
  | nil =>
      rw [read] at round
      cases round
  | cons got input =>
      rw [read] at round
      cases got with
      | none => exact .inl ⟨input, rfl, (Option.some.inj round).symm⟩
      | some ch => exact .inr ⟨ch, input, rfl, round⟩

/-! ## The negotiation -/

/-- `TELNET_FLAG_ECHO` is set exactly in the state in which the device echoes. -/
def Agrees (t : Telnet) : Prop := t.flag_echo = true ↔ t.echoState = .self_echoes

theorem Steady.agrees (same : Steady t t') (agrees : Agrees t) : Agrees t' := by
  rw [Agrees, same.flag, same.state]
  exact agrees

theorem negotiate_agrees (command : Byte) (agrees : Agrees t) : Agrees (telnetEchoNegotiate command t) := by
  unfold Agrees at agrees
  unfold Agrees telnetEchoNegotiate
  cases state : t.echoState with
  | start => simpa [state] using agrees
  | sent_do | sent_will | self_echoes | other_echoes | no_echo =>
      rw [state] at agrees
      simp only
      repeat' split
      all_goals simp_all [telnetSendOption]

theorem round_keeps (m : Request) (round : (m.round willSga t).telnet = some t') :
    (Agrees t → Agrees t') ∧ t'.place = t.place := by
  unfold Request.round at round
  have sent (command option : Byte) : Steady t (telnetSendOption command option t) := ⟨rfl, rfl, rfl, rfl⟩
  have negotiated (command : Byte) :
      (Agrees t → Agrees (telnetEchoNegotiate command t)) ∧ (telnetEchoNegotiate command t).place = t.place :=
    ⟨negotiate_agrees command, (negotiate_quiet command t).place⟩
  split at round
  · unfold will at round
    split at round
    · split at round
      · cases Option.some.inj round
        exact ⟨id, rfl⟩
      · cases Option.some.inj round
        have heard : Steady t (telnetSendOption TELNET_WILL m.option { t with peerSga := true }) := ⟨rfl, rfl, rfl, rfl⟩
        exact ⟨heard.agrees, rfl⟩
    · split at round
      · cases Option.some.inj round
        exact negotiated _
      · cases Option.some.inj round
        exact ⟨(sent _ _).agrees, rfl⟩
  · split at round
    · cases Option.some.inj round
      unfold wont
      split
      · exact negotiated _
      · split
        · exact ⟨id, rfl⟩
        · exact ⟨id, rfl⟩
    · split at round
      · cases Option.some.inj round
        unfold doOption
        split
        · exact ⟨id, rfl⟩
        · split
          · exact negotiated _
          · exact ⟨(sent _ _).agrees, rfl⟩
      · cases Option.some.inj round
        unfold dont
        split
        · exact negotiated _
        · exact ⟨id, rfl⟩

theorem command_steady {ch : Byte}
    (plain : ¬ (ch = TELNET_WILL ∨ ch = TELNET_WONT ∨ ch = TELNET_DO ∨ ch = TELNET_DONT))
    (round : (command willSga ch t).telnet = some t') : Steady t t' := by
  obtain ⟨notWill, notWont, notDo, notDont⟩ : ch ≠ TELNET_WILL ∧ ch ≠ TELNET_WONT ∧ ch ≠ TELNET_DO ∧ ch ≠ TELNET_DONT := by
    simpa only [not_or] using plain
  unfold command at round
  rw [if_neg notWill, if_neg notWont, if_neg notDo, if_neg notDont] at round
  split at round
  · split at round <;> cases Option.some.inj round <;> exact .refl t
  · split at round
    · cases Option.some.inj round
      exact flush_steady t
    · split at round
      · cases Option.some.inj round
        exact ⟨rfl, rfl, rfl, rfl⟩
      · split at round
        · cases Option.some.inj round
          exact ⟨rfl, rfl, rfl, rfl⟩
        · split at round
          · cases Option.some.inj round
            exact eraseLine_steady _ _ t
          · cases Option.some.inj round
            exact .refl t

theorem receive_text {ch : Byte} {input : List (Option Byte)} (read : t.input = some ch :: input) (text : ch ≠ TELNET_IAC)
    (round : (receive willSga t).telnet = some t') :
    t'.flag_echo = t.flag_echo ∧ t'.echoState = t.echoState ∧
      (t.place = .text → (ch = 13 → input.head? ≠ some (some TELNET_IAC)) → t'.place = .text) := by
  have between {place : Place} {ch : Byte} (text : ch ≠ TELNET_IAC) (between : place = .text) : (place.next ch).2 = .text := by
    rw [between, Place.next, if_neg text]
  rcases getc_inv round with ⟨rest, failed, -⟩ | ⟨ch', rest, got, round⟩
  · exact absurd (read.symm.trans failed) (by simp)
  · obtain ⟨⟨⟩, rfl⟩ := List.cons.inj (read.symm.trans got)
    by_cases cr : ch = 13
    · subst cr
      let typed := put ⟨13, (t.place.next 13).1⟩ { t with input, place := (t.place.next 13).2 }
      let t₁ := telnetFlush (telnetEcho 13 typed)
      have steady : Steady { t with input, place := (t.place.next 13).2 } t₁ :=
        ((put_steady _ _).echo 13).trans (flush_steady _)
      have rest : t₁.input = input := (echo_quiet 13 typed).input
      rw [dispatch, if_pos rfl] at round
      rcases getc_inv (t := t₁) round with ⟨_, failed, rfl⟩ | ⟨ch', input', got, round⟩
      · exact ⟨steady.flag, steady.state, fun place _ => steady.place.trans (between text place)⟩
      · cases Option.some.inj round
        have behind := (carriageReturn_typed (Nat.le_refl 1) ⟨ch', (t₁.place.next ch').1⟩
          { t₁ with input := input', place := (t₁.place.next ch').2 }).2
        refine ⟨behind.flag.trans steady.flag, behind.state.trans steady.state, fun place ended => behind.place.trans ?_⟩
        refine between ?_ (steady.place.trans (between text place))
        rintro rfl
        exact ended rfl (by rw [← rest, got]; rfl)
    · obtain ⟨t'', next, -, steady⟩ := dispatch_typed (c := ⟨ch, (t.place.next ch).1⟩) willSga
        { t with input, place := (t.place.next ch).2 } cr text
      rw [next] at round
      cases Option.some.inj round
      exact ⟨steady.flag, steady.state, fun place _ => steady.place.trans (between text place)⟩

theorem receive_agrees (agrees : Agrees t) (round : (receive willSga t).telnet = some t') : Agrees t' := by
  cases read : t.input with
  | nil =>
      rw [receive, getc, read] at round
      cases round
  | cons got input =>
      cases got with
      | none =>
          rw [receive, getc, read] at round
          cases Option.some.inj round
          exact agrees
      | some ch =>
          by_cases text : ch = TELNET_IAC
          · subst text
            rw [receive_command read] at round
            rcases getc_inv round with ⟨_, -, rfl⟩ | ⟨ch, _, -, round⟩
            · exact agrees
            · by_cases named : ch = TELNET_WILL ∨ ch = TELNET_WONT ∨ ch = TELNET_DO ∨ ch = TELNET_DONT
              · have asked := command_round ⟨ch, 0, named⟩
                simp only at asked
                rw [asked] at round
                rcases getc_inv round with ⟨_, -, rfl⟩ | ⟨option, _, -, round⟩
                · exact agrees
                · exact (round_keeps ⟨ch, option, named⟩ round).1 agrees
              · exact (command_steady named round).agrees agrees
          · obtain ⟨flag, state, -⟩ := receive_text read text round
            rw [Agrees, flag, state]
            exact agrees

/-! ## Requests that confirm -/

def Confirms (t : Telnet) (m : Request) : Prop :=
  if m.option = TELNET_ECHO then
    match t.echoState with
    | .self_echoes => m.command = TELNET_DO ∨ m.command = TELNET_WONT
    | .other_echoes => m.command = TELNET_WILL ∨ m.command = TELNET_DONT
    | .no_echo => m.command = TELNET_WONT ∨ m.command = TELNET_DONT
    | .start | .sent_do | .sent_will => False
  else if m.option = TELNET_SUPPRESS_GA then
    m.command = (if t.flag_suppress_ga then TELNET_DO else TELNET_DONT) ∨
      m.command = if t.peerSga then TELNET_WILL else TELNET_WONT
  else m.command = TELNET_WONT ∨ m.command = TELNET_DONT

theorem negotiate_confirmed {m : Request} (option : m.option = TELNET_ECHO) (confirms : Confirms t m) :
    telnetEchoNegotiate m.command t = t := by
  rw [Confirms, if_pos option] at confirms
  unfold telnetEchoNegotiate
  cases state : t.echoState with
  | start => rfl
  | sent_do | sent_will =>
      rw [state] at confirms
      exact confirms.elim
  | self_echoes | other_echoes | no_echo =>
      rw [state] at confirms
      rcases confirms with command | command
      all_goals
        rw [command]
        rfl

theorem round_confirmed {m : Request} (confirms : Confirms t m)
    (once : ¬ (m.command = TELNET_DO ∧ m.option = TELNET_SUPPRESS_GA ∧ t.flag_suppress_ga = true))
    (known : ¬ (m.command = TELNET_WILL ∧ m.option = TELNET_SUPPRESS_GA ∧ (t.peerSga && !willSga) = true)) :
    ∃ t', m.round willSga t = .next t' willSga ∧ t'.sent = t.sent ∧ t'.out = t.out := by
  by_cases option : m.option = TELNET_ECHO
  · have same := negotiate_confirmed option confirms
    have other : m.option ≠ TELNET_SUPPRESS_GA := by
      rw [option]
      decide
    unfold Request.round will wont doOption dont
    simp only [if_neg other, if_pos option]
    rcases m.named with command | command | command | command
    all_goals
      rw [command] at same ⊢
      rw [same]
      exact ⟨t, rfl, rfl, rfl⟩
  · rw [Confirms, if_neg option] at confirms
    unfold Request.round will wont doOption dont
    simp only [if_neg option]
    by_cases suppress : m.option = TELNET_SUPPRESS_GA
    · rw [if_pos suppress] at confirms
      simp only [if_pos suppress]
      rcases confirms with command | command
      · cases flag : t.flag_suppress_ga with
        | true =>
            rw [flag] at command
            exact absurd ⟨command, suppress, flag⟩ once
        | false =>
            rw [flag] at command
            rw [command]
            exact ⟨t, rfl, rfl, rfl⟩
      · cases heard : t.peerSga with
        | true =>
            rw [heard] at command
            cases willSga with
            | true =>
                rw [command]
                exact ⟨_, rfl, rfl, rfl⟩
            | false => exact absurd ⟨command, suppress, by rw [heard]; rfl⟩ known
        | false =>
            rw [heard] at command
            rw [command]
            exact ⟨_, rfl, rfl, rfl⟩
    · rw [if_neg suppress] at confirms
      simp only [if_neg suppress]
      rcases confirms with command | command
      · rw [command]
        exact ⟨t, rfl, rfl, rfl⟩
      · rw [command]
        exact ⟨t, rfl, rfl, rfl⟩

/-! ## Runs -/

/-- Behind `IAC` there is no subnegotiation, no read that fails, and no request to suppress go-aheads once more, nor the
word that the peer does so once more, in another call. -/
def Fresh (suppressed again : Bool) : List (Option Byte) → Prop
  | [] => True
  | none :: _ => False
  | some ch :: input =>
      ch ≠ TELNET_SB ∧
        (ch = TELNET_WILL ∨ ch = TELNET_WONT ∨ ch = TELNET_DO ∨ ch = TELNET_DONT → input.head? ≠ some none) ∧
        (ch = TELNET_DO ∧ suppressed = true → input.head? ≠ some (some TELNET_SUPPRESS_GA)) ∧
        (ch = TELNET_WILL ∧ again = true → input.head? ≠ some (some TELNET_SUPPRESS_GA))

def Meets (suppressed again flag : Bool) (icount : Nat) : List (Option Byte) → Prop
  | [] => True
  | none :: _ => True
  | some ch :: input =>
      if ch = TELNET_IAC then Fresh suppressed again input
      else (ch = 13 → input.head? ≠ some (some TELNET_IAC)) ∧ (flag = true ∨ echoes icount (typed ch input) = [])

def Phase.sga : Phase → Bool
  | filling _ willSga => willSga
  | idle | waiting => false

def meets (r : Reader) (action : Action) : Prop :=
  action = .receive → Meets r.telnet.flag_suppress_ga (r.telnet.peerSga && !r.phase.sga) r.telnet.flag_echo
    r.telnet.icount r.telnet.input

instance (suppressed again : Bool) : DecidablePred (Fresh suppressed again)
  | [] => inferInstanceAs (Decidable True)
  | none :: _ => inferInstanceAs (Decidable False)
  | some _ :: _ => inferInstanceAs (Decidable (_ ∧ (_ → _) ∧ (_ → _) ∧ (_ → _)))

instance (suppressed again flag : Bool) (icount : Nat) : DecidablePred (Meets suppressed again flag icount)
  | [] => inferInstanceAs (Decidable True)
  | none :: _ => inferInstanceAs (Decidable True)
  | some ch :: _ => inferInstanceAs (Decidable (if ch = TELNET_IAC then _ else _))

instance (r : Reader) (action : Action) : Decidable (meets r action) :=
  inferInstanceAs (Decidable (action = .receive → Meets _ _ _ _ _))

theorem receive_place {again : Bool} (between : t.place = .text)
    (sensible : Meets t.flag_suppress_ga again t.flag_echo t.icount t.input)
    (round : (receive willSga t).telnet = some t') : t'.place = .text := by
  cases read : t.input with
  | nil =>
      rw [receive, getc, read] at round
      cases round
  | cons got input =>
      rw [read] at sensible
      cases got with
      | none =>
          rw [receive, getc, read] at round
          cases Option.some.inj round
          exact between
      | some ch =>
          rw [Meets] at sensible
          by_cases text : ch = TELNET_IAC
          · subst text
            rw [if_pos rfl] at sensible
            have next : (t.place.next TELNET_IAC).2 = .iac := by
              rw [between]
              rfl
            rw [receive_command read, next] at round
            cases input with
            | nil => cases round
            | cons got input =>
                cases got with
                | none => exact sensible.elim
                | some ch =>
                    obtain ⟨notSub, present, -⟩ := sensible
                    change (command willSga ch { t with input, place := (Place.iac.next ch).2 }).telnet = some t' at round
                    by_cases named : ch = TELNET_WILL ∨ ch = TELNET_WONT ∨ ch = TELNET_DO ∨ ch = TELNET_DONT
                    · have asked := command_round ⟨ch, 0, named⟩
                      simp only at asked
                      rw [asked, Place.next, if_pos named] at round
                      rcases getc_inv round with ⟨_, failed, -⟩ | ⟨option, _, -, round⟩
                      · simp only at failed
                        rw [failed] at present
                        exact absurd rfl (present named)
                      · exact (round_keeps ⟨ch, option, named⟩ round).2
                    · rw [Place.next, if_neg named, if_neg notSub] at round
                      exact (command_steady named round).place
          · rw [if_neg text] at sensible
            exact (receive_text read text round).2.2 between sensible.1

theorem drain_steady (n : Nat) (t : Telnet) : Steady t (drain n t).2 ∧ Shows t (drain n t).2 [] := by
  induction n generalizing t with
  | zero => exact ⟨.refl t, .nothing rfl rfl⟩
  | succ n ih =>
      rw [drain]
      split
      · obtain ⟨steady, same⟩ := ih { t with icount := t.icount - 1, istart := (t.istart + 1) % TELNET_IBLEN }
        exact ⟨⟨steady.flag, steady.state, steady.suppressed, steady.place⟩, same.like ⟨rfl, rfl⟩ ⟨rfl, rfl⟩⟩
      · exact ⟨.refl t, .nothing rfl rfl⟩

theorem deliver_steady (len : Nat) (t : Telnet) (returned : List Result) :
    Steady t (deliver len t returned).telnet ∧ Shows t (deliver len t returned).telnet [] := by
  obtain ⟨steady, same⟩ := drain_steady len { t with isem := t.isem + 1 }
  unfold deliver
  simp only
  split
  · exact ⟨⟨steady.flag, steady.state, steady.suppressed, steady.place⟩, same.like ⟨rfl, rfl⟩ ⟨rfl, rfl⟩⟩
  · exact ⟨⟨steady.flag, steady.state, steady.suppressed, steady.place⟩, same.like ⟨rfl, rfl⟩ ⟨rfl, rfl⟩⟩

theorem start_steady (len : Nat) (t : Telnet) (returned : List Result) :
    Steady t (start len t returned).telnet ∧ Shows t (start len t returned).telnet [] := by
  unfold start
  split
  · exact ⟨.refl t, .nothing rfl rfl⟩
  · split
    · exact ⟨⟨rfl, rfl, rfl, rfl⟩, .nothing rfl rfl⟩
    · split
      · exact ⟨.refl t, .nothing rfl rfl⟩
      · split
        · exact ⟨⟨rfl, rfl, rfl, rfl⟩, .nothing rfl rfl⟩
        · obtain ⟨steady, same⟩ := deliver_steady len { t with isem := t.isem - 1 } returned
          exact ⟨⟨steady.flag, steady.state, steady.suppressed, steady.place⟩, same.like ⟨rfl, rfl⟩ ⟨rfl, rfl⟩⟩

theorem step_inv {r r' : Reader} {action : Action} (taken : step action r = some r') :
    (action = .receive ∧ ∃ len willSga, r.phase = .filling len willSga ∧
      (receive willSga r.telnet).telnet = some r'.telnet) ∨
      action ≠ .receive ∧ Steady r.telnet r'.telnet ∧ Shows r.telnet r'.telnet [] := by
  obtain ⟨t, phase, returned⟩ := r
  cases phase with
  | idle =>
      cases action with
      | call len =>
          cases Option.some.inj taken
          exact .inr ⟨(fun h => by cases h), start_steady len t returned⟩
      | receive | finish => cases taken
  | waiting => cases action <;> cases taken
  | filling len willSga =>
      cases action with
      | call => cases taken
      | finish =>
          simp only [step] at taken
          split at taken
          · cases taken
          · cases Option.some.inj taken
            exact .inr ⟨(fun h => by cases h), deliver_steady len t returned⟩
      | receive =>
          refine .inl ⟨rfl, len, willSga, rfl, ?_⟩
          simp only [step] at taken
          split at taken
          · split at taken
            · rename_i next
              cases Option.some.inj taken
              exact congrArg Round.telnet next
            · rename_i failed
              cases Option.some.inj taken
              exact congrArg Round.telnet failed
            · rename_i killed
              cases Option.some.inj taken
              exact congrArg Round.telnet killed
            · cases taken
          · cases taken

theorem reach_agrees {ok : Reader → Action → Prop} {r₀ r : Reader} (start : Agrees r₀.telnet) (reach : Reach step ok r₀ r) :
    Agrees r.telnet := by
  refine reach.invariant (P := fun r => Agrees r.telnet) start fun r r' action agrees _ taken => ?_
  rcases step_inv taken with ⟨-, len, willSga, -, round⟩ | ⟨-, steady, -⟩
  · exact receive_agrees agrees round
  · exact steady.agrees agrees

theorem reach_place {r₀ r : Reader} (start : r₀.telnet.place = .text) (reach : Reach step meets r₀ r) :
    r.telnet.place = .text := by
  refine reach.invariant (P := fun r => r.telnet.place = .text) start fun r r' action between met taken => ?_
  rcases step_inv taken with ⟨rfl, len, willSga, -, round⟩ | ⟨-, steady, -⟩
  · exact receive_place between (met rfl) round
  · exact steady.place.trans between

/-- The characters of the text are echoed when the flag is set, each once, and a request that confirms is not answered. -/
structure Follows (r : Reader) (action : Action) (r' : Reader) : Prop where
  text : r.telnet.place = .text
  other : action ≠ .receive → Shows r.telnet r'.telnet []
  echoed : action = .receive → ∀ ch input, r.telnet.input = some ch :: input → ch ≠ TELNET_IAC →
    Shows r.telnet r'.telnet (if r.telnet.flag_echo then echoes r.telnet.icount (typed ch input) else [])
  confirmed : action = .receive → ∀ (m : Request) input,
    r.telnet.input = m.bytes.map some ++ input → Confirms r.telnet m → Shows r.telnet r'.telnet []

theorem follows {r r' : Reader} {action : Action} (text : r.telnet.place = .text) (met : meets r action)
    (taken : step action r = some r') : Follows r action r' := by
  rcases step_inv taken with ⟨rfl, len, willSga, phase, round⟩ | ⟨other, -, same⟩
  · refine ⟨text, fun absent => absurd rfl absent, fun _ ch input read plain => ?_,
      fun _ m input read confirms => ?_⟩
    · have sensible := met rfl
      rw [read, Meets, if_neg plain] at sensible
      have shown := receive_typed read plain round
      by_cases flag : r.telnet.flag_echo = true
      · rw [if_pos flag]
        exact shown
      · rw [if_neg flag]
        rw [sensible.2.resolve_left flag] at shown
        exact shown
    · have sensible := met rfl
      have behind : r.telnet.input = some TELNET_IAC :: some m.command :: some m.option :: input := read
      rw [behind, Meets, if_pos rfl] at sensible
      have once : ¬ (m.command = TELNET_DO ∧ m.option = TELNET_SUPPRESS_GA ∧ r.telnet.flag_suppress_ga = true) := by
        rintro ⟨command, option, flag⟩
        refine sensible.2.2.1 ⟨command, flag⟩ ?_
        rw [option]
        rfl
      have known : ¬ (m.command = TELNET_WILL ∧ m.option = TELNET_SUPPRESS_GA ∧ (r.telnet.peerSga && !willSga) = true) := by
        rintro ⟨command, option, flag⟩
        rw [phase] at sensible
        refine sensible.2.2.2 ⟨command, flag⟩ ?_
        rw [option]
        rfl
      obtain ⟨t', next, sent, out⟩ := round_confirmed (t := { r.telnet with
        input, place := (((r.telnet.place.next TELNET_IAC).2.next m.command).2.next m.option).2 }) confirms once known
      rw [receive_request read, next] at round
      rw [← Option.some.inj round]
      exact .nothing sent out
  · exact ⟨text, fun _ => same, fun receives => absurd receives other, fun receives => absurd receives other⟩

/-! ## Two devices -/

/-- How often two devices can still answer each other because of a request. -/
def Request.weight (m : Request) : Nat :=
  if m.option = TELNET_ECHO then
    if m.command = TELNET_DO then 4 else if m.command = TELNET_WILL then 3 else if m.command = TELNET_DONT then 2 else 1
  else if m.command = TELNET_DO ∨ m.command = TELNET_WILL ∧ m.option ≠ TELNET_SUPPRESS_GA then 2
  else 1

def total (l : List Request) : Nat := (l.map Request.weight).sum

def EchoState.weight : EchoState → Nat
  | sent_do => 3
  | other_echoes => 5
  | start | sent_will | self_echoes | no_echo => 0

def weight (willSga : Bool) (t : Telnet) : Nat := t.echoState.weight + if willSga then 0 else 1

theorem total_append (l l' : List Request) : total (l ++ l') = total l + total l' := by
  rw [total, List.map_append, List.sum_append]
  rfl

theorem total_one (m : Request) : total [m] = m.weight := Nat.add_zero _

theorem Answers.spends {m : Request} {l : List Request} {before after : EchoState} (answers : Answers t t' l)
    (becomes : t'.echoState = after) (less : total l + after.weight < m.weight + before.weight) :
    ∃ l, Answers t t' l ∧ total l + t'.echoState.weight < m.weight + before.weight := by
  rw [becomes]
  exact ⟨l, answers, less⟩

theorem negotiate_answers {m : Request} (option : m.option = TELNET_ECHO) (t : Telnet) :
    ∃ l, Answers t (telnetEchoNegotiate m.command t) l ∧
      total l + (telnetEchoNegotiate m.command t).echoState.weight < m.weight + t.echoState.weight := by
  obtain ⟨command, option', named⟩ := m
  cases option
  have asks (command : Byte) (named) (t' : Telnet) (sent : t'.sent = t.sent ++ [TELNET_IAC, command, TELNET_ECHO]) :
      Answers t t' [⟨command, TELNET_ECHO, named⟩] := sent
  unfold telnetEchoNegotiate
  cases state : t.echoState with
  | start =>
      rcases named with rfl | rfl | rfl | rfl
      · exact (Answers.none t).spends state (by decide)
      · exact (Answers.none t).spends state (by decide)
      · exact (Answers.none t).spends state (by decide)
      · exact (Answers.none t).spends state (by decide)
  | sent_do =>
      rcases named with rfl | rfl | rfl | rfl
      · exact Answers.spends (.none t) (show _ = EchoState.other_echoes from rfl) (by decide)
      · exact (asks TELNET_WILL (by decide) _ rfl).spends (show _ = EchoState.sent_will from rfl) (by decide)
      · exact (asks TELNET_WONT (by decide) _ rfl).spends state (by decide)
      · exact (Answers.none t).spends state (by decide)
  | sent_will =>
      rcases named with rfl | rfl | rfl | rfl
      · exact (asks TELNET_DONT (by decide) _ rfl).spends state (by decide)
      · exact (Answers.none t).spends state (by decide)
      · exact Answers.spends (.none t) (show _ = EchoState.self_echoes from rfl) (by decide)
      · exact Answers.spends (.none t) (show _ = EchoState.no_echo from rfl) (by decide)
  | self_echoes =>
      rcases named with rfl | rfl | rfl | rfl
      · exact (asks TELNET_DONT (by decide) _ rfl).spends state (by decide)
      · exact (Answers.none t).spends state (by decide)
      · exact (Answers.none t).spends state (by decide)
      · exact (asks TELNET_WONT (by decide) _ rfl).spends (show _ = EchoState.no_echo from rfl) (by decide)
  | other_echoes =>
      rcases named with rfl | rfl | rfl | rfl
      · exact (Answers.none t).spends state (by decide)
      · have both : Answers t { telnetSendOption TELNET_WILL TELNET_ECHO (telnetSendOption TELNET_DONT TELNET_ECHO t) with
            echoState := .sent_will } [⟨TELNET_DONT, TELNET_ECHO, by decide⟩, ⟨TELNET_WILL, TELNET_ECHO, by decide⟩] :=
          List.append_assoc t.sent [TELNET_IAC, TELNET_DONT, TELNET_ECHO] [TELNET_IAC, TELNET_WILL, TELNET_ECHO]
        exact both.spends (show _ = EchoState.sent_will from rfl) (by decide)
      · exact (asks TELNET_WONT (by decide) _ rfl).spends state (by decide)
      · exact (Answers.none t).spends state (by decide)
  | no_echo =>
      rcases named with rfl | rfl | rfl | rfl
      · exact (asks TELNET_DONT (by decide) _ rfl).spends state (by decide)
      · exact (Answers.none t).spends state (by decide)
      · exact (asks TELNET_WILL (by decide) _ rfl).spends (show _ = EchoState.self_echoes from rfl) (by decide)
      · exact (Answers.none t).spends state (by decide)

theorem round_echo {m : Request} (option : m.option = TELNET_ECHO) (willSga : Bool) (t : Telnet) :
    m.round willSga t = .next (telnetEchoNegotiate m.command t) willSga := by
  obtain ⟨command, option', named⟩ := m
  cases option
  rcases named with rfl | rfl | rfl | rfl
  · rfl
  · rfl
  · rfl
  · rfl

theorem round_answers (m : Request) (willSga : Bool) (t : Telnet) :
    ∃ t' willSga' l, m.round willSga t = .next t' willSga' ∧ Answers t t' l ∧
      total l + weight willSga' t' < m.weight + weight willSga t := by
  by_cases option : m.option = TELNET_ECHO
  · obtain ⟨l, answers, less⟩ := negotiate_answers option t
    refine ⟨_, _, l, round_echo option willSga t, answers, ?_⟩
    unfold weight
    omega
  · obtain ⟨command, option', named⟩ := m
    simp only at option
    have less {n k : Nat} : n < k → n + weight willSga t < k + weight willSga t := fun lt => Nat.add_lt_add_right lt _
    by_cases suppress : option' = TELNET_SUPPRESS_GA
    · cases suppress
      rcases named with rfl | rfl | rfl | rfl
      · cases willSga with
        | true => exact ⟨{ t with peerSga := true }, true, [], rfl, .none t, less (by decide)⟩
        | false =>
            refine ⟨telnetSendOption TELNET_WILL TELNET_SUPPRESS_GA { t with peerSga := true }, true,
              [⟨TELNET_WILL, TELNET_SUPPRESS_GA, by decide⟩], rfl, rfl, ?_⟩
            simp [total, Request.weight, weight, telnetSendOption]
      · exact ⟨{ t with peerSga := false }, willSga, [], rfl, .none t, less (by decide)⟩
      · exact ⟨{ telnetSendOption TELNET_WILL TELNET_SUPPRESS_GA t with flag_suppress_ga := true }, willSga,
          [⟨TELNET_WILL, TELNET_SUPPRESS_GA, by decide⟩], rfl, rfl, less (by decide)⟩
      · exact ⟨t, willSga, [], rfl, .none t, less (by decide)⟩
    · have weigh (command : Byte) (named) : Request.weight ⟨command, option', named⟩ =
          if command = TELNET_DO ∨ command = TELNET_WILL ∧ option' ≠ TELNET_SUPPRESS_GA then 2 else 1 := if_neg option
      have refused : ¬ (TELNET_DONT = TELNET_DO ∨ TELNET_DONT = TELNET_WILL ∧ option' ≠ TELNET_SUPPRESS_GA) := by
        rintro (same | ⟨same, -⟩) <;> exact absurd same (by decide)
      have declined : ¬ (TELNET_WONT = TELNET_DO ∨ TELNET_WONT = TELNET_WILL ∧ option' ≠ TELNET_SUPPRESS_GA) := by
        rintro (same | ⟨same, -⟩) <;> exact absurd same (by decide)
      rcases named with rfl | rfl | rfl | rfl
      · refine ⟨telnetSendOption TELNET_DONT option' t, willSga, [⟨TELNET_DONT, option', by decide⟩], ?_, rfl, less ?_⟩
        · show will willSga option' t = _
          rw [will, if_neg suppress, if_neg option]
        · rw [total_one, weigh, weigh, if_neg refused, if_pos (.inr ⟨rfl, suppress⟩)]
          decide
      · refine ⟨t, willSga, [], ?_, .none t, less ?_⟩
        · show Round.next (wont option' t) willSga = _
          rw [wont, if_neg option, if_neg suppress]
        · rw [weigh, if_neg declined]
          decide
      · refine ⟨telnetSendOption TELNET_WONT option' t, willSga, [⟨TELNET_WONT, option', by decide⟩], ?_, rfl, less ?_⟩
        · show Round.next (doOption option' t) willSga = _
          rw [doOption, if_neg suppress, if_neg option]
        · rw [total_one, weigh, weigh, if_neg declined, if_pos (.inl rfl)]
          decide
      · refine ⟨t, willSga, [], ?_, .none t, less ?_⟩
        · show Round.next (dont option' t) willSga = _
          rw [dont, if_neg option]
        · rw [weigh, if_neg refused]
          decide

structure Party where
  telnet : Telnet
  willSga : Bool

namespace Party

def weight (p : Party) : Nat := Telnet.weight p.willSga p.telnet

def handle (p : Party) (m : Request) : Party :=
  match receive p.willSga { p.telnet with input := m.bytes.map some, place := .text } with
  | .next telnet willSga => ⟨telnet, willSga⟩
  | _ => p

def answers (p : Party) (m : Request) : List Request :=
  requests ((p.handle m).telnet.sent.drop p.telnet.sent.length)

theorem handle_answers (p : Party) (m : Request) :
    Answers p.telnet (p.handle m).telnet (p.answers m) ∧ total (p.answers m) + (p.handle m).weight < m.weight + p.weight := by
  have read : (m.bytes.map some : List (Option Byte)) = m.bytes.map some ++ [] := (List.append_nil _).symm
  have round : receive p.willSga { p.telnet with input := m.bytes.map some, place := .text } = m.round p.willSga
      { p.telnet with input := [], place := (((Place.text.next TELNET_IAC).2.next m.command).2.next m.option).2 } :=
    receive_request read
  obtain ⟨t', willSga', l, next, sent, less⟩ := round_answers m p.willSga
    { p.telnet with input := [], place := (((Place.text.next TELNET_IAC).2.next m.command).2.next m.option).2 }
  have handled : p.handle m = ⟨t', willSga'⟩ := by
    rw [handle, round]
    simp only
    rw [next]
  have same : p.answers m = l := by
    rw [answers, handled]
    exact Answers.requests sent
  rw [same, handled]
  exact ⟨sent, less⟩

end Party

structure Exchange where
  here : Party
  there : Party
  toHere : List Request
  toThere : List Request

inductive Move
  | here | there | callHere | callThere
  deriving DecidableEq

namespace Exchange

def step : Move → Exchange → Option Exchange
  | .here, e =>
      match e.toHere with
      | [] => none
      | m :: toHere => some { e with here := e.here.handle m, toHere, toThere := e.toThere ++ e.here.answers m }
  | .there, e =>
      match e.toThere with
      | [] => none
      | m :: toThere => some { e with there := e.there.handle m, toThere, toHere := e.toHere ++ e.there.answers m }
  | .callHere, e => some { e with here := { e.here with willSga := false } }
  | .callThere, e => some { e with there := { e.there with willSga := false } }

def weight (e : Exchange) : Nat := total e.toHere + total e.toThere + e.here.weight + e.there.weight

def handles (move : Move) : Bool := move = .here ∨ move = .there

def calls (move : Move) : Bool := move = .callHere ∨ move = .callThere

theorem step_weight {e e' : Exchange} {move : Move} (taken : step move e = some e') :
    e'.weight + (if handles move then 1 else 0) ≤ e.weight + if calls move then 1 else 0 := by
  have again (p : Party) : Party.weight { p with willSga := false } ≤ p.weight + 1 := by
    unfold Party.weight Telnet.weight
    simp only
    split <;> omega
  cases move with
  | here =>
      rw [step] at taken
      split at taken
      · cases taken
      · rename_i m rest waiting
        rw [← Option.some.inj taken]
        have less := (e.here.handle_answers m).2
        simp only [weight, waiting, total_append, handles, calls]
        simp only [total, List.map_cons, List.sum_cons] at less ⊢
        simp
        omega
  | there =>
      rw [step] at taken
      split at taken
      · cases taken
      · rename_i m rest waiting
        rw [← Option.some.inj taken]
        have less := (e.there.handle_answers m).2
        simp only [weight, waiting, total_append, handles, calls]
        simp only [total, List.map_cons, List.sum_cons] at less ⊢
        simp
        omega
  | callHere =>
      rw [← Option.some.inj taken]
      have := again e.here
      simp only [weight, handles, calls]
      simp
      omega
  | callThere =>
      rw [← Option.some.inj taken]
      have := again e.there
      simp only [weight, handles, calls]
      simp
      omega

theorem run_handles {moves : List Move} {e e' : Exchange} (ran : Lib.run step (fun _ _ => true) moves e = some e') :
    moves.countP handles + e'.weight ≤ e.weight + moves.countP calls := by
  induction moves generalizing e with
  | nil =>
      rw [← Option.some.inj ran]
      simp
  | cons move moves ih =>
      rw [Lib.run, if_pos rfl] at ran
      obtain ⟨e₁, taken, ran⟩ := Option.bind_eq_some_iff.mp ran
      have rest := ih ran
      have first := step_weight taken
      rw [List.countP_cons, List.countP_cons]
      omega

end Exchange

/-- The flag follows the negotiation in every run, and two devices stop to answer each other. What is typed is echoed as
the flag says, and what is so already is not answered, in runs in which what can be seen of the text comes while the flag
is set, no command follows a carriage return, and go-aheads are suppressed once. -/
theorem telnet_echo {r₀ : Reader} (agrees : Agrees r₀.telnet) (between : r₀.telnet.place = .text) :
    (∀ r, Reach step (fun _ _ => True) r₀ r → Agrees r.telnet) ∧
      (∀ r r' action, Reach step meets r₀ r → meets r action → step action r = some r' → Follows r action r') ∧
      ∀ (moves : List Move) (e e' : Exchange), Lib.run Exchange.step (fun _ _ => true) moves e = some e' →
        moves.countP Exchange.handles ≤ e.weight + moves.countP Exchange.calls := by
  refine ⟨fun r reach => reach_agrees agrees reach, fun r r' action reach met taken => ?_, fun moves e e' ran => ?_⟩
  · exact follows (reach_place between reach) met taken
  · exact Nat.le_trans (Nat.le_add_right _ _) (Exchange.run_handles ran)

theorem opened_agrees (shell : Bool) (input : List (Option Byte)) : Agrees (opened shell input).telnet := by
  constructor
  · intro flag
    cases flag
  · intro state
    cases state

theorem telnet_echo_letter :
    ∃ r r', Reach step meets (opened false [some 255, some 253, some 1, some 97]) r ∧ r.telnet.flag_echo = true ∧
      step .receive r = some r' ∧ Follows r .receive r' ∧ r'.telnet.sent = r.telnet.sent ++ [97] := by
  obtain ⟨r, run⟩ : ∃ r, Lib.run step (fun r action => decide (meets r action)) [.call 10, .receive]
      (opened false [some 255, some 253, some 1, some 97]) = some r := ⟨_, rfl⟩
  have reach : Reach step meets (opened false [some 255, some 253, some 1, some 97]) r :=
    Reach.run (fun r action met => of_decide_eq_true met) .init run
  cases run
  exact ⟨_, _, reach, rfl, rfl, (telnet_echo (opened_agrees _ _) rfl).2.1 _ _ .receive reach (by decide) rfl, by decide⟩

theorem telnet_echo_unasked :
    (∃ r r', Reach step (fun _ _ => True) (opened false [some 97]) r ∧ r.telnet.flag_echo = false ∧
      step .receive r = some r' ∧ r'.telnet.sent = r.telnet.sent ++ [97] ∧ ¬ Follows r .receive r') ∧
    (∃ r r', Reach step (fun _ _ => True) (opened false [some 255, some 253, some 3, some 255, some 253, some 3]) r ∧
      r.telnet.flag_suppress_ga = true ∧ step .receive r = some r' ∧
      r'.telnet.sent = r.telnet.sent ++ [255, 251, 3] ∧ ¬ Follows r .receive r') ∧
    ∃ r r', Reach step (fun _ _ => True) (opened false [some 255, some 251, some 3, some 10, some 255, some 251, some 3]) r ∧
      r.telnet.peerSga = true ∧ step .receive r = some r' ∧
      r'.telnet.sent = r.telnet.sent ++ [255, 251, 3] ∧ ¬ Follows r .receive r' := by
  refine ⟨?_, ?_, ?_⟩
  · refine ⟨_, _, .next (a := .call 10) .init trivial rfl, rfl, rfl, by decide, fun follows => ?_⟩
    have echoed := (follows.echoed rfl 97 [] rfl (by decide)).none
    revert echoed
    decide
  · refine ⟨_, _, .next (a := .receive) (.next (a := .call 10) .init trivial rfl) trivial rfl, rfl, rfl, by decide,
      fun follows => ?_⟩
    have same := (follows.confirmed rfl ⟨TELNET_DO, TELNET_SUPPRESS_GA, by decide⟩ [] rfl (.inl rfl)).none
    revert same
    decide
  · obtain ⟨r, run⟩ : ∃ r, Lib.run step (fun _ _ => true) [.call 10, .receive, .receive, .finish, .call 10]
        (opened false [some 255, some 251, some 3, some 10, some 255, some 251, some 3]) = some r := ⟨_, rfl⟩
    have reach : Reach step (fun _ _ => True) (opened false [some 255, some 251, some 3, some 10, some 255, some 251, some 3]) r :=
      Reach.run (fun _ _ _ => trivial) .init run
    cases run
    refine ⟨_, _, reach, rfl, rfl, by decide, fun follows => ?_⟩
    have same := (follows.confirmed rfl ⟨TELNET_WILL, TELNET_SUPPRESS_GA, by decide⟩ [] rfl (.inr rfl)).none
    revert same
    decide

end

end Xinu.Telnet
