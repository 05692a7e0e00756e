import Xinu.Lib.Runs
import Xinu.System.Telnet

namespace Xinu.Telnet
open Lib

structure Quiet (t t' : Telnet) : Prop where
  phw : t'.phw = t.phw
  isem : t'.isem = t.isem
  buffer : t'.buffer = t.buffer
  icount : t'.icount = t.icount
  place : t'.place = t.place
  input : t'.input = t.input

theorem Quiet.refl (t : Telnet) : Quiet t t := ⟨rfl, rfl, rfl, rfl, rfl, rfl⟩

theorem Quiet.trans {t t' t'' : Telnet} (first : Quiet t t') (second : Quiet t' t'') : Quiet t t'' :=
  ⟨second.phw.trans first.phw, second.isem.trans first.isem, second.buffer.trans first.buffer,
    second.icount.trans first.icount, second.place.trans first.place, second.input.trans first.input⟩

theorem flush_quiet (t : Telnet) : Quiet t (telnetFlush t) := ⟨rfl, rfl, rfl, rfl, rfl, rfl⟩

theorem putc_quiet (ch : Byte) (t : Telnet) : Quiet t (telnetPutc ch t) := by
  unfold telnetPutc
  split <;> split
  · exact ⟨rfl, rfl, rfl, rfl, rfl, rfl⟩
  · split <;> exact ⟨rfl, rfl, rfl, rfl, rfl, rfl⟩
  · exact ⟨rfl, rfl, rfl, rfl, rfl, rfl⟩
  · split <;> exact ⟨rfl, rfl, rfl, rfl, rfl, rfl⟩

theorem echo_quiet (ch : Byte) (t : Telnet) : Quiet t (telnetEcho ch t) := by
  unfold telnetEcho
  split
  · exact (((putc_quiet _ _).trans (putc_quiet _ _)).trans (putc_quiet _ _)).trans (flush_quiet _)
  · split
    · exact ((putc_quiet _ _).trans (putc_quiet _ _)).trans (flush_quiet _)
    · split
      · exact .refl t
      · split
        · exact .refl t
        · exact (putc_quiet _ _).trans (flush_quiet _)

theorem send_quiet (command option : Byte) (t : Telnet) : Quiet t (telnetSendOption command option t) :=
  ⟨rfl, rfl, rfl, rfl, rfl, rfl⟩

theorem negotiate_quiet (command : Byte) (t : Telnet) : Quiet t (telnetEchoNegotiate command t) := by
  unfold telnetEchoNegotiate
  cases t.echoState with
  | start => exact .refl t
  | sent_do | sent_will | no_echo | self_echoes | other_echoes =>
      simp only
      repeat' split
      all_goals exact ⟨rfl, rfl, rfl, rfl, rfl, rfl⟩

structure Tidy (t : Telnet) : Prop where
  phw : t.phw
  isem : t.isem = 0
  clean : ∀ i, (t.buffer i).command = false
  place : t.place = .text
  fits : t.icount ≤ TELNET_IBLEN

theorem Quiet.tidy {t t' : Telnet} (quiet : Quiet t t') (tidy : Tidy t) : Tidy t' where
  phw := quiet.phw.trans tidy.phw
  isem := quiet.isem.trans tidy.isem
  clean := quiet.buffer ▸ tidy.clean
  place := quiet.place.trans tidy.place
  fits := quiet.icount ▸ tidy.fits

theorem put_tidy {t : Telnet} {c : Char} (tidy : Tidy t) (text : c.command = false) (room : t.icount + 1 ≤ TELNET_IBLEN) :
    Tidy (put c t) where
  phw := tidy.phw
  isem := tidy.isem
  clean := by
    intro i
    by_cases slot : i = (t.icount + t.istart) % TELNET_IBLEN
    · simp only [put, slot, Function.update_self, text]
    · simp only [put, Function.update_of_ne slot, tidy.clean]
  place := tidy.place
  fits := room

theorem shrink_tidy {t : Telnet} (tidy : Tidy t) (n : Nat) : Tidy { t with icount := t.icount - n } :=
  ⟨tidy.phw, tidy.isem, tidy.clean, tidy.place, Nat.le_trans (Nat.sub_le _ _) tidy.fits⟩

theorem eraseLine_tidy {t : Telnet} (tidy : Tidy t) (n index : Nat) (small : n ≤ TELNET_IBLEN) :
    Tidy (eraseLine n index t) := by
  induction n generalizing t index with
  | zero => exact tidy
  | succ n ih =>
      have smaller : n ≤ TELNET_IBLEN := Nat.le_of_succ_le small
      rw [eraseLine]
      split
      · exact tidy
      · have erased : Tidy { t with
            icount := n, buffer := Function.update t.buffer ((n + t.istart) % TELNET_IBLEN) NUL } := by
          refine ⟨tidy.phw, tidy.isem, fun i => ?_, tidy.place, smaller⟩
          by_cases slot : i = (n + t.istart) % TELNET_IBLEN
          · simp only [slot, Function.update_self, NUL]
          · simp only [Function.update_of_ne slot, tidy.clean]
        exact ih erased _ smaller

/-- Behind a carriage return: room for what both put into the buffer, and no command. -/
def Room (icount : Nat) : List (Option Byte) → Prop
  | [] => True
  | none :: _ => False
  | some ch :: _ =>
      if ch = 0 ∨ ch = 10 then icount + 2 ≤ TELNET_IBLEN else ch ≠ TELNET_IAC ∧ icount + 3 ≤ TELNET_IBLEN

def Harmless (shell : Bool) : List (Option Byte) → Prop
  | [] => True
  | none :: _ => False
  | some ch :: input =>
      ch ≠ TELNET_SB ∧ (ch = TELNET_IP → shell) ∧
        (ch = TELNET_WILL ∨ ch = TELNET_WONT ∨ ch = TELNET_DO ∨ ch = TELNET_DONT → input.head? ≠ some none)

def Allows (icount : Nat) (shell : Bool) : List (Option Byte) → Prop
  | [] => True
  | none :: _ => False
  | some ch :: input => if ch = 13 then Room icount input else if ch = TELNET_IAC then Harmless shell input else True

def Allowed (t : Telnet) : Prop := Allows t.icount t.shell t.input

instance (icount : Nat) : DecidablePred (Room icount)
  | [] => inferInstanceAs (Decidable True)
  | none :: _ => inferInstanceAs (Decidable False)
  | some ch :: _ => inferInstanceAs (Decidable (if ch = 0 ∨ ch = 10 then _ else _))

instance (shell : Bool) : DecidablePred (Harmless shell)
  | [] => inferInstanceAs (Decidable True)
  | none :: _ => inferInstanceAs (Decidable False)
  | some _ :: _ => inferInstanceAs (Decidable (_ ∧ (_ → _) ∧ (_ → _)))

instance (icount : Nat) (shell : Bool) : DecidablePred (Allows icount shell)
  | [] => inferInstanceAs (Decidable True)
  | none :: _ => inferInstanceAs (Decidable False)
  | some ch :: _ => inferInstanceAs (Decidable (if ch = 13 then _ else if ch = TELNET_IAC then _ else True))

theorem will_tidy {t : Telnet} (tidy : Tidy t) (willSga : Bool) (ch : Byte) :
    ∃ t' willSga', will willSga ch t = .next t' willSga' ∧ Tidy t' := by
  have heard : Tidy { t with peerSga := true } := ⟨tidy.phw, tidy.isem, tidy.clean, tidy.place, tidy.fits⟩
  unfold will
  split
  · split
    · exact ⟨_, _, rfl, heard⟩
    · exact ⟨_, _, rfl, (send_quiet _ _ _).tidy heard⟩
  · split
    · exact ⟨_, _, rfl, (negotiate_quiet _ _).tidy tidy⟩
    · exact ⟨_, _, rfl, (send_quiet _ _ _).tidy tidy⟩

theorem wont_tidy {t : Telnet} (tidy : Tidy t) (ch : Byte) : Tidy (wont ch t) := by
  unfold wont
  split
  · exact (negotiate_quiet _ _).tidy tidy
  · split
    · exact ⟨tidy.phw, tidy.isem, tidy.clean, tidy.place, tidy.fits⟩
    · exact tidy

theorem doOption_tidy {t : Telnet} (tidy : Tidy t) (ch : Byte) : Tidy (doOption ch t) := by
  unfold doOption
  split
  · exact ⟨tidy.phw, tidy.isem, tidy.clean, tidy.place, tidy.fits⟩
  · split
    · exact (negotiate_quiet _ _).tidy tidy
    · exact (send_quiet _ _ _).tidy tidy

theorem dont_tidy {t : Telnet} (tidy : Tidy t) (ch : Byte) : Tidy (dont ch t) := by
  unfold dont
  split
  · exact (negotiate_quiet _ _).tidy tidy
  · exact tidy

theorem command_tidy {t : Telnet} {ch : Byte} (tidy : Tidy t) (willSga : Bool)
    (plain : ¬ (ch = TELNET_WILL ∨ ch = TELNET_WONT ∨ ch = TELNET_DO ∨ ch = TELNET_DONT)) (lives : ch = TELNET_IP → t.shell) :
    ∃ t', command willSga ch t = .next t' willSga ∧ Tidy t' := by
  obtain ⟨notWill, notWont, notDo, notDont⟩ : ch ≠ TELNET_WILL ∧ ch ≠ TELNET_WONT ∧ ch ≠ TELNET_DO ∧ ch ≠ TELNET_DONT := by
    simpa only [not_or] using plain
  unfold command
  rw [if_neg notWill, if_neg notWont, if_neg notDo, if_neg notDont]
  split
  · rename_i interrupt
    exact ⟨_, if_pos (lives interrupt), tidy⟩
  · split
    · exact ⟨_, rfl, (flush_quiet _).tidy tidy⟩
    · split
      · exact ⟨_, rfl, ⟨tidy.phw, tidy.isem, tidy.clean, tidy.place, tidy.fits⟩⟩
      · split
        · exact ⟨_, rfl, shrink_tidy tidy 1⟩
        · split
          · exact ⟨_, rfl, eraseLine_tidy tidy _ _ tidy.fits⟩
          · exact ⟨_, rfl, tidy⟩

theorem option_tidy {t : Telnet} {ch : Byte} (tidy : Tidy { t with place := .text }) (willSga : Bool)
    (option : ch = TELNET_WILL ∨ ch = TELNET_WONT ∨ ch = TELNET_DO ∨ ch = TELNET_DONT) (place : t.place = .option)
    (present : t.input.head? ≠ some none) :
    command willSga ch t = .blocked ∨ ∃ t' willSga', command willSga ch t = .next t' willSga' ∧ Tidy t' := by
  have read : ∀ k : Char → Telnet → Round, (∀ c t', Tidy t' → ∃ t'' willSga', k c t' = .next t'' willSga' ∧ Tidy t'') →
      getc t k = .blocked ∨ ∃ t' willSga', getc t k = .next t' willSga' ∧ Tidy t' := by
    intro k next
    unfold getc
    cases input : t.input with
    | nil => exact .inl rfl
    | cons got rest =>
        cases got with
        | none =>
            rw [input] at present
            exact absurd rfl present
        | some ch =>
            refine .inr (next _ _ ⟨tidy.phw, tidy.isem, tidy.clean, ?_, tidy.fits⟩)
            rw [place]
  unfold command
  rcases option with rfl | rfl | rfl | rfl
  · exact read _ fun c t' tidy' => will_tidy tidy' willSga c.ch
  · exact read _ fun c t' tidy' => ⟨_, _, rfl, wont_tidy tidy' c.ch⟩
  · exact read _ fun c t' tidy' => ⟨_, _, rfl, doOption_tidy tidy' c.ch⟩
  · exact read _ fun c t' tidy' => ⟨_, _, rfl, dont_tidy tidy' c.ch⟩

theorem carriageReturn_tidy {t : Telnet} {c : Char} (tidy : Tidy t) (text : c.command = false)
    (room : if c.ch = 0 ∨ c.ch = 10 then t.icount + 1 ≤ TELNET_IBLEN else t.icount + 2 ≤ TELNET_IBLEN) :
    Tidy (carriageReturn c t) := by
  unfold carriageReturn
  split
  · rename_i delimiter
    rw [if_pos delimiter] at room
    have filled := put_tidy tidy text room
    have delimited : Tidy { put c t with idelim := true } := ⟨filled.phw, filled.isem, filled.clean, filled.place, filled.fits⟩
    exact (echo_quiet _ _).tidy ((echo_quiet _ _).tidy delimited)
  · rename_i other
    rw [if_neg other] at room
    have first := put_tidy (c := NUL) tidy rfl (by omega)
    exact (echo_quiet _ _).tidy (put_tidy first text room)

theorem getc_text {t : Telnet} {ch : Byte} {input : List (Option Byte)} (tidy : Tidy t) (read : t.input = some ch :: input)
    (text : ch ≠ TELNET_IAC) (k : Char → Telnet → Round) :
    getc t k = k ⟨ch, false⟩ { t with input } ∧ Tidy { t with input } := by
  have next : t.place.next ch = (false, .text) := by
    rw [tidy.place]
    exact if_neg text
  have same : { t with input, place := .text } = { t with input } := by rw [← tidy.place]
  refine ⟨?_, ⟨tidy.phw, tidy.isem, tidy.clean, tidy.place, tidy.fits⟩⟩
  unfold getc
  rw [read]
  simp only [next]
  rw [same]

theorem dispatch_text {t : Telnet} {ch : Byte} (willSga : Bool) (tidy : Tidy t) (room : t.icount < TELNET_IBLEN)
    (cr : ch ≠ 13) (iac : ch ≠ TELNET_IAC) : ∃ t', dispatch willSga ⟨ch, false⟩ t = .next t' willSga ∧ Tidy t' := by
  have filled : Tidy (put ⟨ch, false⟩ t) := put_tidy tidy rfl room
  unfold dispatch
  simp only [cr, iac, if_false]
  split
  · split
    · exact ⟨_, rfl, (echo_quiet _ _).tidy (shrink_tidy tidy 1)⟩
    · exact ⟨_, rfl, tidy⟩
  · split
    · refine ⟨_, rfl, (echo_quiet _ _).tidy ?_⟩
      exact ⟨filled.phw, filled.isem, filled.clean, filled.place, filled.fits⟩
    · split
      · exact ⟨_, rfl, ⟨tidy.phw, tidy.isem, tidy.clean, tidy.place, tidy.fits⟩⟩
      · refine ⟨_, rfl, (echo_quiet _ _).tidy ?_⟩
        split
        · exact filled
        · exact tidy

theorem receive_tidy {t : Telnet} (willSga : Bool) (tidy : Tidy t) (room : t.icount < TELNET_IBLEN) (allowed : Allowed t) :
    receive willSga t = .blocked ∨ ∃ t' willSga', receive willSga t = .next t' willSga' ∧ Tidy t' := by
  unfold Allowed at allowed
  unfold receive
  cases read : t.input with
  | nil =>
      left
      unfold getc
      rw [read]
  | cons got input =>
      rw [read] at allowed
      cases got with
      | none => exact allowed.elim
      | some ch =>
          rw [Allows] at allowed
          by_cases cr : ch = 13
          · subst cr
            obtain ⟨taken, tidy'⟩ := getc_text tidy read (by decide) (dispatch willSga)
            rw [if_pos rfl] at allowed
            -- the carriage return is in the buffer when the next character is read
            let t' := telnetFlush (telnetEcho 13 (put ⟨13, false⟩ { t with input }))
            have quiet : Quiet (put ⟨13, false⟩ { t with input }) t' := (echo_quiet _ _).trans (flush_quiet _)
            have filled : Tidy t' := quiet.tidy (put_tidy tidy' rfl room)
            have next : dispatch willSga ⟨13, false⟩ { t with input } =
                getc t' fun c t => .next (carriageReturn c t) willSga := rfl
            rw [taken, next]
            cases behind : input with
            | nil =>
                left
                unfold getc
                rw [quiet.input.trans behind]
            | cons got rest =>
                rw [behind] at allowed
                cases got with
                | none => exact allowed.elim
                | some ch =>
                    rw [Room] at allowed
                    have text : ch ≠ TELNET_IAC := by
                      rintro rfl
                      rw [if_neg (by decide)] at allowed
                      exact allowed.1 rfl
                    obtain ⟨taken', filled'⟩ := getc_text filled (quiet.input.trans behind) text
                      fun c t => .next (carriageReturn c t) willSga
                    refine .inr ⟨_, _, taken', carriageReturn_tidy filled' rfl ?_⟩
                    have count : ({ t' with input := rest } : Telnet).icount = t.icount + 1 := quiet.icount
                    rw [count]
                    split at allowed
                    · rename_i delimiter
                      rw [if_pos delimiter]
                      exact allowed
                    · rename_i other
                      rw [if_neg other]
                      exact allowed.2
          · by_cases iac : ch = TELNET_IAC
            · subst iac
              rw [if_neg (by decide), if_pos rfl] at allowed
              have next : getc t (dispatch willSga) =
                  getc { t with input, place := .iac } fun c t => command willSga c.ch t := by
                rw [getc, read]
                simp only [tidy.place]
                rfl
              rw [next]
              cases behind : input with
              | nil => exact .inl rfl
              | cons got rest =>
                  rw [behind] at allowed
                  cases got with
                  | none => exact allowed.elim
                  | some ch =>
                      obtain ⟨notSub, lives, present⟩ := allowed
                      by_cases option : ch = TELNET_WILL ∨ ch = TELNET_WONT ∨ ch = TELNET_DO ∨ ch = TELNET_DONT
                      · have taken : getc { t with input := some ch :: rest, place := .iac }
                            (fun c t => command willSga c.ch t) =
                            command willSga ch { t with input := rest, place := .option } := by
                          simp only [getc, Place.next, option, if_true]
                        rw [taken]
                        exact option_tidy (t := { t with input := rest, place := .option })
                          ⟨tidy.phw, tidy.isem, tidy.clean, rfl, tidy.fits⟩ willSga option rfl (present option)
                      · have taken : getc { t with input := some ch :: rest, place := .iac }
                            (fun c t => command willSga c.ch t) =
                            command willSga ch { t with input := rest, place := .text } := by
                          simp only [getc, Place.next, option, notSub, if_false]
                        rw [taken]
                        obtain ⟨t', next', tidy'⟩ := command_tidy (t := { t with input := rest, place := .text })
                          ⟨tidy.phw, tidy.isem, tidy.clean, rfl, tidy.fits⟩ willSga option lives
                        exact .inr ⟨t', willSga, next', tidy'⟩
            · obtain ⟨taken, tidy'⟩ := getc_text tidy read iac (dispatch willSga)
              obtain ⟨t', next, tidy''⟩ := dispatch_text willSga tidy' room cr iac
              exact .inr ⟨t', willSga, taken.trans next, tidy''⟩

def Results (returned : List Result) : Prop := ∀ chars, .data chars ∈ returned → ∀ c ∈ chars, c.command = false

/-- The device is open, the buffer is not overfull, no byte of a command has been delivered or is in the buffer, and
the lock is held exactly by a thread in the input loop. -/
structure Sound (r : Reader) : Prop where
  phw : r.telnet.phw
  clean : ∀ i, (r.telnet.buffer i).command = false
  place : r.telnet.place = .text
  fits : r.telnet.icount ≤ TELNET_IBLEN
  lock : match r.phase with
    | .idle => r.telnet.isem = 1
    | .filling _ _ => r.telnet.isem = 0
    | .waiting => False
  returned : Results r.returned

theorem drain_spec (n : Nat) {t : Telnet} (clean : ∀ i, (t.buffer i).command = false) :
    (∀ c ∈ (drain n t).1, c.command = false) ∧ (drain n t).2.phw = t.phw ∧ (drain n t).2.buffer = t.buffer ∧
      (drain n t).2.place = t.place ∧ (drain n t).2.isem = t.isem ∧ (drain n t).2.icount ≤ t.icount := by
  induction n generalizing t with
  | zero => exact ⟨nofun, rfl, rfl, rfl, rfl, Nat.le_refl _⟩
  | succ n ih =>
      rw [drain]
      split
      · obtain ⟨chars, phw, buffer, place, isem, icount⟩ :=
          @ih { t with icount := t.icount - 1, istart := (t.istart + 1) % TELNET_IBLEN } clean
        refine ⟨fun c member => ?_, phw, buffer, place, isem, Nat.le_trans icount (Nat.sub_le _ _)⟩
        rcases List.mem_cons.mp member with rfl | member
        · exact clean _
        · exact chars c member
      · exact ⟨nofun, rfl, rfl, rfl, rfl, Nat.le_refl _⟩

theorem deliver_sound {t : Telnet} {returned : List Result} (tidy : Tidy t) (before : Results returned) (len : Nat) :
    Sound (deliver len t returned) := by
  obtain ⟨chars, phw, buffer, place, isem, icount⟩ := @drain_spec len { t with isem := t.isem + 1 } tidy.clean
  have unlocked : (drain len { t with isem := t.isem + 1 }).2.isem = 1 := by
    rw [isem, tidy.isem]
  have results : Results (returned ++ [.data (drain len { t with isem := t.isem + 1 }).1]) := by
    intro got member
    rcases List.mem_append.mp member with member | member
    · exact before got member
    · cases List.mem_singleton.mp member
      exact chars
  have fits : (drain len { t with isem := t.isem + 1 }).2.icount ≤ TELNET_IBLEN := Nat.le_trans icount tidy.fits
  have clean : ∀ i, ((drain len { t with isem := t.isem + 1 }).2.buffer i).command = false := by
    rw [buffer]
    exact tidy.clean
  unfold deliver
  simp only
  split
  · exact ⟨phw.trans tidy.phw, clean, place.trans tidy.place, fits, unlocked, results⟩
  · exact ⟨phw.trans tidy.phw, clean, place.trans tidy.place, fits, unlocked, results⟩

theorem Results.other {returned : List Result} (before : Results returned) {result : Result}
    (other : ∀ chars, result ≠ .data chars) : Results (returned ++ [result]) := by
  intro chars member
  rcases List.mem_append.mp member with member | member
  · exact before chars member
  · exact absurd (List.mem_singleton.mp member).symm (other chars)

theorem start_sound {r : Reader} (sound : Sound r) (idle : r.phase = .idle) (len : Nat) :
    Sound (start len r.telnet r.returned) := by
  have lock := sound.lock
  rw [idle] at lock
  have free : r.telnet.isem ≠ 0 := by
    rw [lock]
    decide
  unfold start
  rw [if_neg (not_not.mpr sound.phw)]
  by_cases ended : r.telnet.ieof
  · rw [if_pos ended]
    exact ⟨sound.phw, sound.clean, sound.place, sound.fits, lock, sound.returned.other nofun⟩
  · rw [if_neg ended, if_neg free]
    have unlocked : r.telnet.isem - 1 = 0 := by rw [lock]
    split
    · exact ⟨sound.phw, sound.clean, sound.place, sound.fits, unlocked, sound.returned⟩
    · have tidy : Tidy { r.telnet with isem := r.telnet.isem - 1 } :=
        ⟨sound.phw, unlocked, sound.clean, sound.place, sound.fits⟩
      exact deliver_sound tidy sound.returned len

def ok (r : Reader) (action : Action) : Prop := action = .receive → Allowed r.telnet

instance (r : Reader) (action : Action) : Decidable (ok r action) :=
  inferInstanceAs (Decidable (action = .receive → Allows r.telnet.icount r.telnet.shell r.telnet.input))

theorem step_sound {r r' : Reader} {action : Action} (sound : Sound r) (allowed : ok r action)
    (taken : step action r = some r') : Sound r' := by
  obtain ⟨t, phase, returned⟩ := r
  have lock := sound.lock
  cases phase with
  | idle =>
      cases action with
      | call len =>
          cases Option.some.inj taken
          exact start_sound sound rfl len
      | receive | finish => exact nomatch taken
  | waiting => exact lock.elim
  | filling len willSga =>
      have tidy : Tidy t := ⟨sound.phw, lock, sound.clean, sound.place, sound.fits⟩
      by_cases more : t.icount < TELNET_IBLEN ∧ ¬ t.idelim
      · cases action with
        | call => exact nomatch taken
        | finish =>
            simp only [step, more] at taken
            exact nomatch taken
        | receive =>
            simp only [step, more] at taken
            rcases receive_tidy willSga tidy more.1 (allowed rfl) with blocked | ⟨t', willSga', next, tidy'⟩
            · rw [blocked] at taken
              exact nomatch taken
            · rw [next] at taken
              cases Option.some.inj taken
              exact ⟨tidy'.phw, tidy'.clean, tidy'.place, tidy'.fits, tidy'.isem, sound.returned⟩
      · cases action with
        | call => exact nomatch taken
        | receive =>
            simp only [step, more, if_false] at taken
            exact nomatch taken
        | finish =>
            simp only [step, more, if_false] at taken
            cases Option.some.inj taken
            exact deliver_sound tidy sound.returned len

theorem opened_sound (shell : Bool) (input : List (Option Byte)) : Sound (opened shell input) :=
  ⟨rfl, fun _ => rfl, rfl, Nat.zero_le _, rfl, nofun⟩

/-- In a run in which no `getc` of the input loop fails, no carriage return lacks room or is followed by `IAC`, and
the peer neither interrupts a thread nor starts a subnegotiation, the input buffer never overflows, no byte of a command
is delivered, and the lock is free whenever no call is in its input loop. -/
theorem telnetRead_sound {shell : Bool} {input : List (Option Byte)} {r : Reader}
    (reach : Reach step ok (opened shell input) r) :
    r.telnet.icount ≤ TELNET_IBLEN ∧ Results r.returned ∧ r.phase ≠ .waiting ∧ (r.phase = .idle → r.telnet.isem = 1) := by
  have sound : Sound r := reach.invariant (opened_sound shell input) fun _ _ _ => step_sound
  have lock := sound.lock
  refine ⟨sound.fits, sound.returned, fun waiting => ?_, fun idle => ?_⟩
  · rw [waiting] at lock
    exact lock
  · rw [idle] at lock
    exact lock

theorem telnetRead_sound_line :
    ∃ r : Reader, r.returned = [.data [⟨104, false⟩, ⟨13, false⟩, ⟨10, false⟩]] ∧ r.telnet.icount ≤ TELNET_IBLEN ∧
      r.phase ≠ .waiting ∧ (r.phase = .idle → r.telnet.isem = 1) := by
  -- a character, a command with an option, and a line end
  let input : List (Option Byte) := [some 104, some 255, some 253, some 1, some 13, some 10]
  let actions : List Action := [.call 10, .receive, .receive, .receive, .finish]
  have runs : ∃ r, Lib.run step (fun r action => decide (ok r action)) actions (opened false input) = some r ∧ r.returned = [.data [⟨104, false⟩, ⟨13, false⟩, ⟨10, false⟩]] := by
    rw [← Option.map_eq_some_iff (f := Reader.returned)]
    decide +kernel
  obtain ⟨r, run, returned⟩ := runs
  have reach : Reach step ok (opened false input) r :=
    Reach.run (fun r action allowed => of_decide_eq_true allowed) .init run
  have sound := telnetRead_sound reach
  exact ⟨r, returned, sound.1, sound.2.2.1, sound.2.2.2⟩

def anyway : Reader → Action → Bool := fun _ _ => true

theorem telnetRead_unsound :
    (Lib.run step anyway [.call 10, .receive, .call 10] (opened false [none])).map (fun r => (r.phase, r.returned)) =
        some (.waiting, [.error]) ∧
      (Lib.run step anyway (.call 80 :: List.replicate 80 .receive)
        (opened false (List.replicate 79 (some 97) ++ [some 13, some 0]))).map (fun r => r.telnet.icount) = some 81 ∧
      (Lib.run step anyway [.call 10, .receive, .receive, .receive, .receive, .finish]
        (opened false [some 255, some 250, some 65, some 255, some 240, some 10])).map Reader.returned =
        some [.data [⟨65, true⟩, ⟨10, false⟩]] := by
  refine ⟨?_, ?_, ?_⟩
  · decide +kernel
  · decide +kernel
  · decide +kernel

end Xinu.Telnet
