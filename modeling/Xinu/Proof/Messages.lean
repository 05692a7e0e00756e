import Xinu.Proof.Kernel.Boot

namespace Xinu

def Call.receives : Call → Bool
  | .receive | .recvclr | .recvtime _ => true
  | _ => false

def Call.answers : Call → Int → Bool
  | .receive, _ | .recvclr, _ => false
  | .recvtime n, v => v = SYSERR && n < 0
  | _, _ => true

inductive Stage
  | outside
  | calling (call : Call)
  -- `recvclr` has found no message
  | cleared
  | consumed (msg : Int)
  | gaveUp
  deriving DecidableEq

structure Mailbox where
  slot : Option Int
  stage : Stage

def Event.about (t : Int) : Event → Bool
  | .created u | .sent u _ | .received u _ | .timedout u | .call u _ | .ret u _ => u = t
  | _ => false

namespace Mailbox

def next (box : Mailbox) : Event → Option Mailbox
  | .created _ => some ⟨none, .outside⟩
  | .sent _ m => if box.slot = none then some { box with slot := some m } else none
  | .call _ call =>
      if box.stage = .outside then
        some { box with stage := if call = .recvclr ∧ box.slot = none then .cleared else .calling call }
      else none
  | .received _ m =>
      match box.stage with
      | .calling call =>
          if box.slot = some m ∧ call.receives then some ⟨none, .consumed m⟩ else none
      | _ => none
  | .timedout _ =>
      match box.stage with
      | .calling (.recvtime _) => if box.slot = none then some ⟨none, .gaveUp⟩ else none
      | _ => none
  | .ret _ v =>
      match box.stage with
      | .calling call => if call.answers v then some { box with stage := .outside } else none
      | .cleared => if v = NOMSG then some { box with stage := .outside } else none
      | .consumed m => if v = m then some { box with stage := .outside } else none
      | .gaveUp => if v = TIMEOUT then some { box with stage := .outside } else none
      | .outside => none
  | _ => some box

end Mailbox

/-- The mailbox of `t` after the events of the log, or `none` if they are not those of a mailbox. -/
def mailbox (t : Int) : List Event → Option Mailbox
  | [] => some ⟨none, .outside⟩
  | e :: log => if e.about t then (mailbox t log).bind (·.next e) else mailbox t log

def sentTo (t : Int) : List Event → List Int
  | [] => []
  | .created u :: log => if u = t then [] else sentTo t log
  | .sent u m :: log => if u = t then m :: sentTo t log else sentTo t log
  | _ :: log => sentTo t log

def receivedBy (t : Int) : List Event → List Int
  | [] => []
  | .created u :: log => if u = t then [] else receivedBy t log
  | .received u m :: log => if u = t then m :: receivedBy t log else receivedBy t log
  | _ :: log => receivedBy t log

theorem mailbox_skip {t : Int} {e : Event} {log : List Event} (other : e.about t = false) :
    mailbox t (e :: log) = mailbox t log := by
  simp [mailbox, other]

theorem mailbox_cons {t : Int} {e : Event} {log : List Event} {box : Mailbox}
    (about : e.about t = true) (before : mailbox t log = some box) :
    mailbox t (e :: log) = box.next e := by
  simp [mailbox, about, before]

theorem mailbox_sentTo {t : Int} {log : List Event} {box : Mailbox}
    (history : mailbox t log = some box) :
    sentTo t log = box.slot.toList ++ receivedBy t log := by
  induction log generalizing box with
  | nil =>
      cases history
      rfl
  | cons e log ih =>
      cases about : e.about t with
      | false =>
          rw [mailbox_skip about] at history
          have before := ih history
          cases e <;> simp_all [Event.about, sentTo, receivedBy]
      | true =>
          simp only [mailbox, about, if_true] at history
          obtain ⟨old, before, step⟩ := Option.bind_eq_some_iff.mp history
          have accounted := ih before
          cases e with
          | created u =>
              cases step
              simp_all [Event.about, sentTo, receivedBy]
          | sent u m =>
              simp only [Mailbox.next, Option.ite_none_right_eq_some, Option.some.injEq] at step
              obtain ⟨empty, rfl⟩ := step
              simp_all [Event.about, sentTo, receivedBy]
          | received u m =>
              simp only [Mailbox.next] at step
              split at step
              · simp only [Option.ite_none_right_eq_some, Option.some.injEq] at step
                obtain ⟨⟨full, -⟩, rfl⟩ := step
                simp_all [Event.about, sentTo, receivedBy]
              · cases step
          | timedout u =>
              simp only [Mailbox.next] at step
              split at step
              · simp only [Option.ite_none_right_eq_some, Option.some.injEq] at step
                obtain ⟨empty, rfl⟩ := step
                simp_all [Event.about, sentTo, receivedBy]
              · cases step
          | call u call =>
              simp only [Mailbox.next, Option.ite_none_right_eq_some, Option.some.injEq] at step
              obtain ⟨-, rfl⟩ := step
              simp_all [Event.about, sentTo, receivedBy]
          | ret u v =>
              have same : box.slot = old.slot := by
                simp only [Mailbox.next] at step
                split at step <;>
                  simp only [Option.ite_none_right_eq_some, Option.some.injEq, reduceCtorEq] at step
                all_goals
                  obtain ⟨-, rfl⟩ := step
                  rfl
              rw [same]
              simpa [sentTo, receivedBy] using accounted
          | _ => cases about

namespace Kernel
open Lib
variable {c : Config}

/-- The message that a thread has been sent and has not taken yet. -/
def slot {Q : Type} (k : Kernel c Q) (t : Int) : Option Int :=
  if (k.thrtab t).hasmsg then some (k.thrtab t).msg else none

theorem slot_congr {Q : Type} {k k' : Kernel c Q} {t : Int}
    (flag : (k'.thrtab t).hasmsg = (k.thrtab t).hasmsg) (msg : (k'.thrtab t).msg = (k.thrtab t).msg) :
    k'.slot t = k.slot t := by
  rw [slot, slot, flag, msg]

theorem slot_eq_none {Q : Type} {k : Kernel c Q} {t : Int} :
    k.slot t = none ↔ (k.thrtab t).hasmsg = false := by
  simp [slot]

theorem slot_eq_some {Q : Type} {k : Kernel c Q} {t : Int} (full : (k.thrtab t).hasmsg = true) :
    k.slot t = some (k.thrtab t).msg := by
  simp [slot, full]

def Fits (fs : List Frame) : Stage → Prop
  | .outside => fs = []
  | .consumed m => fs = [.ret m]
  | .gaveUp => fs = [.ret TIMEOUT]
  | .calling .receive => fs = [.receive]
  | .cleared => fs = [.ret NOMSG]
  | .calling .recvclr => False
  | .calling (.recvtime n) => fs = [.recvtime] ∨ fs = [.ret SYSERR] ∧ n < 0
  | .calling _ => fs ≠ [] ∧ ∀ f ∈ fs, f ≠ .receive ∧ f ≠ .recvtime

inductive Called (box : Mailbox) (call : Call) : Prop
  | calling (stage : box.stage = .calling call) (full : call = .recvclr → box.slot ≠ none)
  | cleared (clears : call = .recvclr) (stage : box.stage = .cleared) (empty : box.slot = none)
  | consumed (receives : call.receives = true) (m : Int) (stage : box.stage = .consumed m)

theorem Called.plain {box : Mailbox} {call : Call} (called : Called box call) (other : call.receives = false) :
    box.stage = .calling call := by
  cases called with
  | calling stage => exact stage
  | cleared clears =>
      rw [clears] at other
      cases other
  | consumed receives =>
      rw [receives] at other
      cases other

structure Posted (x : Act) (b a : Kernel c Lists) (t : Int) (box : Mailbox) : Prop where
  history : mailbox t a.log = some box
  slot : box.slot = a.slot t
  stack : (a.thrtab t).state ≠ .free → Fits (a.stack t) box.stage ∨
    a.stack t = [] ∧ t = b.thrcurrent ∧ ∃ call, x = .call call ∧
      (box.stage = .calling call ∨ call = .recvclr ∧ box.stage = .cleared)
  heard : .receive ∈ a.stack t → (a.thrtab t).state = .recv ∨ (a.thrtab t).state = .free ∨
    (a.thrtab t).hasmsg = true
  caller : ∀ call, x = .call call → t = b.thrcurrent → (a.thrtab t).state ≠ .free ∧
    Called box call

def Mail (x : Act) (b a : Kernel c Lists) : Prop := ∀ t, ∃ box, Posted x b a t box

section
variable {x : Act} {b a a' : Kernel c Lists} {t u : Int} {box : Mailbox} {call : Call}
  {f : Frame} {fs : List Frame}

theorem fits_calling (other : call.receives = false) :
    Fits fs (.calling call) ↔ fs ≠ [] ∧ ∀ f ∈ fs, f ≠ .receive ∧ f ≠ .recvtime := by
  cases call <;> first | rfl | cases other

theorem Fits.other (fits : Fits (f :: fs) box.stage) (real : f ≠ .receive ∧ f ≠ .recvtime)
    (more : f.isRet = false ∨ fs ≠ []) :
    ∃ call, box.stage = .calling call ∧ call.receives = false := by
  cases stage : box.stage with
  | outside => simp [stage, Fits] at fits
  | cleared => simp_all [Fits, Frame.isRet]
  | consumed m => simp_all [Fits, Frame.isRet]
  | gaveUp => simp_all [Fits, Frame.isRet]
  | calling call =>
      refine ⟨call, rfl, ?_⟩
      cases call <;> first | rfl | simp_all [Fits, Frame.isRet]

theorem Fits.waits (fits : Fits (f :: fs) box.stage) (wait : f = .receive ∨ f = .recvtime) :
    fs = [] ∧ ∃ call, box.stage = .calling call ∧ call.receives = true := by
  cases stage : box.stage with
  | calling call =>
      rcases wait with rfl | rfl <;> cases call <;> simp_all [Fits, Call.receives]
  | _ => rcases wait with rfl | rfl <;> simp_all [Fits]

namespace Posted

theorem keep (h : Posted x b a t box) (log : mailbox t a'.log = mailbox t a.log)
    (flag : (a'.thrtab t).hasmsg = (a.thrtab t).hasmsg)
    (msg : (a'.thrtab t).msg = (a.thrtab t).msg) (stack : a'.stack t = a.stack t)
    (state : (a'.thrtab t).state = (a.thrtab t).state ∨
      (a'.thrtab t).state ≠ .free ∧ (a.thrtab t).state ≠ .free ∧
        ((a.thrtab t).state ≠ .recv ∨ (a.thrtab t).hasmsg = true) ∨
      (a'.thrtab t).state = .free ∧ x = .cont) : Posted x b a' t box := by
  refine ⟨log.trans h.history, h.slot.trans (slot_congr flag msg).symm, ?_, ?_, ?_⟩
  · intro live
    rw [stack]
    refine h.stack ?_
    rcases state with same | ⟨-, before, -⟩ | ⟨gone, -⟩
    · rwa [← same]
    · exact before
    · exact absurd gone live
  · intro member
    rw [stack] at member
    rcases state with same | ⟨-, live, awake⟩ | ⟨gone, -⟩
    · rw [same, flag]
      exact h.heard member
    · rw [flag]
      have := h.heard member
      tauto
    · exact .inr (.inl gone)
  · intro call act here
    obtain ⟨live, stage⟩ := h.caller call act here
    refine ⟨?_, stage⟩
    rcases state with same | ⟨after, -⟩ | ⟨-, cont⟩
    · rwa [same]
    · exact after
    · rw [cont] at act
      cases act

theorem push (h : Posted x b a t box) (calling : Calling x b a call)
    (other : call.receives = false) (real : f ≠ .receive ∧ f ≠ .recvtime) :
    Posted x b (a.push f) t box := by
  by_cases here : t = a.thrcurrent
  · subst here
    obtain ⟨live, called⟩ := h.caller call calling.act calling.here
    have stage := called.plain other
    have clean : ∀ g ∈ a.stack a.thrcurrent, g ≠ .receive ∧ g ≠ .recvtime := by
      rcases h.stack live with fits | ⟨empty, -⟩
      · rw [stage, fits_calling other] at fits
        exact fits.2
      · simp [empty]
    refine ⟨h.history, h.slot, ?_, ?_, h.caller⟩
    · intro _
      rw [stage, fits_calling other]
      refine .inl ⟨by simp, ?_⟩
      simpa [real] using clean
    · intro member
      simp only [push_frame, Function.update_self, List.mem_cons] at member
      rcases member with eq | member
      · exact absurd eq.symm real.1
      · exact absurd rfl (clean _ member).1
  · exact h.keep rfl rfl rfl (by simp [here]) (.inl rfl)

theorem fits (h : Posted x b a t box) (live : (a.thrtab t).state ≠ .free)
    (stack : a.stack t = f :: fs) : Fits (f :: fs) box.stage := by
  rcases h.stack live with fits | ⟨empty, -⟩
  · rwa [stack] at fits
  · rw [stack] at empty
    cases empty

theorem begun (h : Posted x b a a.thrcurrent box) (calling : Calling x b a call) (empty : a.stack a.thrcurrent = []) :
    box.stage = .calling call ∧ (call = .recvclr → box.slot ≠ none) ∨ call = .recvclr ∧ box.stage = .cleared ∧ box.slot = none := by
  obtain ⟨live, called⟩ := h.caller call calling.act calling.here
  cases called with
  | calling stage full => exact .inl ⟨stage, full⟩
  | cleared clears stage none => exact .inr ⟨clears, stage, none⟩
  | consumed _ m stage =>
      rcases h.stack live with fits | ⟨-, -, call', -, stage' | ⟨-, stage'⟩⟩
      · rw [empty, stage] at fits
        cases fits
      · rw [stage] at stage'
        cases stage'
      · rw [stage] at stage'
        cases stage'

theorem swap (h : Posted x b a t box) (live : (a.thrtab a.thrcurrent).state ≠ .free)
    (stack : a.stack a.thrcurrent = f :: fs)
    (real : f ≠ .receive ∧ f ≠ .recvtime) (more : f.isRet = false ∨ fs ≠ []) {gs : List Frame}
    (some : gs ≠ []) (from_ : ∀ g ∈ gs, g.isRet = true ∨ g ∈ fs) :
    Posted x b (a.setStack a.thrcurrent gs) t box := by
  by_cases here : t = a.thrcurrent
  · subst here
    have fits := h.fits live stack
    obtain ⟨call, stage, other⟩ := fits.other real more
    rw [stage, fits_calling other] at fits
    have clean : ∀ g ∈ gs, g ≠ .receive ∧ g ≠ .recvtime := by
      intro g member
      rcases from_ g member with isRet | old
      · constructor <;> rintro rfl <;> cases isRet
      · exact fits.2 g (List.mem_cons_of_mem f old)
    refine ⟨h.history, h.slot, ?_, ?_, h.caller⟩
    · intro _
      rw [stage, fits_calling other]
      exact .inl ⟨by simpa using some, by simpa using clean⟩
    · intro member
      exact absurd rfl (clean .receive (by simpa using member)).1
  · exact h.keep rfl rfl rfl (by simp [here]) (.inl rfl)

theorem deposit (h : Posted x b a t box) (m : Int) (empty : (a.thrtab u).hasmsg = false) (other : x ≠ .call .recvclr) :
    ∃ box', Posted x b (a.deposit u m) t box' := by
  by_cases this : t = u
  · subst this
    have free : box.slot = none := h.slot.trans (slot_eq_none.mpr empty)
    refine ⟨{ box with slot := some m }, ?_, ?_, ?_, ?_, ?_⟩
    · refine (mailbox_cons (e := .sent t m) (by simp [Event.about]) h.history).trans ?_
      simp [Mailbox.next, free]
    · simp [Kernel.slot]
    · simpa using h.stack
    · simp
    · intro call act here
      obtain ⟨live, called⟩ := h.caller call act here
      refine ⟨by simpa using live, ?_⟩
      cases called with
      | calling stage => exact .calling stage (by simp)
      | cleared clears =>
          rw [act, clears] at other
          exact absurd rfl other
      | consumed receives m stage => exact .consumed receives m stage
  · exact ⟨box, h.keep (by simp [mailbox, Event.about, Ne.symm this]) (by simp [this])
      (by simp [this]) (by simp) (by simp [this])⟩

end Posted

namespace Mail

theorem like (mail : Mail x b a) (state : ∀ t, (a'.thrtab t).state = (a.thrtab t).state)
    (msg : ∀ t, (a'.thrtab t).hasmsg = (a.thrtab t).hasmsg ∧ (a'.thrtab t).msg = (a.thrtab t).msg)
    (stack : a'.stack = a.stack) (log : ∀ t, mailbox t a'.log = mailbox t a.log) : Mail x b a' := by
  intro t
  obtain ⟨box, h⟩ := mail t
  exact ⟨box, h.keep (log t) (msg t).1 (msg t).2 (by rw [stack]) (.inl (state t))⟩

theorem emit (mail : Mail x b a) {e : Event} (other : ∀ t, e.about t = false) :
    Mail x b (a.emit e) :=
  mail.like (by simp) (by simp) rfl fun t => mailbox_skip (other t)

theorem setState (mail : Mail x b a) {s : ThrState} (state : s ≠ .free ∧
    (a.thrtab u).state ≠ .free ∧ ((a.thrtab u).state ≠ .recv ∨ (a.thrtab u).hasmsg = true) ∨
      s = .free ∧ x = .cont) : Mail x b (a.setState u s) := by
  intro t
  obtain ⟨box, h⟩ := mail t
  refine ⟨box, ?_⟩
  by_cases this : t = u
  · subst this
    exact h.keep rfl (by simp) (by simp) rfl (.inr (by simpa using state))
  · exact h.keep rfl (by simp [this]) (by simp [this]) rfl (by simp [this])

theorem push (mail : Mail x b a) (calling : Calling x b a call) (other : call.receives = false)
    (real : f ≠ .receive ∧ f ≠ .recvtime) : Mail x b (a.push f) := by
  intro t
  obtain ⟨box, h⟩ := mail t
  exact ⟨box, h.push calling other real⟩

theorem makeReady (mail : Mail x b a) (live : (a.thrtab u).state ≠ .free)
    (got : (a.thrtab u).state ≠ .recv ∨ (a.thrtab u).hasmsg = true) : Mail x b (a.makeReady u) := by
  have ready : Mail x b (a.setState u .ready) := mail.setState (.inl ⟨by simp, live, got⟩)
  exact ready.like (by simp) (by simp) (by simp) fun t => by simp [mailbox, Event.about]

theorem switch (mail : Mail x b a) (blocked : a.Blocked) : Mail x b a.switch := by
  obtain ⟨u, rest, -, ready, taken⟩ := blocked.head
  have chosen : Mail x b (a.setState u .curr) :=
    mail.setState (.inl ⟨by simp, by simp [ready], by simp [ready]⟩)
  exact chosen.like (by simp [taken]) (by simp [taken]) (by simp) fun t => by simp [mailbox, Event.about]

theorem take (mail : Mail x b a) (full : (a.thrtab a.thrcurrent).hasmsg = true)
    (stage : ∀ box, Posted x b a a.thrcurrent box →
      ∃ call, box.stage = .calling call ∧ call.receives = true) :
    Mail x b (a.setStack a.thrcurrent []).takeMessage := by
  intro t
  obtain ⟨box, h⟩ := mail t
  by_cases here : t = a.thrcurrent
  · subst here
    obtain ⟨call, calling, receives⟩ := stage box h
    have slot : box.slot = some (a.thrtab a.thrcurrent).msg := h.slot.trans (slot_eq_some full)
    refine ⟨⟨none, .consumed (a.thrtab a.thrcurrent).msg⟩, ?_, ?_, ?_, ?_, ?_⟩
    · refine (mailbox_cons (e := .received a.thrcurrent (a.thrtab a.thrcurrent).msg)
        (by simp [Event.about]) h.history).trans ?_
      simp [Mailbox.next, calling, slot, receives]
    · simp [takeMessage, Kernel.slot]
    · simp [takeMessage, Fits]
    · simp [takeMessage]
    · intro call' act this
      obtain ⟨live, called⟩ := h.caller call' act this
      refine ⟨by simpa [takeMessage] using live, ?_⟩
      cases called with
      | calling before =>
          rw [calling, Stage.calling.injEq] at before
          exact .consumed (before ▸ receives) _ rfl
      | cleared clears =>
          rw [clears]
          exact .consumed rfl _ rfl
      | consumed receives' => exact .consumed receives' _ rfl
  · refine ⟨box, h.keep ?_ ?_ ?_ ?_ ?_⟩
    · simp [takeMessage, mailbox, Event.about, Ne.symm here]
    all_goals simp [takeMessage, here]

theorem finish {v : Int} (mail : Mail .cont b b) (inv : b.Inv)
    (stack : b.stack b.thrcurrent = [.ret v]) :
    Mail .cont b ((b.setStack b.thrcurrent []).emit (.ret b.thrcurrent v)) := by
  intro t
  obtain ⟨box, h⟩ := mail t
  by_cases here : t = b.thrcurrent
  · subst here
    have fits := h.fits (by simp [inv.running]) stack
    have done : box.next (.ret b.thrcurrent v) = some { box with stage := .outside } := by
      simp only [Mailbox.next]
      cases stage : box.stage with
      | outside => simp [stage, Fits] at fits
      | consumed m =>
          simp only [stage, Fits, List.cons.injEq, Frame.ret.injEq, and_true] at fits
          simp [fits]
      | cleared =>
          simp only [stage, Fits, List.cons.injEq, Frame.ret.injEq, and_true] at fits
          simp [fits]
      | gaveUp =>
          simp only [stage, Fits, List.cons.injEq, Frame.ret.injEq, and_true] at fits
          simp [fits]
      | calling call =>
          rw [stage] at fits
          have answers : call.answers v = true := by
            cases call <;> simp_all [Fits, Call.answers]
          simp [answers]
    refine ⟨{ box with stage := .outside }, ?_, ?_, ?_, ?_, ?_⟩
    · exact (mailbox_cons (by simp [Event.about]) h.history).trans done
    · exact h.slot
    · simp [Fits]
    · simp
    · simp
  · refine ⟨box, h.keep ?_ rfl rfl (by simp [here]) (.inl rfl)⟩
    simp [mailbox, Event.about, Ne.symm here]

theorem giveUp (mail : Mail .cont b b) (inv : b.Inv)
    (stack : b.stack b.thrcurrent = .recvtime :: fs)
    (empty : (b.thrtab b.thrcurrent).hasmsg = false) :
    Mail .cont b (((b.setStack b.thrcurrent fs).emit (.timedout b.thrcurrent)).ret TIMEOUT) := by
  intro t
  obtain ⟨box, h⟩ := mail t
  by_cases here : t = b.thrcurrent
  · subst here
    have fits := h.fits (by simp [inv.running]) stack
    obtain ⟨n, stage⟩ : ∃ n, box.stage = .calling (.recvtime n) := by
      cases stage : box.stage with
      | calling call => cases call <;> simp_all [Fits]
      | _ => simp_all [Fits]
    have only : fs = [] := by simpa [stage, Fits] using fits
    refine ⟨⟨none, .gaveUp⟩, ?_, ?_, ?_, ?_, ?_⟩
    · refine (mailbox_cons (e := .timedout b.thrcurrent) (by simp [Event.about]) h.history).trans ?_
      simp [Mailbox.next, stage, h.slot, slot_eq_none.mpr empty]
    · exact (slot_eq_none.mpr empty).symm
    · simp [Fits, only]
    · simp [only]
    · simp
  · refine ⟨box, h.keep ?_ rfl rfl (by simp [here]) (.inl rfl)⟩
    simp [mailbox, Event.about, Ne.symm here]

theorem create {e : Thrent} (mail : Mail x b a) (free : (a.thrtab u).state = .free) (clear : e.hasmsg = false) :
    Mail x b (((a.setThr u e).setStack u []).emit (.created u)) := by
  intro t
  obtain ⟨box, h⟩ := mail t
  by_cases this : t = u
  · subst this
    refine ⟨⟨none, .outside⟩, ?_, ?_, ?_, ?_, ?_⟩
    · exact mailbox_cons (e := .created t) (by simp [Event.about]) h.history
    · simp [Kernel.slot, clear]
    · simp [Fits]
    · simp
    · intro call act here
      exact absurd free (h.caller call act here).1
  · refine ⟨box, h.keep ?_ ?_ ?_ ?_ ?_⟩
    · simp [mailbox, Event.about, Ne.symm this]
    all_goals simp [this]

theorem deposit (mail : Mail x b a) (m : Int) (empty : (a.thrtab u).hasmsg = false) (other : x ≠ .call .recvclr) :
    Mail x b (a.deposit u m) := by
  intro t
  obtain ⟨box, h⟩ := mail t
  exact h.deposit m empty other

theorem send {m : Int} (mail : Mail x b a) (calling : Calling x b a call)
    (kind : (∃ v, call = .kill v) ∨ call = .send u m) (empty : (a.thrtab u).hasmsg = false) :
    Mail x b ((a.deposit u m).ret OK) := by
  have other : call.receives = false := by rcases kind with ⟨v, rfl⟩ | rfl <;> rfl
  have sends : x ≠ .call .recvclr := by
    rintro rfl
    cases calling.act
    cases other
  exact (mail.deposit m empty sends).push ⟨calling.act, calling.here⟩ other (by simp)

theorem ret {v : Int} (mail : Mail x b a) (calling : Calling x b a call)
    (answers : Answers a v call) : Mail x b (a.ret v) := by
  cases kind : call.receives with
  | false => exact mail.push calling kind (by simp)
  | true =>
      -- `recvclr` finds no message, or `recvtime` a negative bound
      intro t
      obtain ⟨box, h⟩ := mail t
      refine ⟨box, ?_⟩
      by_cases here : t = a.thrcurrent
      · subst here
        have empty : a.stack a.thrcurrent = [] := by
          cases call <;> simp_all [Answers, Call.receives]
        refine ⟨h.history, h.slot, ?_, by simp [empty], h.caller⟩
        intro _
        rcases h.begun calling empty with ⟨stage, full⟩ | ⟨rfl, stage, -⟩
        · rw [stage]
          cases call <;> simp_all [Answers, Call.receives, Fits, h.slot, slot_eq_none]
        · rw [stage]
          simp [Fits, empty, answers.1]
      · exact h.keep rfl rfl rfl (by simp [here]) (.inl rfl)

theorem flush {s : Nat} {ts : List Int} (mail : Mail x b a) (inv : a.Inv) (bound : s < c.nsem)
    (ids : a.quetab.ids (a.semtab s).queue = ts) : Mail x b (a.flush ts) := by
  induction ts generalizing a with
  | nil => exact mail
  | cons u ts ih =>
      have member : u ∈ a.quetab.ids (a.semtab s).queue := by simp [ids]
      obtain ⟨waits, -⟩ := inv.layout.of_sem bound (inv.home_of_mem member)
      obtain ⟨inv₁, left⟩ := inv.flushOne bound ids
      have off : Mail x b (a.getitem u) := mail.like (by simp) (by simp) rfl fun _ => rfl
      have ready := off.makeReady (u := u) (by simp [waits]) (by simp [waits])
      exact ih ready inv₁ (by simpa using left)

theorem listen {st : ThrState} (mail : Mail x b a) (calling : Calling x b a call)
    (kind : call = .receive ∧ f = .receive ∧ st = .recv ∨
      (∃ n, call = .recvtime n) ∧ f = .recvtime ∧ st = .tmout)
    (empty : a.stack a.thrcurrent = []) : Mail x b ((a.setState a.thrcurrent st).push f) := by
  intro t
  obtain ⟨box, h⟩ := mail t
  refine ⟨box, ?_⟩
  by_cases here : t = a.thrcurrent
  · subst here
    have stage : box.stage = .calling call := by
      rcases h.begun calling empty with ⟨stage, -⟩ | ⟨rfl, -⟩
      · exact stage
      · simp at kind
    refine ⟨h.history, ?_, ?_, ?_, ?_⟩
    · exact h.slot.trans (slot_congr (by simp) (by simp)).symm
    · intro _
      rcases kind with ⟨rfl, rfl, -⟩ | ⟨⟨n, rfl⟩, rfl, -⟩ <;> simp [stage, empty, Fits]
    · intro member
      rcases kind with ⟨-, -, rfl⟩ | ⟨-, rfl, -⟩
      · simp
      · simp [empty] at member
    · intro call' act this
      refine ⟨?_, (h.caller call' act this).2⟩
      rcases kind with ⟨-, -, rfl⟩ | ⟨-, -, rfl⟩ <;> simp
  · exact h.keep rfl (by simp [here]) (by simp [here]) (by simp [here]) (.inl (by simp [here]))

theorem leave (mail : Mail x b a) (inv : a.Inv) (leave : Leave x b a a') : Mail x b a' := by
  have live : (a.thrtab a.thrcurrent).state ≠ .free := by simp [inv.running]
  have awake : (a.thrtab a.thrcurrent).state ≠ .recv := by simp [inv.running]
  have gone : ∀ {s}, s ≠ .free → Mail x b (a.setState a.thrcurrent s) :=
    fun ne => mail.setState (.inl ⟨ne, live, .inl awake⟩)
  cases leave with
  | yield => exact mail.makeReady live (.inl awake)
  | suspendSelf calling =>
      exact (gone (by simp)).push ⟨calling.act, calling.here⟩ rfl (by simp)
  | sleep act start =>
      have asleep := (gone (s := .sleep) (by simp)).push (f := .ret OK)
        ⟨act, by rw [start]; rfl⟩ rfl (by simp)
      exact asleep.like (by simp) (by simp) (by simp) fun t => by simp [mailbox, Event.about]
  | @recvtime _ n act start _ _ _ _ stack =>
      have waits := mail.listen ⟨act, by rw [start]; rfl⟩ (.inr ⟨⟨n, rfl⟩, rfl, rfl⟩) stack
      exact waits.like (by simp) (by simp) (by simp) fun t => by simp [mailbox, Event.about]
  | listen calling _ _ stack => exact mail.listen calling (.inl ⟨rfl, rfl, rfl⟩) stack
  | @await _ call s calling kind =>
      have other : call.receives = false := by rcases kind with rfl | ⟨m, rfl⟩ <;> rfl
      have waits := (gone (s := .wait) (by simp)).push (f := .ret OK)
        ⟨calling.act, calling.here⟩ other (by simp)
      refine waits.like ?_ ?_ (by simp) fun t => by simp [mailbox, Event.about]
      all_goals
        intro t
        by_cases this : t = a.thrcurrent <;> simp [this]
  | suicide heap cont stack =>
      intro t
      obtain ⟨box, h⟩ := mail t
      refine ⟨box, ?_⟩
      by_cases here : t = b.thrcurrent
      · subst here
        refine ⟨?_, ?_, by simp, by simp, by simp [cont]⟩
        · simpa [mailbox, Event.about] using h.history
        · exact h.slot.trans (slot_congr (by simp) (by simp)).symm
      · refine h.keep (by simp [mailbox, Event.about]) ?_ ?_ ?_ ?_ <;> simp [here]

theorem swap (mail : Mail x b a) (inv : a.Inv) (stack : a.stack a.thrcurrent = f :: fs)
    (real : f ≠ .receive ∧ f ≠ .recvtime) (more : f.isRet = false ∨ fs ≠ []) {gs : List Frame}
    (some : gs ≠ []) (from_ : ∀ g ∈ gs, g.isRet = true ∨ g ∈ fs) :
    Mail x b (a.setStack a.thrcurrent gs) := by
  intro t
  obtain ⟨box, h⟩ := mail t
  exact ⟨box, h.swap (by simp [inv.running]) stack real more some from_⟩

theorem move (mail : Mail x b a) (inv : a.Inv) (quiet : ∀ t r, x ≠ .call (.ready t r))
    (move : Move x b a a') : Mail x b a' := by
  cases move with
  | ret calling answers => exact mail.ret calling answers
  | returned _ stack =>
      exact mail.swap inv stack (by simp) (.inr (by simp)) (by simp) fun g member => .inr member
  | finished cont stack =>
      subst cont
      exact mail.finish inv stack
  | scanned => exact mail.like (by simp) (by simp) rfl fun _ => rfl
  | stay => exact mail.emit fun _ => rfl
  | leaves leave => exact (mail.leave inv leave).switch (leave.blocked inv)
  | @wake _ u _ _ state =>
      have susp : (a.thrtab u).state = .susp := by
        rcases state with ⟨-, state⟩ | ⟨r, act, -⟩
        · exact state
        · exact absurd act (quiet u r)
      exact mail.makeReady (by simp [susp]) (by simp [susp])
  | @suspend _ u _ _ _ _ ready =>
      have off : Mail x b (a.getitem u) := mail.like (by simp) (by simp) rfl fun _ => rfl
      exact off.setState (.inl ⟨by simp, by simp [ready], by simp [ready]⟩)
  | @suspended u fs _ stack =>
      have back : Mail x b (b.setStack b.thrcurrent (.ret (b.thrtab u).prio :: fs)) :=
        mail.swap inv stack (by simp) (.inl rfl) (by simp) (by simp +contextual [Frame.isRet])
      exact back.like (by simp) (by simp) (by simp) fun _ => rfl
  | @chprio _ u v =>
      refine mail.like ?_ ?_ rfl fun _ => rfl
      all_goals
        intro t
        by_cases this : t = u <;> simp [this]
  | @tick ts rest clktime clkticks _ ids _ _ =>
      have ticked : Mail x b (b.countdown clktime clkticks) :=
        mail.like (by simp) (by simp) (by simp) fun _ => by simpa using mailbox_skip rfl
      refine (Inv.wakes (P := Mail x b) (inv.countdown _ _) ticked (by simpa using ids)
        fun a u rest inv mail ids => ?_).2
      have member : u ∈ a.quetab.ids a.sleepq := by simp [ids]
      have asleep := inv.layout.of_sleep (inv.home_of_mem member)
      have off : Mail x b ((a.getitem u).emit (.woken u)) :=
        mail.like (by simp) (by simp) rfl fun _ => mailbox_skip rfl
      refine off.makeReady (u := u) ?_ ?_ <;> rcases asleep with state | state <;> simp [state]
  | deposit calling kind _ _ empty => exact mail.send calling kind empty
  | deliver calling kind _ _ empty state =>
      exact (mail.send calling kind empty).makeReady (by simp [state]) (by simp)
  | @interrupt _ _ u m calling kind _ _ empty state =>
      have off : Mail x b (((a.deposit u m).ret OK).unsleep u).1 :=
        (mail.send calling kind empty).like (by simp) (by simp) (by simp) fun _ => by simp
      exact off.makeReady (by simp [state]) (by simp)
  | @take _ call calling kind full stack =>
      have receives : call.receives = true := by rcases kind with rfl | rfl | ⟨n, rfl⟩ <;> rfl
      have same : a.setStack a.thrcurrent [] = a := by
        rw [← stack, setStack, Function.update_eq_self]
      rw [← same]
      refine mail.take full ?_
      intro box h
      rcases h.begun calling stack with ⟨stage, -⟩ | ⟨-, -, none⟩
      · exact ⟨call, stage, receives⟩
      · rw [h.slot, slot_eq_none, full] at none
        cases none
  | @heard fs cont stack =>
      have live : (b.thrtab b.thrcurrent).state ≠ .free := by simp [inv.running]
      have stage : ∀ box, Posted x b b b.thrcurrent box → fs = [] ∧
          ∃ call, box.stage = .calling call ∧ call.receives = true := by
        intro box h
        rcases stack with stack | ⟨stack, -⟩
        · exact (h.fits live stack).waits (.inl rfl)
        · exact (h.fits live stack).waits (.inr rfl)
      obtain ⟨box, h⟩ := mail b.thrcurrent
      have full : (b.thrtab b.thrcurrent).hasmsg = true := by
        rcases stack with stack | ⟨-, full⟩
        · simpa [inv.running] using h.heard (by simp [stack])
        · exact full
      rw [(stage box h).1]
      exact mail.take full fun box h => (stage box h).2
  | timedout cont stack empty =>
      subst cont
      exact mail.giveUp inv stack empty
  | pass => exact mail.like (by simp) (by simp) rfl fun _ => mailbox_skip rfl
  | signal => exact mail.like (by simp) (by simp) rfl fun _ => mailbox_skip rfl
  | @release _ s u rest good _ ids =>
      have member : u ∈ a.quetab.ids (a.semtab s).queue := by simp [ids]
      obtain ⟨waits, -⟩ := inv.layout.of_sem (isbadsem_eq_false.mp good).1 (inv.home_of_mem member)
      have off : Mail x b ((((a.setCount s ((a.semtab s).count + 1)).emit (.signal s)).getitem u).emit
          (.released u s)) := mail.like (by simp) (by simp) rfl fun t => by simp [mailbox, Event.about]
      exact off.makeReady (by simp [waits]) (by simp [waits])
  | releaseNone =>
      exact mail.like (by simp) (by simp) rfl fun t => by simp [mailbox, Event.about]
  | semcreate => exact mail.like (by simp) (by simp) rfl fun _ => mailbox_skip rfl
  | @semfree _ s good =>
      have flushed := mail.flush inv (isbadsem_eq_false.mp good).1 rfl
      exact flushed.like (by simp) (by simp) rfl fun _ => mailbox_skip rfl
  | full => exact mail.like (by simp) (by simp) rfl fun _ => rfl
  | @create _ u n p i v heap _ _ free =>
      have scanned : Mail x b ({ a with heap, nexttid := i, thrcount := a.thrcount + 1 }) :=
        mail.like (by simp) (by simp) rfl fun _ => rfl
      exact scanned.create free rfl
  | @kill _ u act _ _ _ start _ =>
      have counted : Mail x b
          (({ a with thrcount := a.thrcount - 1 } : Kernel c Lists).emit (.killed u)) :=
        mail.like (by simp) (by simp) rfl fun _ => mailbox_skip rfl
      have calling : Calling x b (({ a with thrcount := a.thrcount - 1 } : Kernel c Lists).emit
          (.killed u)) (.kill u) := ⟨act, by simp [start]⟩
      exact counted.push calling rfl (by simp)
  | @reap u fs heap cont stack _ _ _ =>
      have back : Mail x b (b.setStack b.thrcurrent (.ret OK :: fs)) :=
        mail.swap inv stack (by simp) (.inl rfl) (by simp) (by simp +contextual [Frame.isRet])
      have dead := back.setState (u := u) (.inr ⟨rfl, cont⟩)
      refine dead.like ?_ ?_ ?_ fun t => ?_
      · simp
      · simp
      · simp
      · simp only [ret_frame, setState_frame, unlink_frame, freed_frame]
        split <;> simp [mailbox, Event.about]

end Mail

end

section
variable {Q : Type} [Queues Q] {k : Kernel c Q}

theorem resched_slot (t : Int) : k.resched.slot t = k.slot t := by
  have flip : ∀ (k : Kernel c Q) (u : Int) (s : ThrState), (k.setState u s).slot t = k.slot t := by
    intro k u s
    by_cases this : t = u <;> simp [slot, this]
  have switched : ∀ k : Kernel c Q, k.switch.slot t = k.slot t := by
    intro k
    rw [← flip k (k.dequeue k.readylist).2 .curr]
    simp [slot]
  have readied : ∀ (k : Kernel c Q) (u : Int), (k.makeReady u).slot t = k.slot t := by
    intro k u
    rw [← flip k u .ready]
    simp [slot]
  unfold resched
  split
  · rfl
  simp only
  split
  · split
    · rfl
    · rw [switched, readied]
  · exact switched k

theorem ready_slot (t u : Int) (r : Bool) : (k.ready u r).slot t = k.slot t := by
  have readied : (k.makeReady u).slot t = k.slot t := by
    by_cases this : t = u <;> simp [slot, this]
  unfold ready
  split
  · rfl
  · cases r with
    | true => exact (resched_slot t).trans readied
    | false => exact readied

theorem send_cases (t m : Int) : k.send t m = k.ret SYSERR ∨ k.slot t = none ∧
    (k.send t m).stack = Function.update k.stack k.thrcurrent (.ret OK :: k.stack k.thrcurrent) ∧
    (k.send t m).slot = Function.update k.slot t (some m) := by
  have filled : (k.deposit t m).slot = Function.update k.slot t (some m) := by
    funext u
    by_cases this : u = t
    · subst this
      simp [slot]
    · simp [slot, this]
  unfold send
  split
  · exact .inl rfl
  simp only
  split
  · exact .inl rfl
  rename_i empty
  simp only [not_or, Bool.not_eq_true] at empty
  refine .inr ⟨slot_eq_none.mpr empty.2, ?_, ?_⟩
  · split <;> simp
  · rw [← filled]
    funext u
    split
    · exact ready_slot u t true
    · exact (ready_slot u t true).trans (slot_congr (by simp) (by simp))
    · rfl

theorem send_stack (t m : Int) : (k.send t m).stack k.thrcurrent ≠ [] := by
  rcases send_cases (k := k) t m with refused | ⟨-, stack, -⟩
  · simp [refused]
  · simp [stack]

theorem runCall_stack {call : Call} (basic : call.basic = true)
    (ends : (k.runCall call).stopped = false) : (k.runCall call).stack k.thrcurrent ≠ [] := by
  cases call with
  | create n p =>
      simp only [runCall, create] at ends ⊢
      split at ends
      · simp at ends
      · simp
      · rename_i heap saddr got
        obtain ⟨i, full | ⟨t, -, -, found⟩⟩ :=
          thrnew_cases ({ k with heap := heap } : Kernel c Q)
        · simp only [full] at ends ⊢
          obtain ⟨heap', freed⟩ := stkfree_eq (by simpa using ends)
          simp [freed]
        · simp [found]
  | ready t r => simp [runCall]
  | resume t =>
      simp only [runCall, resume]
      split <;> simp
  | suspend t =>
      simp only [runCall, suspend]
      split
      · simp
      · split <;> simp
  | kill t =>
      simp only [runCall, kill] at ends ⊢
      split
      · simp
      · rename_i live
        rw [if_neg live] at ends
        split
        · rename_i last
          rw [if_pos last] at ends
          simp at ends
        · exact send_stack (k := ({ k with thrcount := k.thrcount - 1 }.emit (.killed t)).push
            (.kill t)) _ t
  | chprio t p =>
      simp only [runCall, chprio]
      split <;> simp
  | resched => simp [runCall]
  | wait s =>
      simp only [runCall, wait]
      split
      · simp
      · split <;> simp
  | signal s =>
      simp only [runCall, signal, signalOnce]
      split
      · simp
      · split <;> simp
  | signaln s n =>
      simp only [runCall, signaln]
      split <;> simp [signalnLoop_frame]
  | semcreate n => simp [runCall, retOption, semcreate_frame]
  | semfree s => simp [runCall, retValue, semfree_frame]
  | sleep ms =>
      simp only [runCall, sleep]
      split
      · split <;> simp
      · simp
  | unsleep t => simp [runCall, retValue]
  | send t m => exact send_stack t m
  | receive =>
      simp only [runCall, receive, takeMessage]
      split <;> simp
  | recvclr =>
      simp only [runCall, recvclr, takeMessage]
      split <;> simp
  | recvtime n =>
      simp only [runCall, recvtime, takeMessage]
      split
      · simp
      · split
        · simp
        · split <;> simp
  | _ => cases basic

end

/-- Beside the calls about messages there may be all others that are not about monitors or futures,
without bare calls of `ready` and `unsleep`. -/
def messageCalls {Q : Type} (k : Kernel c Q) (x : Act) : Bool :=
  k.nullRuns x && k.legal x && match x with
    | .call (.ready _ _) | .call (.unsleep _) => false
    | .call call => call.basic
    | _ => true

theorem boot_mail (c : Config) (p : Platform) : Mail .cont (bootLists c p) (bootLists c p) := by
  obtain ⟨fresh, -⟩ := sysinit_fresh (c := c) p (⟨fun _ => [], fun _ => 0, fun _ => 0⟩ : Lists)
  intro t
  refine ⟨⟨none, .outside⟩, ?_, ?_, ?_, ?_, by simp⟩
  · rw [bootLists, fresh.log]
    rfl
  · symm
    rw [slot_eq_none, bootLists, fresh.thrtab]
    by_cases this : t = NULLTHREAD <;> simp [this]
  · simp [bootLists, fresh.stack, Fits]
  · simp [bootLists, fresh.stack]

theorem Mail.enter {b : Kernel c Lists} {x : Act} (mail : Mail .cont b b) (inv : b.Inv)
    (idle : ∀ call, x = .call call → b.stack b.thrcurrent = []) : Mail x b (b.start x) := by
  intro t
  obtain ⟨box, h⟩ := mail t
  have fits : (b.thrtab t).state ≠ .free → Fits (b.stack t) box.stage := by
    intro live
    rcases h.stack live with fits | ⟨-, -, call, act, -⟩
    · exact fits
    · cases act
  cases x with
  | cont => exact ⟨box, h⟩
  | tick => exact ⟨box, h.history, h.slot, fun live => .inl (fits live), h.heard, by simp⟩
  | call call =>
      by_cases here : t = b.thrcurrent
      · subst here
        have live : (b.thrtab b.thrcurrent).state ≠ .free := by simp [inv.running]
        have empty := idle call rfl
        have outside : box.stage = .outside := by
          have fits := fits live
          rw [empty] at fits
          cases stage : box.stage with
          | outside => rfl
          | calling call => rw [stage] at fits; cases call <;> simp [Fits] at fits
          | _ => simp [stage, Fits] at fits
        have called : mailbox b.thrcurrent (.call b.thrcurrent call :: b.log) = _ :=
          mailbox_cons (by simp [Event.about]) h.history
        simp only [Mailbox.next, outside, if_true] at called
        by_cases clears : call = .recvclr ∧ box.slot = none
        · rw [if_pos clears] at called
          refine ⟨{ box with stage := .cleared }, called, h.slot, ?_, h.heard, ?_⟩
          · exact fun _ => .inr ⟨empty, rfl, call, rfl, .inr ⟨clears.1, rfl⟩⟩
          · intro call' act _
            cases act
            exact ⟨live, .cleared clears.1 rfl clears.2⟩
        · rw [if_neg clears] at called
          refine ⟨{ box with stage := .calling call }, called, h.slot, ?_, h.heard, ?_⟩
          · exact fun _ => .inr ⟨empty, rfl, call, rfl, .inl rfl⟩
          · intro call' act _
            cases act
            exact ⟨live, .calling rfl fun eq none => clears ⟨eq, none⟩⟩
      · refine ⟨box, ?_, h.slot, fun live => .inl (fits live), h.heard, ?_⟩
        · simpa [start, mailbox, Event.about, Ne.symm here] using h.history
        · exact fun _ _ this => absurd this here

theorem Mail.leaveStep {a b : Kernel c Lists} {x : Act} (mail : Mail x b a)
    (busy : ∀ call, x = .call call → a.stack b.thrcurrent ≠ []) : Mail .cont a a := by
  intro t
  obtain ⟨box, h⟩ := mail t
  refine ⟨box, h.history, h.slot, ?_, h.heard, by simp⟩
  intro live
  rcases h.stack live with fits | ⟨empty, rfl, call, act, -⟩
  · exact .inl fits
  · exact absurd empty (busy call act)

theorem messages_kept : Kept (c := c) (fun k x => k.messageCalls x = true)
    (fun a => Mail .cont a a) Mail where
  basic k call allowed := by
    cases call <;> simp_all [messageCalls, Call.basic]
  null k x allowed := by simp_all [messageCalls]
  legal k a x _ _ _ allowed := by simp_all [messageCalls]
  enter k k' x b rel allowed inv mail action := by
    refine mail.enter inv ?_
    rintro call rfl
    rw [rel.stack, rel.thrcurrent]
    exact (step_call action).1
  keep k x b a a' rel allowed _ _ inv mail move := by
    refine mail.move inv ?_ move
    rintro t r rfl
    simp [messageCalls] at allowed
  leave k k' x b a rel allowed action rel' mail := by
    refine mail.leaveStep ?_
    rintro call rfl
    have basic : call.basic = true := by cases call <;> simp_all [messageCalls, Call.basic]
    obtain ⟨-, eq, ends⟩ := step_call action
    rw [rel'.stack, rel.thrcurrent, eq]
    exact runCall_stack basic (eq ▸ ends)

/-- Every mailbox has the history of one slot: what was accepted for a thread is what it has taken
and what it still holds, and a call that takes a message returns it. -/
theorem one_slot_messages (c : Config) (p : Platform) (k : Kernel c (Quetab c))
    (reach : Reach step (fun k x => k.messageCalls x = true) (boot c p) k) :
    (∀ t, ∃ box, mailbox t k.log = some box ∧ box.slot = k.slot t) ∧
    (∀ t, sentTo t k.log = (k.slot t).toList ++ receivedBy t k.log) ∧
    (∀ t m k', step (.call (.send t m)) k = some k' →
      k'.stack k.thrcurrent = [.ret SYSERR] ∧ k'.slot = k.slot ∨
      k'.stack k.thrcurrent = [.ret OK] ∧ k.slot t = none ∧
        k'.slot = Function.update k.slot t (some m)) := by
  obtain ⟨a, rel, -, mail, -⟩ := messages_kept.reach (boot_mail c p) reach
  have boxes : ∀ t, ∃ box, mailbox t k.log = some box ∧ box.slot = k.slot t := by
    intro t
    obtain ⟨box, h⟩ := mail t
    refine ⟨box, ?_, h.slot.trans ?_⟩
    · rw [← rel.log]
      exact h.history
    · rw [slot, slot, rel.thrtab]
  refine ⟨boxes, ?_, ?_⟩
  · intro t
    obtain ⟨box, history, slot⟩ := boxes t
    rw [← slot]
    exact mailbox_sentTo history
  · intro t m k' action
    obtain ⟨stack, eq, -⟩ := step_call action
    rcases send_cases (k := k.emit (.call k.thrcurrent (.send t m))) t m with refused | ⟨empty, left, slot⟩
    · refine .inl ⟨?_, ?_⟩
      · simp [eq, runCall, refused, stack]
      · rw [eq, runCall, refused]
        rfl
    · refine .inr ⟨?_, empty, ?_⟩
      · simp [eq, runCall, left, stack]
      · rw [eq, runCall, slot]
        rfl

def sendTwice : List Act :=
  [.call (.create 128 20), .cont, .call (.resume 1), .call (.create 128 30), .cont,
   .call (.resume 2), .call .receive, .cont, .call (.send 2 42), .cont, .cont, .call (.sleep 1),
   .cont, .call (.send 2 43), .cont, .tick, .cont, .call .recvclr, .cont, .call (.recvtime 5), .call (.send 2 44), .cont, .cont,
   .call .recvclr, .cont, .call (.recvtime 1), .cont, .tick, .cont, .cont]

theorem sendTwice_delivered : ∃ k, Reach step (fun k x => k.messageCalls x = true)
    (boot armRpi rpi) k ∧ receivedBy 2 k.log = [44, 43, 42] ∧ k.log.take 2 = [.ret 2 TIMEOUT, .timedout 2] ∧
    .ret 2 NOMSG ∈ k.log ∧ sentTo 2 k.log = (k.slot 2).toList ++ receivedBy 2 k.log := by
  have ran : (run step messageCalls sendTwice (boot armRpi rpi)).map
      (fun k => (receivedBy 2 k.log, k.log.take 2, decide (.ret 2 NOMSG ∈ k.log))) =
        some ([44, 43, 42], [.ret 2 TIMEOUT, .timedout 2], true) := by
    decide +kernel
  obtain ⟨k, action, observed⟩ := Option.map_eq_some_iff.mp ran
  simp only [Prod.mk.injEq, decide_eq_true_eq] at observed
  have reach := Reach.run (fun _ _ h => h) .init action
  exact ⟨k, reach, observed.1, observed.2.1, observed.2.2, (one_slot_messages armRpi rpi k reach).2.1 2⟩

end Kernel

end Xinu
