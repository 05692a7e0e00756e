import Xinu.Proof.Kernel.Boot

namespace Xinu

inductive Nap
  | up
  -- on `sleepq` for `n` ticks, of which `m` are gone
  | down (timed : Bool) (n : Int) (m : Nat)
  -- off `sleepq`, and to be made ready
  | due
  | broken
  deriving DecidableEq

def Call.naps (timed : Bool) (n : Int) : Call → Bool
  | .sleep ms => !timed && 0 < n && n = Kernel.sleepTicks ms
  | .recvtime maxwait => timed && 0 ≤ n && n = maxwait
  | _ => false

def Nap.next (t : Int) (last : Option Event) : Nap → Event → Nap
  | .broken, _ => .broken
  | .due, e => if e = .ready t then .up else .broken
  | .up, .sleeping u n timed =>
      if u = t then
        match last with
        | some (.call v call) => if v = t ∧ call.naps timed n then .down timed n 0 else .broken
        | _ => .broken
      else .up
  | .up, .woken u => if u = t then .broken else .up
  | .up, _ => .up
  | .down timed n m, .tick => .down timed n (m + 1)
  | .down timed n m, .woken u =>
      if u = t then if (m : Int) = max n 1 then .due else .broken else .down timed n m
  | .down timed n m, .sent u _ =>
      if u = t ∧ timed then if (m : Int) < max n 1 then .due else .broken else .down timed n m
  | .down timed n m, .stkfreed u => if u = t then .up else .down timed n m
  | .down timed n m, .ready u => if u = t then .broken else .down timed n m
  | .down timed n m, .sleeping u _ _ => if u = t then .broken else .down timed n m
  | .down timed n m, _ => .down timed n m

def nap (t : Int) : List Event → Nap
  | [] => .up
  | e :: log => (nap t log).next t log.head? e

def Nap.left : Nap → Int
  | .down _ n m => n - m
  | _ => 0

def Event.clock : Event → Bool
  | .tick | .ready _ | .sleeping _ _ _ | .woken _ | .sent _ _ | .stkfreed _ => true
  | _ => false

section
variable {t u : Int} {e : Event} {log : List Event} {timed : Bool} {n : Int} {m : Nat}

def Nap.settled (nap : Nap) : Prop := nap ≠ .due ∧ nap ≠ .broken

theorem nap_skip (settled : (nap t log).settled) (other : e.clock = false) :
    nap t (e :: log) = nap t log := by
  obtain ⟨due, broken⟩ := settled
  rw [nap]
  cases state : nap t log <;> cases e <;> simp_all [Nap.next, Event.clock]

theorem nap_other (settled : (nap t log).settled) (other : u ≠ t)
    (kind : e = .ready u ∨ e = .woken u ∨ (∃ m, e = .sent u m) ∨ e = .stkfreed u ∨
      ∃ n timed, e = .sleeping u n timed) : nap t (e :: log) = nap t log := by
  obtain ⟨due, broken⟩ := settled
  rw [nap]
  rcases kind with rfl | rfl | ⟨m, rfl⟩ | rfl | ⟨n, timed, rfl⟩ <;> cases state : nap t log <;>
    simp_all [Nap.next]

theorem nap_up (up : nap t log = .up)
    (kind : e = .ready u ∨ (∃ m, e = .sent u m) ∨ e = .stkfreed u ∨ e = .tick) :
    nap t (e :: log) = .up := by
  rw [nap, up]
  rcases kind with rfl | ⟨m, rfl⟩ | rfl | rfl <;> rfl

end

namespace Kernel
open Lib
variable {c : Config}

def sleepids (a : Kernel c Lists) : List Int := a.quetab.ids a.sleepq

structure Naps (a : Kernel c Lists) : Prop where
  up : ∀ t, t ∉ a.sleepids → nap t a.log = .up
  down : ∀ t ∈ a.sleepids, ∃ n m, nap t a.log = .down ((a.thrtab t).state = .tmout) n m ∧ 0 ≤ n ∧
    (m : Int) < max n 1
  delta : Delta a.quetab.key (fun t => (nap t a.log).left) 0 a.sleepids
  ints : ∀ t ∈ a.sleepids, (nap t a.log).left ≤ MAXKEY

section
variable {x : Act} {b a a' : Kernel c Lists} {t u : Int}

theorem Mid.off_sleepq (mid : a.Mid)
    (state : (a.thrtab t).state ≠ .sleep ∧ (a.thrtab t).state ≠ .tmout) : t ∉ a.sleepids := by
  intro member
  have asleep := mid.layout.of_sleep (mid.home_of_mem member)
  tauto

theorem Layout.sleep_ne_ready (layout : a.Layout) : a.sleepq ≠ a.readylist := by
  rw [layout.ready, layout.sleep]
  omega

theorem makeReady_sleepq (layout : a.Layout) (lo : 0 ≤ t) (hi : t < c.nthread) :
    (a.makeReady t).sleepids = a.sleepids ∧
      ∀ u, u ≠ t → (a.makeReady t).quetab.key u = a.quetab.key u := by
  refine ⟨?_, fun u apart => ?_⟩
  · have same := makeReady_ids_ne layout lo hi layout.sleep_ne_ready
    simpa [sleepids] using same
  · rw [makeReady_quetab layout lo hi]
    simp [Lists.insert, Lists.setKey, Lists.put, apart]

namespace Naps

theorem settled (h : Naps a) (t : Int) : (nap t a.log).settled := by
  by_cases on : t ∈ a.sleepids
  · obtain ⟨n, m, eq, -⟩ := h.down t on
    rw [eq]
    exact ⟨by simp, by simp⟩
  · rw [h.up t on]
    exact ⟨by simp, by simp⟩

theorem like (h : Naps a) (ids : a'.sleepids = a.sleepids)
    (state : ∀ t ∈ a.sleepids, (a'.thrtab t).state = (a.thrtab t).state)
    (log : ∀ t, nap t a'.log = nap t a.log)
    (key : ∀ t ∈ a.sleepids, a'.quetab.key t = a.quetab.key t) : Naps a' := by
  refine ⟨?_, ?_, ?_, ?_⟩
  · rw [ids]
    intro t off
    rw [log]
    exact h.up t off
  · rw [ids]
    intro t on
    rw [log, state t on]
    exact h.down t on
  · rw [ids]
    exact h.delta.congr key fun t _ => by rw [log]
  · rw [ids]
    intro t on
    rw [log]
    exact h.ints t on

theorem other (h : Naps a) (off : t ∉ a.sleepids) (ids : a'.sleepids = a.sleepids)
    (state : ∀ u, u ≠ t → (a'.thrtab u).state = (a.thrtab u).state)
    (log : a'.log = a.log ∨ ∃ e, a'.log = e :: a.log ∧
      (e.clock = false ∨ e = .ready t ∨ e = .stkfreed t ∨ ∃ m, e = .sent t m))
    (key : ∀ u, u ≠ t → a'.quetab.key u = a.quetab.key u) : Naps a' := by
  have apart : ∀ u ∈ a.sleepids, u ≠ t := fun u on eq => off (eq ▸ on)
  refine h.like ids (fun u on => state u (apart u on)) ?_ (fun u on => key u (apart u on))
  intro u
  rcases log with log | ⟨e, log, kind⟩
  · rw [log]
  rw [log]
  by_cases this : u = t
  · subst this
    rw [h.up u off]
    rcases kind with quiet | kind
    · rw [nap_skip (h.settled u) quiet, h.up u off]
    · exact nap_up (u := u) (h.up u off) (by tauto)
  · rcases kind with quiet | kind
    · exact nap_skip (h.settled u) quiet
    · exact nap_other (h.settled u) (Ne.symm this) (by tauto)

theorem quiet (h : Naps a) (ids : a'.sleepids = a.sleepids)
    (state : ∀ t, (a'.thrtab t).state = (a.thrtab t).state)
    (log : a'.log = a.log ∨ ∃ e, a'.log = e :: a.log ∧ e.clock = false)
    (key : ∀ t ∈ a.sleepids, a'.quetab.key t = a.quetab.key t) : Naps a' := by
  refine h.like ids (fun t _ => state t) ?_ key
  intro t
  rcases log with log | ⟨e, log, quiet⟩
  · rw [log]
  · rw [log]
    exact nap_skip (h.settled t) quiet

theorem makeReady (h : Naps a) (layout : a.Layout) (lo : 0 ≤ t) (hi : t < c.nthread)
    (off : t ∉ a.sleepids) : Naps (a.makeReady t) := by
  obtain ⟨ids, key⟩ := makeReady_sleepq layout lo hi
  exact h.other off ids (fun u apart => by simp [apart]) (.inr ⟨.ready t, by simp, by simp⟩) key

theorem switch (h : Naps a) (blocked : a.Blocked) : Naps a.switch := by
  obtain ⟨t, rest, -, ready, taken⟩ := blocked.head
  have off := blocked.toMid.off_sleepq (t := t) (by simp [ready])
  refine h.other off ?_ (fun u apart => by simp [taken, apart])
    (.inr ⟨.chosen t, by simp [taken], .inl rfl⟩) (fun u _ => by simp [taken])
  simpa [sleepids, taken] using off

theorem sleepTicks_int (ms : Nat) : sleepTicks ms ≤ MAXKEY := by
  rw [sleepTicks, WORD, MAXKEY]
  omega

theorem doze {call : Call} {older : List Event} {timed : Bool} {n : Int} (h : Naps a) (inv : a.Inv)
    (log : a.log = .call a.thrcurrent call :: older) (naps : call.naps timed n = true)
    (positive : 0 ≤ n) (int : n ≤ MAXKEY) (f : Frame) :
    Naps ((((a.insertd a.thrcurrent a.sleepq n).1.setState a.thrcurrent
      (if timed then .tmout else .sleep)).emit (.sleeping a.thrcurrent n timed)).push f) := by
  have live : a.isbadtid a.thrcurrent = false := by simp [inv.lo, inv.hi, inv.running]
  have off := inv.toMid.off_sleepq (t := a.thrcurrent) (by simp [inv.running])
  have mine : nap a.thrcurrent (.sleeping a.thrcurrent n timed :: a.log) = .down timed n 0 := by
    rw [nap, h.up _ off, log]
    simp [Nap.next, naps]
  have others : ∀ u, u ≠ a.thrcurrent →
      nap u (.sleeping a.thrcurrent n timed :: a.log) = nap u a.log :=
    fun u apart => nap_other (h.settled u) (Ne.symm apart)
      (.inr (.inr (.inr (.inr ⟨n, timed, rfl⟩))))
  have apart : ∀ u ∈ a.sleepids, u ≠ a.thrcurrent := fun u on eq => off (eq ▸ on)
  have members : ∀ u, u ∈ (deltaSplit a.quetab.key n a.sleepids).1 ++
      a.thrcurrent :: (deltaSplit a.quetab.key n a.sleepids).2.2 ↔
      u = a.thrcurrent ∨ u ∈ a.sleepids := by
    intro u
    conv_rhs => rw [← deltaSplit_append a.quetab.key n a.sleepids]
    simp [or_left_comm]
  rw [insertd_lists inv.layout.good_sleep.isq live]
  have ids : ((((a.setQuetab (a.quetab.insertd a.thrcurrent a.sleepq n)).setState a.thrcurrent
      (if timed then .tmout else .sleep)).emit (.sleeping a.thrcurrent n timed)).push f).sleepids =
      (deltaSplit a.quetab.key n a.sleepids).1 ++
        a.thrcurrent :: (deltaSplit a.quetab.key n a.sleepids).2.2 := by
    simp [sleepids, (a.quetab.insertd_ids a.thrcurrent a.sleepq n).1, Lists.put]
  refine ⟨?_, ?_, ?_, ?_⟩
  · rw [ids]
    intro u away
    rw [members, not_or] at away
    simpa [others u away.1] using h.up u away.2
  · rw [ids]
    intro u on
    rcases (members u).mp on with rfl | on
    · refine ⟨n, 0, ?_, positive, by omega⟩
      cases timed <;> simpa using mine
    · obtain ⟨n, m, eq, due⟩ := h.down u on
      exact ⟨n, m, by simpa [others u (apart u on), apart u on] using eq, due⟩
  · rw [ids]
    simp only [push_frame, emit_frame, setState_frame, setQuetab_frame, Lists.insertd_keys]
    have nodup : (a.thrcurrent :: a.sleepids).Nodup :=
      List.nodup_cons.mpr ⟨off, inv.located.nodup a.sleepq⟩
    refine Delta.insert ?_ nodup positive (by rw [mine]; simp [Nap.left])
    exact h.delta.congr (fun _ _ => rfl) fun u on => by rw [others u (apart u on)]
  · rw [ids]
    intro u on
    simp only [push_frame, emit_frame, setState_frame, setQuetab_frame]
    rcases (members u).mp on with rfl | on
    · rw [mine]
      simpa [Nap.left] using int
    · rw [others u (apart u on)]
      exact h.ints u on

theorem unsleep_keys {left : Int → Int} (mid : a.Mid) (delta : Delta a.quetab.key left 0 a.sleepids)
    (ints : ∀ u ∈ a.sleepids, left u ≤ MAXKEY) (on : t ∈ a.sleepids) :
    ∃ before after, a.sleepids = before ++ t :: after ∧
      (a.unsleep t).1.sleepids = before ++ after ∧
      (a.unsleep t).1.quetab.key = Delta.eraseKey a.quetab.key (a.quetab.key t) after := by
  have asleep := mid.layout.of_sleep (mid.home_of_mem on)
  obtain ⟨lo, hi⟩ := mid.valid on
  obtain ⟨before, after, split⟩ := List.append_of_mem on
  have nodup : (before ++ t :: after).Nodup := split ▸ mid.located.nodup a.sleepq
  have fresh : t ∉ before := by
    intro early
    exact (List.nodup_append.mp nodup).2.2 t early t (by simp) rfl
  have loc : a.quetab.loc t = a.sleepq := mid.located.loc a.sleepq t on
  have next : Queues.nextid a.quetab t = after.headD (quetail a.sleepq) := by
    show ((a.quetab.ids (a.quetab.loc t)).dropWhile (· ≠ t)).tail.headD (quetail (a.quetab.loc t)) = _
    rw [loc, show a.quetab.ids a.sleepq = before ++ t :: after from split]
    rw [List.dropWhile_append_of_pos]
    · simp
    · intro u early
      have apart : u ≠ t := fun eq => fresh (eq ▸ early)
      simpa using apart
  refine ⟨before, after, split, ?_, ?_⟩
  · have erased : (a.unsleep t).1.sleepids = a.sleepids.erase t := by
      rw [sleepids, unsleep_lists lo hi asleep]
      split <;> simp [sleepids, Lists.getitem, Lists.setKey]
    rw [erased, split, List.erase_append_right _ fresh]
    simp
  · rw [unsleep_lists lo hi asleep, next]
    cases after with
    | nil =>
        have past : ¬ quetail a.sleepq < c.nthread := by
          rw [quetail, mid.layout.sleep]
          omega
        simp [past, Delta.eraseKey, Lists.getitem]
    | cons u us =>
        have low : u < c.nthread := (mid.valid (t := u) (q := a.sleepq) (by
          rw [show a.quetab.ids a.sleepq = before ++ t :: u :: us from split]
          simp)).2
        have sum := (split ▸ delta).pair_le (Int.le_refl 0)
        have int := ints u (by simp [split])
        have same : int32 (a.quetab.key u + a.quetab.key t) = a.quetab.key u + a.quetab.key t :=
          int32_eq (Int.le_trans (by decide) sum.1) (by omega)
        simp [low, Delta.eraseKey, Lists.getitem, Lists.setKey, same]

theorem rise {before after : List Int} (h : Naps a) (mid : a.Mid)
    (split : a.sleepids = before ++ t :: after) (ids : a'.sleepids = before ++ after)
    (key : ∀ u ∈ before ++ after,
      a'.quetab.key u = Delta.eraseKey a.quetab.key (a.quetab.key t) after u)
    (state : ∀ u, u ≠ t → (a'.thrtab u).state = (a.thrtab u).state)
    (mine : nap t a'.log = .up) (others : ∀ u, u ≠ t → nap u a'.log = nap u a.log) : Naps a' := by
  have nodup : (before ++ t :: after).Nodup := split ▸ mid.located.nodup a.sleepq
  have apart : ∀ u ∈ before ++ after, u ≠ t := by
    rintro u on rfl
    exact (List.nodup_cons.mp (List.nodup_middle.mp nodup)).1 on
  have member : ∀ u, u ∈ before ++ after → u ∈ a.sleepids := by
    intro u on
    rw [split]
    simp only [List.mem_append, List.mem_cons] at on ⊢
    tauto
  refine ⟨?_, ?_, ?_, ?_⟩
  · rw [ids]
    intro u off
    by_cases this : u = t
    · exact this ▸ mine
    · rw [others u this]
      refine h.up u fun on => off ?_
      rw [split] at on
      simpa [this] using on
  · rw [ids]
    intro u on
    rw [others u (apart u on), state u (apart u on)]
    exact h.down u (member u on)
  · rw [ids]
    have delta := h.delta
    rw [split] at delta
    refine (delta.erase nodup).congr key fun u on => ?_
    rw [others u (apart u on)]
  · rw [ids]
    intro u on
    rw [others u (apart u on)]
    exact h.ints u (member u on)

theorem interrupt {m : Int} (h : Naps a) (inv : a.Inv) (lo : 0 ≤ t) (hi : t < c.nthread)
    (state : (a.thrtab t).state = .tmout) :
    Naps ((((a.deposit t m).ret OK).unsleep t).1.makeReady t) := by
  have posted := (inv.deposit t m).ret OK
  have on : t ∈ a.sleepids := (inv.located.mem _ t).mpr (home_sleep lo hi (.inr state))
  obtain ⟨before, after, split, ids, key⟩ := unsleep_keys posted.toMid h.delta h.ints (t := t) on
  have layout : (((a.deposit t m).ret OK).unsleep t).1.Layout := inv.layout.fixed (.of (by simp))
  obtain ⟨ids', key'⟩ := makeReady_sleepq layout lo hi
  have nodup : (before ++ t :: after).Nodup := split ▸ inv.located.nodup a.sleepq
  obtain ⟨n, past, eq, -, early⟩ := h.down t on
  refine h.rise inv.toMid split (ids'.trans ids) ?_ ?_ ?_ ?_
  · rintro u member
    have apart : u ≠ t := by
      rintro rfl
      exact (List.nodup_cons.mp (List.nodup_middle.mp nodup)).1 member
    rw [key' u apart, key]
    rfl
  · intro u apart
    simp [apart]
  · simp [nap, eq, state, Nap.next, early]
  · intro u apart
    have sent : nap u (.sent t m :: a.log) = nap u a.log :=
      nap_other (h.settled u) (Ne.symm apart) (.inr (.inr (.inl ⟨m, rfl⟩)))
    have ready : nap u (.ready t :: .sent t m :: a.log) = nap u (.sent t m :: a.log) :=
      nap_other (sent ▸ h.settled u) (Ne.symm apart) (.inl rfl)
    simpa using ready.trans sent

end Naps

structure Waking (a : Kernel c Lists) (ts rest : List Int) : Prop where
  ids : a.sleepids = ts ++ rest
  up : ∀ t, t ∉ ts ++ rest → nap t a.log = .up
  due : ∀ t ∈ ts, ∃ timed n m, nap t a.log = .down timed n m ∧ (m : Int) = max n 1
  down : ∀ t ∈ rest, ∃ n m, nap t a.log = .down ((a.thrtab t).state = .tmout) n m ∧ 0 ≤ n ∧
    (m : Int) < max n 1
  delta : Delta a.quetab.key (fun t => (nap t a.log).left) 0 rest
  ints : ∀ t ∈ rest, (nap t a.log).left ≤ MAXKEY

theorem Waking.settled {ts rest : List Int} (h : Waking a ts rest) (t : Int) :
    (nap t a.log).settled := by
  by_cases on : t ∈ ts ++ rest
  · rcases List.mem_append.mp on with on | on
    · obtain ⟨timed, n, m, eq, -⟩ := h.due t on
      rw [eq]
      exact ⟨by simp, by simp⟩
    · obtain ⟨n, m, eq, -⟩ := h.down t on
      rw [eq]
      exact ⟨by simp, by simp⟩
  · rw [h.up t on]
    exact ⟨by simp, by simp⟩

theorem Waking.wake {ts rest : List Int} (h : Waking a (t :: ts) rest) (inv : a.Inv) :
    Waking (a.wake t) ts rest := by
  have on : t ∈ a.sleepids := by simp [h.ids]
  obtain ⟨lo, hi⟩ := inv.valid on
  have nodup : (t :: (ts ++ rest)).Nodup := by
    have := inv.located.nodup a.sleepq
    rwa [show a.quetab.ids a.sleepq = t :: (ts ++ rest) from h.ids] at this
  have apart : ∀ u ∈ ts ++ rest, u ≠ t := fun u on eq => (List.nodup_cons.mp nodup).1 (eq ▸ on)
  have key := (makeReady_sleepq (a := (a.getitem t).emit (.woken t)) (inv.layout.fixed (.of (by simp))) lo hi).2
  obtain ⟨timed, n, m, eq, now⟩ := h.due t (by simp)
  have log : (a.wake t).log = .ready t :: .woken t :: a.log := by simp [Kernel.wake]
  have mine : nap t (a.wake t).log = .up := by
    rw [log]
    simp [nap, eq, Nap.next, now]
  have others : ∀ u, u ≠ t → nap u (a.wake t).log = nap u a.log := by
    intro u other
    have woken : nap u (.woken t :: a.log) = nap u a.log :=
      nap_other (h.settled u) (Ne.symm other) (.inr (.inl rfl))
    rw [log]
    exact (nap_other (woken ▸ h.settled u) (Ne.symm other) (.inl rfl)).trans woken
  refine ⟨(inv.wake h.ids).2, ?_, ?_, ?_, ?_, ?_⟩
  · intro u off
    by_cases this : u = t
    · exact this ▸ mine
    · rw [others u this]
      exact h.up u (by simpa [this] using off)
  · intro u on
    rw [others u (apart u (List.mem_append_left _ on))]
    exact h.due u (by simp [on])
  · intro u on
    have other := apart u (List.mem_append_right _ on)
    rw [others u other]
    simpa [Kernel.wake, other] using h.down u on
  · refine h.delta.congr (fun u on => ?_) fun u on => ?_
    · exact key u (apart u (List.mem_append_right _ on))
    · rw [others u (apart u (List.mem_append_right _ on))]
  · intro u on
    rw [others u (apart u (List.mem_append_right _ on))]
    exact h.ints u on

theorem Waking.naps {ts rest : List Int} (h : Waking a ts rest) (inv : a.Inv) :
    Naps (ts.foldl Kernel.wake a) := by
  induction ts generalizing a with
  | nil =>
      have ids : a.sleepids = rest := h.ids
      subst ids
      exact ⟨h.up, h.down, h.delta, h.ints⟩
  | cons t ts ih => exact ih (h.wake inv) (inv.wake h.ids).1

theorem Naps.countdown {ts rest : List Int} {clktime clkticks : Nat} (h : Naps b) (inv : b.Inv)
    (ids : b.sleepids = ts ++ rest)
    (past : ∀ t ∈ ts, (b.countdown clktime clkticks).quetab.key t ≤ 0)
    (future : ∀ t ∈ rest.head?, 0 < (b.countdown clktime clkticks).quetab.key t)
    (level : ∀ t ∈ b.sleepids.head?, b.quetab.key t = 0 → ∀ u ∈ b.sleepids, b.quetab.key u = 0) :
    Waking (b.countdown clktime clkticks) ts rest := by
  have log : (b.countdown clktime clkticks).log = .tick :: b.log := by simp
  have same : (b.countdown clktime clkticks).sleepids = b.sleepids := by simp [sleepids]
  have ticked : ∀ t ∈ b.sleepids, ∃ n m, nap t (.tick :: b.log) =
      .down ((b.thrtab t).state = .tmout) n (m + 1) ∧ 0 ≤ n ∧ (m : Int) < max n 1 ∧
      (nap t b.log).left = n - m := by
    intro t on
    obtain ⟨n, m, eq, positive, early⟩ := h.down t on
    exact ⟨n, m, by rw [nap, eq]; rfl, positive, early, by rw [eq]; rfl⟩
  have up : ∀ t, t ∉ ts ++ rest → nap t (b.countdown clktime clkticks).log = .up := by
    intro t off
    rw [log]
    exact nap_up (u := t) (h.up t (ids ▸ off)) (by simp)
  cases waiting : b.sleepids with
  | nil =>
      rw [waiting] at ids
      obtain ⟨rfl, rfl⟩ := List.append_eq_nil_iff.mp ids.symm
      exact ⟨same.trans waiting, up, by simp, by simp, trivial, by simp⟩
  | cons u us =>
      have key : (b.countdown clktime clkticks).quetab.key =
          Function.update b.quetab.key u (b.quetab.key u - 1) := by
        have : b.quetab.ids b.sleepq = u :: us := waiting
        simp [Kernel.countdown, this, Lists.setKey]
      have nodup : (u :: us).Nodup := waiting ▸ inv.located.nodup b.sleepq
      have delta : Delta b.quetab.key (fun t => (nap t b.log).left) 0 (u :: us) := waiting ▸ h.delta
      rw [waiting] at ids level ticked
      have less : ∀ t ∈ u :: us, (nap t (.tick :: b.log)).left = (nap t b.log).left - 1 := by
        intro t on
        obtain ⟨n, m, eq, -, -, left⟩ := ticked t on
        rw [eq, left, Nap.left]
        push_cast
        omega
      by_cases waits : 0 < b.quetab.key u
      · -- every thread has one tick less
        have later : Delta (b.countdown clktime clkticks).quetab.key
            (fun t => (nap t (.tick :: b.log)).left) 0 (ts ++ rest) := by
          rw [key, ← ids]
          exact (delta.pass (show 1 ≤ _ from waits) nodup).congr (fun _ _ => rfl) less
        obtain ⟨zero, after⟩ := later.drop past
        refine ⟨same.trans (waiting.trans ids), up, ?_, ?_, by rw [log]; exact after, ?_⟩
        · intro t on
          obtain ⟨n, m, eq, positive, early, -⟩ := ticked t (by simp [ids, on])
          have := zero t on
          rw [eq, Nap.left] at this
          refine ⟨_, n, m + 1, by rw [log, eq], ?_⟩
          push_cast at this ⊢
          omega
        · intro t on
          obtain ⟨n, m, eq, positive, early, -⟩ := ticked t (by simp [ids, on])
          refine ⟨n, m + 1, by simpa [log] using eq, positive, ?_⟩
          have ahead : 0 < (nap t (.tick :: b.log)).left := by
            cases rest with
            | nil => cases on
            | cons v vs => exact after.lt_left (future v rfl) on
          rw [eq, Nap.left] at ahead
          push_cast at ahead ⊢
          omega
        · intro t on
          have int := h.ints t (by simp [waiting, ids, on])
          rw [log, less t (by simp [ids, on])]
          omega
      · -- all of them have come for no tick at all, and they all wake
        have zero : b.quetab.key u = 0 := by
          have := delta.1
          omega
        have none := level u rfl zero
        have alone : Delta b.quetab.key (fun t => (nap t b.log).left) 0 (u :: us ++ []) := by
          simpa using delta
        have left := (alone.drop fun t on => Int.le_of_eq (none t on)).1
        have all : rest = [] := by
          cases rest with
          | nil => rfl
          | cons v vs =>
              have on : v ∈ u :: us := by simp [ids]
              have := future v rfl
              rw [key] at this
              by_cases first : v = u
              · simp [first, zero] at this
              · simp [first, none v on] at this
        subst all
        refine ⟨same.trans (waiting.trans ids), up, ?_, by simp, trivial, by simp⟩
        intro t on
        obtain ⟨n, m, eq, positive, early, gone⟩ := ticked t (by simpa [ids] using on)
        rw [left t (by simpa [ids] using on)] at gone
        refine ⟨_, n, m + 1, by rw [log, eq], ?_⟩
        push_cast
        omega

namespace Naps

theorem leave (h : Naps a) (inv : a.Inv) (leave : Leave x b a a') : Naps a' := by
  have off : a.thrcurrent ∉ a.sleepids := inv.toMid.off_sleepq (by simp [inv.running])
  cases leave with
  | yield => exact h.makeReady inv.layout inv.lo inv.hi off
  | suspendSelf =>
      exact h.other off rfl (fun u apart => by simp [apart]) (.inl rfl) fun _ _ => rfl
  | @sleep _ ms act start positive =>
      have naps : (Call.sleep ms).naps false (sleepTicks ms) = true := by simp [Call.naps, positive]
      exact h.doze inv (by rw [start]; rfl) naps (by omega) (sleepTicks_int ms) (.ret OK)
  | @recvtime _ n act start positive int =>
      have naps : (Call.recvtime n).naps true n = true := by simp [Call.naps, positive]
      exact h.doze inv (by rw [start]; rfl) naps positive int .recvtime
  | listen => exact h.other off rfl (fun u apart => by simp [apart]) (.inl rfl) fun _ _ => rfl
  | @await _ _ s _ _ good =>
      obtain ⟨bound, -⟩ := isbadsem_eq_false.mp good
      have isq := (inv.layout.good_sem bound).isq
      have apart : a.sleepq ≠ (a.semtab s).queue := by
        rw [inv.layout.sleep, inv.layout.sems s bound]
        omega
      rw [enqueue_lists isq (by simp [inv.lo, inv.hi])]
      refine h.other off ?_ (fun u apart => by simp [apart])
        (.inr ⟨.wait a.thrcurrent s true, by simp, .inl rfl⟩) fun _ _ => rfl
      simp [sleepids, Lists.enqueue, Lists.put, apart]
  | suicide =>
      exact h.other off (by simp [sleepids]) (fun u apart => by simp [apart])
        (.inr ⟨.stkfreed b.thrcurrent, rfl, by simp⟩) fun _ _ => rfl

theorem flush {s : Nat} {ts : List Int} (h : Naps a) (inv : a.Inv) (bound : s < c.nsem)
    (ids : a.quetab.ids (a.semtab s).queue = ts) : Naps (a.flush ts) := by
  induction ts generalizing a with
  | nil => exact h
  | cons t ts ih =>
      have member : t ∈ a.quetab.ids (a.semtab s).queue := by simp [ids]
      obtain ⟨waits, -⟩ := inv.layout.of_sem bound (inv.home_of_mem member)
      obtain ⟨lo, hi⟩ := inv.valid member
      obtain ⟨inv₁, left⟩ := inv.flushOne bound ids
      have away := inv.toMid.off_sleepq (t := t) (by simp [waits])
      have same : (a.getitem t).sleepids = a.sleepids := List.erase_of_not_mem away
      have off : Naps (a.getitem t) := h.quiet same (by simp) (.inl rfl) fun _ _ => rfl
      exact ih (off.makeReady (inv.layout.fixed (.of (by simp))) lo hi (same ▸ away)) inv₁ (by simpa using left)

theorem reap {fs : List Frame} {heap : Heap} (h : Naps b) (inv : b.Inv) (lo : 0 ≤ t)
    (hi : t < c.nthread) (stack : b.stack b.thrcurrent = .kill t :: fs)
    (timed : (b.thrtab t).state ≠ .tmout) :
    Naps ((((b.freed t fs heap).unlink t).setState t .free).ret OK) := by
  have inv₁ : (b.freed t fs heap).Inv := (inv.pop stack (by simp)).like (.of (.of (by simp)) (by simp)) rfl rfl
  by_cases asleep : (b.thrtab t).state = .sleep
  · have on : t ∈ b.sleepids := (inv.located.mem _ t).mpr (home_sleep lo hi (.inl asleep))
    obtain ⟨before, after, split, ids, key⟩ := unsleep_keys inv₁.toMid h.delta h.ints (t := t) on
    have gone : (b.freed t fs heap).unlink t = ((b.freed t fs heap).unsleep t).1 := by
      simp [Kernel.unlink, asleep]
    obtain ⟨n, m, eq, -⟩ := h.down t on
    rw [gone]
    refine h.rise inv.toMid split ids ?_ ?_ ?_ ?_
    · intro u member
      exact congrFun key u
    · intro u apart
      simp [apart]
    · simp [nap, eq, Nap.next]
    · intro u apart
      simpa using nap_other (h.settled u) (Ne.symm apart) (.inr (.inr (.inr (.inl rfl))))
  · have off := inv.toMid.off_sleepq ⟨asleep, timed⟩
    have freed : Naps (b.freed t fs heap) := h.other off rfl (fun _ _ => rfl)
      (.inr ⟨.stkfreed t, by simp, by simp⟩) fun _ _ => rfl
    have away : t ∉ (b.freed t fs heap).sleepids := off
    have same : ((b.freed t fs heap).unlink t).sleepids = (b.freed t fs heap).sleepids ∧
        ((b.freed t fs heap).unlink t).quetab.key = (b.freed t fs heap).quetab.key := by
      unfold Kernel.unlink
      split
      · simp_all
      · exact ⟨List.erase_of_not_mem away, rfl⟩
      · exact ⟨List.erase_of_not_mem away, rfl⟩
      · exact ⟨rfl, rfl⟩
    refine freed.other away same.1 (fun u apart => by simp [apart]) ?_ fun u _ => congrFun same.2 u
    by_cases waits : (b.thrtab t).state = .wait
    · exact .inr ⟨.waiterKilled t (b.thrtab t).sem, by simp [waits], .inl rfl⟩
    · exact .inl (by simp [waits])

theorem move (h : Naps a) (inv : a.Inv) (move : Move x b a a')
    (level : x = .tick → ∀ t ∈ b.sleepids.head?, b.quetab.key t = 0 →
      ∀ u ∈ b.sleepids, b.quetab.key u = 0) : Naps a' := by
  have off : ∀ {u}, (a.thrtab u).state ≠ .sleep ∧ (a.thrtab u).state ≠ .tmout → u ∉ a.sleepids :=
    inv.toMid.off_sleepq
  cases move with
  | ret => exact h.quiet rfl (by simp) (.inl rfl) fun _ _ => rfl
  | returned => exact h.quiet rfl (by simp) (.inl rfl) fun _ _ => rfl
  | finished => exact h.quiet rfl (by simp) (.inr ⟨_, rfl, rfl⟩) fun _ _ => rfl
  | scanned => exact h.quiet rfl (by simp) (.inl rfl) fun _ _ => rfl
  | stay => exact h.quiet rfl (by simp) (.inr ⟨_, rfl, rfl⟩) fun _ _ => rfl
  | leaves leave => exact (h.leave inv leave).switch (leave.blocked inv)
  | wake lo hi state =>
      refine h.makeReady inv.layout lo hi (off ?_)
      rcases state with ⟨-, state⟩ | ⟨-, -, state | state⟩ <;> simp [state]
  | @suspend _ t _ _ _ _ ready =>
      have away := off (u := t) (by simp [ready])
      exact h.other away (List.erase_of_not_mem away) (fun u apart => by simp [apart]) (.inl rfl)
        fun _ _ => rfl
  | suspended => exact h.quiet rfl (by simp) (.inl rfl) fun _ _ => rfl
  | @chprio _ t =>
      refine h.quiet rfl ?_ (.inl rfl) fun _ _ => rfl
      intro u
      by_cases this : u = t <;> simp [this]
  | @tick ts rest clktime clkticks act ids past future =>
      exact (h.countdown inv ids past future (level act)).naps (inv.countdown _ _)
  | @deposit _ _ t m _ _ _ _ _ _ _ timed =>
      refine h.like rfl (fun u _ => deposit_state _ _ _ u) ?_ fun _ _ => rfl
      intro u
      by_cases this : u = t
      · subst this
        by_cases on : u ∈ a.sleepids
        · obtain ⟨n, m, eq, -⟩ := h.down u on
          simp [nap, eq, Nap.next, timed]
        · rw [h.up u on]
          simp [nap, h.up u on, Nap.next]
      · simpa using nap_other (h.settled u) (Ne.symm this) (.inr (.inr (.inl ⟨m, rfl⟩)))
  | @deliver _ _ t m _ _ lo hi _ state =>
      have away := off (u := t) (by simp [state])
      have sent : Naps ((a.deposit t m).ret OK) := h.other away rfl (fun u _ => deposit_state _ _ _ u)
        (.inr ⟨.sent t m, rfl, by simp⟩) fun _ _ => rfl
      exact sent.makeReady (inv.layout.fixed (.of (by simp))) lo hi away
  | interrupt _ _ lo hi _ state => exact h.interrupt inv lo hi state
  | take => exact h.quiet rfl (takeMessage_state _) (.inr ⟨_, rfl, rfl⟩) fun _ _ => rfl
  | heard => exact h.quiet rfl (takeMessage_state _) (.inr ⟨_, rfl, rfl⟩) fun _ _ => rfl
  | timedout => exact h.quiet rfl (by simp) (.inr ⟨_, rfl, rfl⟩) fun _ _ => rfl
  | pass => exact h.quiet rfl (by simp) (.inr ⟨_, rfl, rfl⟩) fun _ _ => rfl
  | signal => exact h.quiet rfl (by simp) (.inr ⟨_, rfl, rfl⟩) fun _ _ => rfl
  | @release _ s t rest good negative ids =>
      have member : t ∈ a.quetab.ids (a.semtab s).queue := by simp [ids]
      obtain ⟨waits, -⟩ := inv.layout.of_sem (isbadsem_eq_false.mp good).1 (inv.home_of_mem member)
      obtain ⟨lo, hi⟩ := inv.valid member
      have counted := (like_setCount (k := a) s ((a.semtab s).count + 1)).emit (.signal s)
      have away := off (u := t) (by simp [waits])
      have signalled : Naps ((a.setCount s ((a.semtab s).count + 1)).emit (.signal s)) :=
        h.quiet rfl (by simp) (.inr ⟨_, rfl, rfl⟩) fun _ _ => rfl
      have same := List.erase_of_not_mem away
      have gone : Naps ((((a.setCount s ((a.semtab s).count + 1)).emit (.signal s)).getitem t).emit
          (.released t s)) :=
        signalled.quiet same (by simp) (.inr ⟨_, rfl, rfl⟩) fun _ _ => rfl
      refine gone.makeReady ((inv.layout.fixed counted.toFixed).fixed (.of (by simp))) lo hi ?_
      intro on
      exact away (List.mem_of_mem_erase on)
  | @releaseNone _ s =>
      have signalled : Naps ((a.setCount s ((a.semtab s).count + 1)).emit (.signal s)) :=
        h.quiet rfl (by simp) (.inr ⟨_, rfl, rfl⟩) fun _ _ => rfl
      exact signalled.quiet rfl (by simp) (.inr ⟨_, rfl, rfl⟩) fun _ _ => rfl
  | semcreate => exact h.quiet rfl (by simp) (.inr ⟨_, rfl, rfl⟩) fun _ _ => rfl
  | @semfree _ s good =>
      have flushed := h.flush inv (isbadsem_eq_false.mp good).1 rfl
      exact flushed.quiet rfl (by simp) (.inr ⟨_, rfl, rfl⟩) fun _ _ => rfl
  | full => exact h.quiet rfl (by simp) (.inl rfl) fun _ _ => rfl
  | @create _ t n p i v heap _ _ free =>
      exact h.other (off (u := t) (by simp [free])) rfl (fun u apart => by simp [apart])
        (.inr ⟨_, rfl, .inl rfl⟩) fun _ _ => rfl
  | kill => exact h.quiet rfl (by simp) (.inr ⟨_, rfl, rfl⟩) fun _ _ => rfl
  | @reap t fs heap _ stack timed other _ =>
      obtain ⟨-, lo, hi⟩ := inv.kills b.thrcurrent t (by simp [stack])
      exact h.reap inv lo hi stack timed

end Naps

end

theorem boot_naps (c : Config) (p : Platform) : Naps (bootLists c p) := by
  obtain ⟨fresh, -⟩ := sysinit_fresh (c := c) p (⟨fun _ => [], fun _ => 0, fun _ => 0⟩ : Lists)
  have empty : (bootLists c p).sleepids = [] := by rw [sleepids, bootLists_quetab]
  have log : (bootLists c p).log = [] := fresh.log
  exact ⟨by simp [log, nap], by simp [empty], by rw [empty]; trivial, by simp [empty]⟩

end Kernel

def ticks (log : List Event) : Nat := log.count .tick

def Undisturbed (t : Int) (timed : Bool) (es : List Event) : Prop :=
  ∀ e ∈ es, e ≠ .ready t ∧ e ≠ .woken t ∧ e ≠ .stkfreed t ∧ ∀ m, timed = true → e ≠ .sent t m

inductive Ended (t n : Int) (timed : Bool) : List Event → Prop
  | woken (later : List Event) {earlier : List Event} : Undisturbed t timed earlier →
      (ticks earlier : Int) = max n 1 → Ended t n timed (later ++ .ready t :: .woken t :: earlier)
  | sent (later : List Event) {earlier : List Event} (m : Int) : timed = true →
      Undisturbed t timed earlier → (ticks earlier : Int) < max n 1 →
      Ended t n timed (later ++ .ready t :: .sent t m :: earlier)
  | killed (later : List Event) {earlier : List Event} : Undisturbed t timed earlier →
      Ended t n timed (later ++ .stkfreed t :: earlier)

theorem Ended.cons {t n : Int} {timed : Bool} {es : List Event} (h : Ended t n timed es) (e : Event) :
    Ended t n timed (e :: es) := by
  cases h with
  | woken later quiet time => exact .woken (e :: later) quiet time
  | sent later m kind quiet time => exact .sent (e :: later) m kind quiet time
  | killed later quiet => exact .killed (e :: later) quiet

section
variable {t n : Int} {timed : Bool} {es before : List Event}

theorem Undisturbed.cons {e : Event} (h : Undisturbed t timed es) (ready : e ≠ .ready t)
    (woken : e ≠ .woken t) (freed : e ≠ .stkfreed t) (sent : ∀ m, timed = true → e ≠ .sent t m) :
    Undisturbed t timed (e :: es) :=
  List.forall_mem_cons.mpr ⟨⟨ready, woken, freed, sent⟩, h⟩

inductive Napping (t n : Int) (timed : Bool) (es : List Event) : Nap → Prop
  | broken : Napping t n timed es .broken
  | down : Undisturbed t timed es → Napping t n timed es (.down timed n (ticks es))
  | due {now : Event} {earlier : List Event} : es = now :: earlier →
      (now = .woken t ∧ (ticks earlier : Int) = max n 1 ∨
        ∃ m, now = .sent t m ∧ timed = true ∧ (ticks earlier : Int) < max n 1) →
      Undisturbed t timed earlier → Napping t n timed es .due
  | ended {nap : Nap} : Ended t n timed es → Napping t n timed es nap

theorem Napping.next {state : Nap} (h : Napping t n timed es state) (last : Option Event)
    (e : Event) : Napping t n timed (e :: es) (state.next t last e) := by
  cases h with
  | broken => exact .broken
  | ended ended => exact .ended (ended.cons e)
  | @due now earlier eq kind quiet =>
      simp only [Nap.next]
      split
      · rename_i ready
        subst ready eq
        rcases kind with ⟨rfl, time⟩ | ⟨m, rfl, timed, time⟩
        · exact .ended (.woken [] quiet time)
        · exact .ended (.sent [] m timed quiet time)
      · exact .broken
  | down quiet =>
      have other : ∀ {e : Event}, e ≠ .tick → Undisturbed t timed (e :: es) →
          Napping t n timed (e :: es) (.down timed n (ticks es)) := by
        intro e ne quiet
        have same : ticks es = ticks (e :: es) := by simp [ticks, ne]
        rw [same]
        exact .down quiet
      cases e with
      | tick =>
          have more : ticks es + 1 = ticks (.tick :: es) := by simp [ticks]
          simp only [Nap.next, more]
          exact .down (quiet.cons (by simp) (by simp) (by simp) (by simp))
      | woken u =>
          simp only [Nap.next]
          split
          · rename_i this
            subst this
            split
            · rename_i time
              exact .due rfl (.inl ⟨rfl, time⟩) quiet
            · exact .broken
          · rename_i apart
            exact other (by simp) (quiet.cons (by simp) (by simpa using apart) (by simp) (by simp))
      | sent u m =>
          simp only [Nap.next]
          split
          · rename_i this
            obtain ⟨rfl, timed⟩ := this
            split
            · rename_i time
              exact .due rfl (.inr ⟨m, rfl, timed, time⟩) quiet
            · exact .broken
          · rename_i apart
            refine other (by simp) (quiet.cons (by simp) (by simp) (by simp) ?_)
            intro m' timed eq
            cases eq
            exact apart ⟨rfl, timed⟩
      | stkfreed u =>
          simp only [Nap.next]
          split
          · rename_i this
            subst this
            exact .ended (.killed [] quiet)
          · rename_i apart
            exact other (by simp) (quiet.cons (by simp) (by simp) (by simpa using apart) (by simp))
      | ready u =>
          simp only [Nap.next]
          split
          · exact .broken
          · rename_i apart
            exact other (by simp) (quiet.cons (by simpa using apart) (by simp) (by simp) (by simp))
      | sleeping u n' timed' =>
          simp only [Nap.next]
          split
          · exact .broken
          · exact other (by simp) (quiet.cons (by simp) (by simp) (by simp) (by simp))
      | _ => exact other (by simp) (quiet.cons (by simp) (by simp) (by simp) (by simp))

theorem nap_broken (log : List Event) (broken : nap t before = .broken) :
    nap t (log ++ before) = .broken := by
  induction log with
  | nil => exact broken
  | cons e log ih =>
      rw [List.cons_append, nap, ih]
      rfl

theorem nap_entered (sound : nap t (.sleeping t n timed :: before) ≠ .broken) :
    nap t (.sleeping t n timed :: before) = .down timed n 0 ∧
      ∃ call older, before = .call t call :: older ∧ call.naps timed n = true := by
  rw [nap] at sound ⊢
  cases state : nap t before with
  | up =>
      cases before with
      | nil => simp [state, Nap.next] at sound
      | cons e older =>
          cases e <;> simp [state, Nap.next] at sound ⊢
          exact sound
  | _ => simp [state, Nap.next] at sound

theorem nap_history (log : List Event) (sound : nap t (log ++ .sleeping t n timed :: before) ≠ .broken) :
    Napping t n timed log (nap t (log ++ .sleeping t n timed :: before)) := by
  induction log with
  | nil =>
      rw [List.nil_append] at sound ⊢
      rw [(nap_entered sound).1]
      exact .down (by simp [Undisturbed])
  | cons e log ih =>
      have earlier : nap t (log ++ .sleeping t n timed :: before) ≠ .broken := by
        intro broken
        exact sound (nap_broken [e] broken)
      exact (ih earlier).next _ e

theorem next_down {m : Nat} {state : Nap} {last : Option Event} {e : Event}
    (down : state.next t last e = .down timed n m) :
    e = .sleeping t n timed ∧ m = 0 ∨
      ∃ m', state = .down timed n m' ∧ Undisturbed t timed [e] ∧ m = m' + ticks [e] := by
  cases state with
  | broken => cases down
  | due =>
      simp only [Nap.next] at down
      split at down <;> cases down
  | up =>
      cases e with
      | sleeping u n' timed' =>
          simp only [Nap.next] at down
          split at down
          · rename_i here
            split at down
            · split at down
              · cases down
                exact .inl ⟨by rw [here], rfl⟩
              · cases down
            · cases down
          · cases down
      | woken u =>
          simp only [Nap.next] at down
          split at down <;> cases down
      | _ => cases down
  | down timed' n' m' =>
      refine .inr ⟨m', ?_⟩
      cases e with
      | woken u =>
          simp only [Nap.next] at down
          split at down
          · split at down <;> cases down
          · cases down
            simp_all [Undisturbed, ticks]
      | sent u v =>
          simp only [Nap.next] at down
          split at down
          · split at down <;> cases down
          · cases down
            simp_all [Undisturbed, ticks]
            rintro rfl rfl
            simp_all
      | tick =>
          cases down
          simp [Undisturbed, ticks]
      | stkfreed u =>
          simp only [Nap.next] at down
          split at down <;> cases down
          simp_all [Undisturbed, ticks]
      | ready u =>
          simp only [Nap.next] at down
          split at down <;> cases down
          simp_all [Undisturbed, ticks]
      | sleeping u n' timed' =>
          simp only [Nap.next] at down
          split at down <;> cases down
          simp_all [Undisturbed, ticks]
      | _ =>
          cases down
          simp [Undisturbed, ticks]

theorem nap_down {m : Nat} {log : List Event} (down : nap t log = .down timed n m) :
    ∃ after before, log = after ++ .sleeping t n timed :: before ∧ Undisturbed t timed after ∧
      m = ticks after := by
  induction log generalizing m with
  | nil => cases down
  | cons e log ih =>
      rcases next_down down with ⟨rfl, rfl⟩ | ⟨m', earlier, quiet, more⟩
      · exact ⟨[], log, rfl, by simp [Undisturbed], rfl⟩
      · obtain ⟨after, before, eq, still, past⟩ := ih earlier
        refine ⟨e :: after, before, by rw [eq]; rfl, ?_, ?_⟩
        · exact List.forall_mem_cons.mpr ⟨quiet e (by simp), still⟩
        · rw [more, past]
          simp only [ticks]
          rw [Nat.add_comm, ← List.count_append]
          rfl

end

namespace Kernel
open Lib
variable {c : Config}

/-- A clock tick does not find a thread with no ticks left in front of one that has some. -/
def level {Q : Type} [Queues Q] (k : Kernel c Q) : Act → Bool
  | .tick => k.firstkey k.sleepq ≠ 0 || (List.range c.nthread).all fun t : Nat =>
      (k.thrtab t).state ≠ .sleep && (k.thrtab t).state ≠ .tmout || Queues.key k.quetab t = 0
  | _ => true

def Entered (t n : Int) (timed : Bool) (before : List Event) : Prop :=
  ∃ call older, before = .call t call :: older ∧
    (timed = true ∧ call = .recvtime n ∧ 0 ≤ n ∨ timed = false ∧ 0 < n ∧ ∃ ms, call = .sleep ms ∧
      (ms * CLKTICKS_PER_SEC < 2 ^ 31 → n = (ms * CLKTICKS_PER_SEC / 1000 : Nat)))

/-- Every thread on `sleepq` has gone there for some number of ticks that are not over, and every
thread that came off did so at its tick, or was sent a message or killed before. -/
structure Punctual (k : Kernel c (Quetab c)) : Prop where
  asleep : ∀ t : Int, 0 ≤ t → t < c.nthread →
    (k.thrtab t).state = .sleep ∨ (k.thrtab t).state = .tmout →
    ∃ n after before, k.log = after ++ .sleeping t n ((k.thrtab t).state = .tmout) :: before ∧
      Undisturbed t ((k.thrtab t).state = .tmout) after ∧ (ticks after : Int) < max n 1
  history : ∀ t n timed after before, k.log = after ++ .sleeping t n timed :: before →
    Entered t n timed before ∧ (Ended t n timed after ∨ Undisturbed t timed after ∧
      (ticks after : Int) < max n 1 ∧
        ((k.thrtab t).state = .sleep ∨ (k.thrtab t).state = .tmout))

theorem sleepTicks_eq {ms : Nat} (small : ms * CLKTICKS_PER_SEC < 2 ^ 31) :
    sleepTicks ms = (ms * CLKTICKS_PER_SEC / 1000 : Nat) := by
  have fits : ms * CLKTICKS_PER_SEC < WORD := by
    rw [WORD]
    omega
  rw [sleepTicks, Nat.mod_eq_of_lt fits]

theorem entered_of_naps {t n : Int} {timed : Bool} {call : Call} {older : List Event}
    (naps : call.naps timed n = true) : Entered t n timed (.call t call :: older) := by
  refine ⟨call, older, rfl, ?_⟩
  cases call <;> simp [Call.naps] at naps
  case sleep ms =>
    obtain ⟨⟨rfl, positive⟩, rfl⟩ := naps
    exact .inr ⟨rfl, positive, ms, rfl, sleepTicks_eq⟩
  case recvtime w =>
    obtain ⟨⟨rfl, positive⟩, rfl⟩ := naps
    exact .inl ⟨rfl, rfl, positive⟩

theorem naps_kept : Kept (c := c) (fun k x => (k.basicCalls x && k.legal x && k.level x) = true)
    Naps (fun _ _ => Naps) := by
  refine ⟨?_, ?_, ?_, ?_, ?_, fun _ _ _ _ _ _ _ _ _ h => h⟩
  · intro k call allowed
    simp_all [basicCalls]
  · intro k x allowed
    simp_all [basicCalls]
  · intro k a x rel inv _ allowed
    simp_all
  · intro k k' x b rel allowed inv h action
    cases x with
    | call call => exact h.quiet rfl (by simp) (.inr ⟨_, rfl, rfl⟩) fun _ _ => rfl
    | cont => exact h
    | tick => exact h
  · intro k x b a a' rel allowed invb hb inv h move
    refine h.move inv move ?_
    rintro rfl t first zero u on
    have good := invb.layout.good_sleep
    have valid : ∀ v ∈ b.sleepids, 0 ≤ v ∧ v < c.nthread := fun v on => invb.valid on
    have head : k.firstkey k.sleepq = 0 := by
      obtain ⟨lo, hi⟩ := valid t (List.mem_of_mem_head? first)
      rw [firstkey, ← rel.sleepq, rel.firstid good, List.headD_eq_head?_getD,
        show (b.quetab.ids b.sleepq).head? = some t from first]
      exact (rel.key lo hi).trans zero
    obtain ⟨lo, hi⟩ := valid u on
    have asleep := invb.layout.of_sleep (invb.home_of_mem on)
    rw [rel.thrtab] at asleep
    obtain ⟨i, rfl⟩ := Int.eq_ofNat_of_zero_le lo
    have calm : k.level .tick = true := by simp_all
    simp only [level, head, ne_eq, not_true_eq_false, decide_false, Bool.false_or, List.all_eq_true,
      List.mem_range] at calm
    have now := calm i (by exact_mod_cast hi)
    rw [← rel.key lo hi]
    rcases asleep with state | state <;> simpa [state] using now

/-- In every run in which no clock tick finds a thread with no ticks left in front of one that has
some, the threads wake on time. -/
theorem sleepers_punctual (c : Config) (p : Platform) (k : Kernel c (Quetab c))
    (reach : Reach step (fun k x => (k.basicCalls x && k.legal x && k.level x) = true)
      (boot c p) k) : k.Punctual := by
  obtain ⟨a, rel, inv, h, -⟩ := naps_kept.reach (boot_naps c p) reach
  have log : a.log = k.log := rel.log
  have table : a.thrtab = k.thrtab := rel.thrtab
  have sound : ∀ t, nap t k.log ≠ .broken := fun t => log ▸ (h.settled t).2
  refine ⟨?_, ?_⟩
  · intro t lo hi state
    have on : t ∈ a.sleepids := (inv.located.mem _ t).mpr (home_sleep lo hi (by rwa [table]))
    obtain ⟨n, m, eq, -, early⟩ := h.down t on
    rw [log, table] at eq
    obtain ⟨after, before, split, quiet, past⟩ := nap_down eq
    exact ⟨n, after, before, split, quiet, past ▸ early⟩
  · intro t n timed after before split
    have whole := sound t
    rw [split] at whole
    have entry : nap t (.sleeping t n timed :: before) ≠ .broken :=
      fun broken => whole (nap_broken after broken)
    obtain ⟨-, call, older, rfl, naps⟩ := nap_entered entry
    refine ⟨entered_of_naps naps, ?_⟩
    have state := nap_history after whole
    rw [← split, ← log] at state
    by_cases on : t ∈ a.sleepids
    · obtain ⟨n', m, eq, -, early⟩ := h.down t on
      have asleep := inv.layout.of_sleep (inv.home_of_mem on)
      rw [eq] at state
      cases state with
      | down quiet => exact .inr ⟨quiet, early, table ▸ asleep⟩
      | ended ended => exact .inl ended
    · rw [h.up t on] at state
      cases state with
      | ended ended => exact .inl ended

def sleepTwo : List Act :=
  [.call (.create 128 20), .cont, .call (.resume 1), .call (.create 128 30), .cont,
   .call (.resume 2), .call (.sleep 2), .cont, .tick, .tick]

theorem sleepTwo_punctual : ∃ k : Kernel armRpi (Quetab armRpi),
    Reach step (fun k x => (k.basicCalls x && k.legal x && k.level x) = true) (boot armRpi rpi) k ∧
    k.thrcurrent = 2 ∧ k.Punctual := by
  have ran : (run step (fun k x => k.basicCalls x && k.legal x && k.level x) sleepTwo
      (boot armRpi rpi)).map (fun k => k.thrcurrent) = some 2 := by
    decide +kernel
  obtain ⟨k, action, observed⟩ := Option.map_eq_some_iff.mp ran
  have reach := Reach.run (fun _ _ h => h) .init action
  exact ⟨k, reach, observed, sleepers_punctual armRpi rpi k reach⟩

def sleepLate : List Act :=
  [.call (.create 128 20), .cont, .call (.resume 1), .call (.create 128 30), .cont,
   .call (.resume 2), .call (.sleep 2), .cont, .call (.create 128 30), .cont, .call (.resume 3),
   .call (.recvtime 0), .cont, .tick, .cont, .cont, .tick]

theorem sleepLate_unpunctual : ∃ k : Kernel armRpi (Quetab armRpi),
    Reach step (fun k x => (k.basicCalls x && k.legal x) = true) (boot armRpi rpi) k ∧
    ¬ k.Punctual := by
  have ran : (run step (fun k x => k.basicCalls x && k.legal x) sleepLate (boot armRpi rpi)).map
      (fun k => (decide (k.log.drop 22 = .sleeping 2 2 false :: k.log.drop 23),
        ticks (k.log.take 22), decide (.ready 2 ∈ k.log.take 22),
        decide (.stkfreed 2 ∈ k.log.take 22))) = some (true, 2, false, false) := by
    decide +kernel
  obtain ⟨k, action, observed⟩ := Option.map_eq_some_iff.mp ran
  simp only [Prod.mk.injEq, decide_eq_true_eq, decide_eq_false_iff_not] at observed
  obtain ⟨entry, two, ready, freed⟩ := observed
  refine ⟨k, Reach.run (fun _ _ h => h) .init action, ?_⟩
  intro punctual
  have split : k.log = k.log.take 22 ++ .sleeping 2 2 false :: k.log.drop 23 := by
    rw [← entry, List.take_append_drop]
  generalize k.log.take 22 = after at split two ready freed
  obtain ⟨-, ended | ⟨-, early, -⟩⟩ := punctual.history 2 2 false _ _ split
  · cases ended <;> simp at ready freed
  · rw [two] at early
    omega

end Kernel

end Xinu
