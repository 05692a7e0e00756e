import Xinu.Proof.Kernel.Boot
import Xinu.Lib.Insertion

namespace Xinu

def readyAt (t : Int) (log : List Event) : Nat := (log.dropWhile (· ≠ .ready t)).length

theorem readyAt_self (t : Int) (log : List Event) : readyAt t (.ready t :: log) = log.length + 1 := by
  simp [readyAt]

theorem readyAt_skip {t : Int} {e : Event} {log : List Event} (other : e ≠ .ready t) :
    readyAt t (e :: log) = readyAt t log := by
  simp [readyAt, other]

theorem readyAt_le (t : Int) (log : List Event) : readyAt t log ≤ log.length :=
  (List.dropWhile_suffix _).length_le

def Event.sched : Event → Bool
  | .ready _ | .chosen _ => true
  | _ => false

namespace Kernel
open Lib
variable {c : Config}

def Before {Q : Type} (k : Kernel c Q) (u v : Int) : Prop :=
  (k.thrtab v).prio < (k.thrtab u).prio ∨
    (k.thrtab v).prio = (k.thrtab u).prio ∧ readyAt u k.log < readyAt v k.log

def readyids (a : Kernel c Lists) : List Int := a.quetab.ids a.readylist

structure Ordered (a : Kernel c Lists) : Prop where
  keys : ∀ t ∈ a.readyids, a.quetab.key t = (a.thrtab t).prio
  sorted : a.readyids.Pairwise a.Before
  chosen : ∀ t, a.log.head? = some (.chosen t) → t = a.thrcurrent ∧ ∀ u ∈ a.readyids, a.Before t u

@[simp] theorem update_prio {f : Int → Thrent} {u t : Int} {e : Thrent}
    (same : e.prio = (f u).prio) : (Function.update f u e t).prio = (f t).prio := by
  by_cases this : t = u
  · subst this
    simpa using same
  · simp [this]

section
variable {x : Act} {b a a' : Kernel c Lists} {t u : Int}

theorem Mid.off_readylist (mid : a.Mid) (state : (a.thrtab t).state ≠ .ready) : t ∉ a.readyids := by
  intro member
  exact state (mid.layout.of_ready (mid.home_of_mem member))

theorem before_congr {v : Int} (prio : ∀ t, t = u ∨ t = v → (a'.thrtab t).prio = (a.thrtab t).prio)
    (time : ∀ t, t = u ∨ t = v → readyAt t a'.log = readyAt t a.log) :
    a'.Before u v ↔ a.Before u v := by
  rw [Before, Before, prio u (.inl rfl), prio v (.inr rfl), time u (.inl rfl), time v (.inr rfl)]

namespace Ordered

theorem like (h : Ordered a) (ids : a'.readyids.Sublist a.readyids)
    (key : ∀ t ∈ a'.readyids, a'.quetab.key t = a.quetab.key t)
    (prio : ∀ t ∈ a'.readyids, (a'.thrtab t).prio = (a.thrtab t).prio)
    (time : ∀ t ∈ a'.readyids, readyAt t a'.log = readyAt t a.log)
    (head : ∀ t, a'.log.head? = some (.chosen t) → a'.log = a.log ∧ a'.thrcurrent = a.thrcurrent ∧
      (a'.thrtab t).prio = (a.thrtab t).prio) : Ordered a' := by
  refine ⟨?_, ?_, ?_⟩
  · intro t on
    rw [key t on, prio t on]
    exact h.keys t (ids.subset on)
  · refine (List.Pairwise.imp_of_mem ?_ (h.sorted.sublist ids))
    intro u v on on' before
    refine (before_congr ?_ ?_).mpr before
    · rintro t (rfl | rfl)
      · exact prio t on
      · exact prio t on'
    · rintro t (rfl | rfl)
      · exact time t on
      · exact time t on'
  · intro t top
    obtain ⟨log, current, same⟩ := head t top
    obtain ⟨here, before⟩ := h.chosen t (log ▸ top)
    refine ⟨here.trans current.symm, fun u on => ?_⟩
    refine (before_congr ?_ ?_).mpr (before u (ids.subset on))
    · rintro v (rfl | rfl)
      · exact same
      · exact prio v on
    · intro v _
      rw [log]

theorem same (h : Ordered a) (ids : a'.readyids = a.readyids)
    (key : ∀ t ∈ a.readyids, a'.quetab.key t = a.quetab.key t)
    (prio : ∀ t, (a'.thrtab t).prio = (a.thrtab t).prio) (current : a'.thrcurrent = a.thrcurrent)
    (log : a'.log = a.log ∨ ∃ e : Event, e.sched = false ∧ a'.log = e :: a.log) : Ordered a' := by
  refine h.like (by rw [ids]) (by rwa [ids]) (fun t _ => prio t) ?_ ?_
  · intro t _
    rcases log with log | ⟨e, other, log⟩
    · rw [log]
    · rw [log, readyAt_skip (by rintro rfl; cases other)]
  · intro t top
    rcases log with log | ⟨e, other, log⟩
    · exact ⟨log, current, prio t⟩
    · rw [log] at top
      cases top
      cases other

theorem makeReady (h : Ordered a) (layout : a.Layout) (lo : 0 ≤ t) (hi : t < c.nthread)
    (off : t ∉ a.readyids) : Ordered (a.makeReady t) := by
  have tab := makeReady_quetab layout lo hi
  have other : ∀ u ∈ a.readyids, u ≠ t := fun u on eq => off (eq ▸ on)
  have time : ∀ u ∈ a.readyids, readyAt u (a.makeReady t).log = readyAt u a.log := by
    intro u on
    have ne : Event.ready t ≠ .ready u := by simpa using (other u on).symm
    simpa using readyAt_skip ne
  have now : readyAt t (a.makeReady t).log = a.log.length + 1 := by simpa using readyAt_self t a.log
  have ids : (a.makeReady t).readyids =
      a.readyids.takeWhile ((a.thrtab t).prio ≤ a.quetab.key ·) ++
        t :: a.readyids.dropWhile ((a.thrtab t).prio ≤ a.quetab.key ·) := by
    simp [readyids, tab, Lists.insert, Lists.put, Lists.setKey]
  have members : ∀ u, u ∈ (a.makeReady t).readyids ↔ u = t ∨ u ∈ a.readyids := by
    intro u
    rw [ids, List.mem_append, List.mem_cons, ← or_left_comm, ← List.mem_append,
      List.takeWhile_append_dropWhile]
  have older : ∀ u ∈ a.readyids, readyAt u (a.makeReady t).log < readyAt t (a.makeReady t).log := by
    intro u on
    rw [time u on, now]
    exact Nat.lt_succ_of_le (readyAt_le u a.log)
  refine ⟨?_, ?_, by simp⟩
  · intro u on
    rw [tab]
    rcases (members u).mp on with rfl | on
    · simp [Lists.insert, Lists.setKey]
    · simpa [Lists.insert, Lists.setKey, Lists.put, other u on] using h.keys u on
  · rw [ids]
    have sorted : a.readyids.Pairwise (a.makeReady t).Before := by
      refine List.Pairwise.imp_of_mem ?_ h.sorted
      intro u v on on' before
      refine (before_congr (by simp) ?_).mpr before
      rintro w (rfl | rfl)
      · exact time w on
      · exact time w on'
    refine Lib.pairwise_insertion sorted ?_ ?_ ?_
    · intro u on high
      rw [decide_eq_true_eq, h.keys u on] at high
      have := older u on
      simp only [Before, makeReady_frame, update_prio]
      simp only [makeReady_frame] at this
      omega
    · intro u on low
      rw [decide_eq_false_iff_not, h.keys u on] at low
      refine .inl ?_
      simp only [makeReady_frame, update_prio]
      omega
    · intro u on v on' before low
      rw [decide_eq_false_iff_not, h.keys u on] at low
      rw [decide_eq_false_iff_not, h.keys v on']
      simp only [Before, makeReady_frame, update_prio] at before
      omega

theorem switch (h : Ordered a) (blocked : a.Blocked) : Ordered a.switch := by
  obtain ⟨t, rest, ids, ready, taken⟩ := blocked.head
  have left : a.switch.readyids = rest := by
    simp [readyids, taken, ids]
  have sorted := h.sorted
  rw [readyids, ids, List.pairwise_cons] at sorted
  have time : ∀ u, readyAt u a.switch.log = readyAt u a.log := by
    intro u
    simpa using readyAt_skip (by simp)
  have before : ∀ u v, a.Before u v → a.switch.Before u v := fun u v =>
    (before_congr (by simp) (fun w _ => time w)).mpr
  have old : ∀ u ∈ rest, u ∈ a.readyids := fun u on => by simp [readyids, ids, on]
  refine ⟨?_, ?_, ?_⟩
  · rw [left]
    intro u on
    have key := h.keys u (old u on)
    simpa [taken] using key
  · rw [left]
    exact sorted.2.imp (before _ _)
  · intro u top
    have here : u = t := by simpa [taken] using top.symm
    subst here
    refine ⟨by simp [taken], ?_⟩
    rw [left]
    exact fun v on => before _ _ (sorted.1 v on)

theorem stay {rest : List Int} (h : Ordered a) (ids : a.quetab.ids a.readylist = t :: rest)
    (higher : a.quetab.key t < (a.thrtab a.thrcurrent).prio) :
    Ordered (a.emit (.chosen a.thrcurrent)) := by
  have time : ∀ u, readyAt u (a.emit (.chosen a.thrcurrent)).log = readyAt u a.log :=
    fun u => readyAt_skip (by simp)
  have sorted := h.sorted
  have first := h.keys t (by simp [readyids, ids])
  rw [readyids, ids, List.pairwise_cons] at sorted
  refine ⟨h.keys, h.sorted.imp (before_congr (by simp) (fun w _ => time w)).mpr, ?_⟩
  intro u top
  have here : u = a.thrcurrent := by simpa using top.symm
  refine ⟨here, fun v on => .inl ?_⟩
  have below : (a.thrtab v).prio ≤ (a.thrtab t).prio := by
    have member : v ∈ t :: rest := ids ▸ on
    rcases List.mem_cons.mp member with rfl | on
    · exact Int.le_refl _
    · have := sorted.1 v on
      simp only [Before] at this
      omega
  rw [here]
  simp only [emit_frame]
  omega

theorem doze (mid : a.Mid) (live : a.isbadtid t = false)
    (off : t ∉ a.readyids) (v : Int) : (a.insertd t a.sleepq v).1.readyids = a.readyids ∧
      ∀ u ∈ a.readyids, (a.insertd t a.sleepq v).1.quetab.key u = a.quetab.key u := by
  have other : a.readylist ≠ a.sleepq := by
    rw [mid.layout.ready, mid.layout.sleep]
    omega
  rw [insertd_lists mid.layout.good_sleep.isq live]
  refine ⟨by simp [readyids, (a.quetab.insertd_ids t a.sleepq v).1, Lists.put, other], ?_⟩
  intro u on
  refine Lists.insertd_key _ (fun eq => off (eq ▸ on)) ?_
  intro asleep
  exact other (Option.some.inj ((mid.home_of_mem on).symm.trans (mid.home_of_mem asleep)))

theorem unsleep (mid : a.Mid) (lo : 0 ≤ t) (hi : t < c.nthread)
    (state : (a.thrtab t).state = .sleep ∨ (a.thrtab t).state = .tmout) :
    (a.unsleep t).1.readyids = a.readyids ∧
      ∀ u ∈ a.readyids, (a.unsleep t).1.quetab.key u = a.quetab.key u := by
  have off : t ∉ a.readyids :=
    mid.off_readylist (by rcases state with state | state <;> simp [state])
  have other : a.readylist ≠ a.sleepq := by
    rw [mid.layout.ready, mid.layout.sleep]
    omega
  have on := (mid.located.mem _ t).mpr (home_sleep lo hi state)
  have ids : (a.unsleep t).1.readyids = a.readyids.erase t := by
    rw [readyids, unsleep_lists lo hi state]
    split <;> simp [readyids, Lists.getitem, Lists.setKey]
  refine ⟨by rw [ids, List.erase_of_not_mem off], ?_⟩
  intro u member
  rw [unsleep_lists lo hi state]
  split
  · rename_i low
    have next := nextid_mem mid on mid.layout.good_sleep low
    have apart : u ≠ Queues.nextid a.quetab t := by
      rintro rfl
      exact other (Option.some.inj ((mid.home_of_mem member).symm.trans (mid.home_of_mem next)))
    simp [Lists.getitem, Lists.setKey, apart]
  · rfl

theorem await {k : Kernel c Lists} {s : Nat} (layout : k.Layout) (bound : s < c.nsem)
    (live : k.isbadtid t = false) : (k.enqueue t (k.semtab s).queue).readyids = k.readyids ∧
      (k.enqueue t (k.semtab s).queue).quetab.key = k.quetab.key := by
  have other := layout.sem_ne_ready bound
  rw [enqueue_lists (layout.good_sem bound).isq live]
  exact ⟨by simp [readyids, Lists.enqueue, Lists.put, other.symm], rfl⟩

theorem leave (h : Ordered a) (inv : a.Inv) (leave : Leave x b a a') : Ordered a' := by
  have live : a.isbadtid a.thrcurrent = false := by simp [inv.lo, inv.hi, inv.running]
  have off : a.thrcurrent ∉ a.readyids := inv.toMid.off_readylist (by simp [inv.running])
  cases leave with
  | yield => exact h.makeReady inv.layout inv.lo inv.hi off
  | suspendSelf => exact h.same rfl (fun _ _ => rfl) (by simp) rfl (.inl rfl)
  | @sleep _ ms =>
      obtain ⟨ids, key⟩ := doze inv.toMid live off (sleepTicks ms)
      exact h.same ids key (by simp) (by simp)
        (.inr ⟨.sleeping a.thrcurrent (sleepTicks ms) false, rfl, by simp⟩)
  | @recvtime _ n =>
      obtain ⟨ids, key⟩ := doze inv.toMid live off n
      exact h.same ids key (by simp) (by simp) (.inr ⟨.sleeping a.thrcurrent n true, rfl, by simp⟩)
  | listen => exact h.same rfl (fun _ _ => rfl) (by simp) rfl (.inl rfl)
  | @await _ _ s _ _ good _ _ _ =>
      obtain ⟨bound, -⟩ := isbadsem_eq_false.mp good
      have counted := like_setCount (k := a) s ((a.semtab s).count - 1)
      obtain ⟨ids, key⟩ := await (k := ((a.setCount s ((a.semtab s).count - 1)).emit
        (.wait a.thrcurrent s true)).setThr a.thrcurrent
          { a.thrtab a.thrcurrent with state := .wait, sem := s }) (t := a.thrcurrent)
        ((inv.layout.fixed counted.toFixed).fixed (.of (by simp))) bound (by simp [inv.lo, inv.hi])
      have queue : ((((a.setCount s ((a.semtab s).count - 1)).emit (.wait a.thrcurrent s true)).setThr
        a.thrcurrent { a.thrtab a.thrcurrent with state := .wait, sem := s }).semtab s).queue =
          (a.semtab s).queue := by simp
      rw [queue] at ids key
      exact h.same ids (fun u _ => congrFun key u) (by simp) (by simp)
        (.inr ⟨.wait a.thrcurrent s true, rfl, by simp⟩)
  | suicide =>
      exact h.same (by simp [readyids]) (fun _ _ => rfl) (by simp) rfl
        (.inr ⟨.stkfreed b.thrcurrent, rfl, rfl⟩)

theorem flush {s : Nat} {ts : List Int} (h : Ordered a) (inv : a.Inv) (bound : s < c.nsem)
    (ids : a.quetab.ids (a.semtab s).queue = ts) : Ordered (a.flush ts) := by
  induction ts generalizing a with
  | nil => exact h
  | cons t ts ih =>
      have member : t ∈ a.quetab.ids (a.semtab s).queue := by simp [ids]
      obtain ⟨waits, -⟩ := inv.layout.of_sem bound (inv.home_of_mem member)
      obtain ⟨lo, hi⟩ := inv.valid member
      obtain ⟨inv₁, left⟩ := inv.flushOne bound ids
      have away := inv.toMid.off_readylist (t := t) (by simp [waits])
      have same : (a.getitem t).readyids = a.readyids := List.erase_of_not_mem away
      have off : Ordered (a.getitem t) := h.same same (fun _ _ => rfl) (by simp) rfl (.inl rfl)
      exact ih (off.makeReady (inv.layout.fixed (.of (by simp))) lo hi (same ▸ away)) inv₁ (by simpa using left)

theorem unlink (h : Ordered a) (mid : a.Mid) (lo : 0 ≤ t) (hi : t < c.nthread) :
    Ordered (a.unlink t) := by
  unfold Kernel.unlink
  split
  · rename_i asleep
    obtain ⟨ids, key⟩ := unsleep mid lo hi (.inl asleep)
    exact h.same ids key (by simp) (by simp) (.inl (by simp))
  · rename_i waits
    refine h.same ?_ (fun _ _ => rfl) (by simp) (by simp) (.inr ⟨.waiterKilled t _, rfl, rfl⟩)
    exact List.erase_of_not_mem (mid.off_readylist (by simp [waits]))
  · exact h.like List.erase_sublist (fun _ _ => rfl) (by simp) (fun _ _ => rfl) (by simp)
  · exact h

theorem move (h : Ordered a) (inv : a.Inv) (move : Move x b a a')
    (stable : ∀ t p, x = .call (.chprio t p) → b.isbadtid t = false →
      (b.thrtab t).state ≠ .ready ∨ p = (b.thrtab t).prio) :
    Ordered a' := by
  have off : ∀ {u}, (a.thrtab u).state ≠ .ready → u ∉ a.readyids := inv.toMid.off_readylist
  -- a thread that is not ready leaves its queue
  have unlinked : ∀ {u}, (a.thrtab u).state ≠ .ready → (a.getitem u).readyids = a.readyids :=
    fun state => List.erase_of_not_mem (off state)
  cases move with
  | ret => exact h.same rfl (fun _ _ => rfl) (by simp) rfl (.inl rfl)
  | returned => exact h.same rfl (fun _ _ => rfl) (by simp) rfl (.inl rfl)
  | finished => exact h.same rfl (fun _ _ => rfl) (by simp) rfl (.inr ⟨_, rfl, rfl⟩)
  | scanned => exact h.same rfl (fun _ _ => rfl) (by simp) rfl (.inl rfl)
  | stay ids higher => exact h.stay ids higher
  | leaves leave => exact (h.leave inv leave).switch (leave.blocked inv)
  | wake lo hi state =>
      refine h.makeReady inv.layout lo hi (off ?_)
      rcases state with ⟨-, state⟩ | ⟨-, -, state | state⟩ <;> simp [state]
  | suspend => exact h.like List.erase_sublist (fun _ _ => rfl) (by simp) (fun _ _ => rfl) (by simp)
  | suspended => exact h.same rfl (fun _ _ => rfl) (by simp) rfl (.inl rfl)
  | @chprio _ t p act good start =>
      refine h.like (List.Sublist.refl _) (fun _ _ => rfl) ?_ (fun _ _ => rfl) (by simp [start])
      intro u on
      by_cases this : u = t
      · subst this
        rcases stable u p act (by simpa [start, isbadtid] using good) with idle | same
        · exact absurd on (off (by simpa [start] using idle))
        · simp [same, start]
      · simp [this]
  | @tick ts rest clktime clkticks _ ids _ _ =>
      have ticked : Ordered (b.countdown clktime clkticks) := by
        refine h.same (by simp [readyids]) ?_ (by simp) (by simp) (.inr ⟨.tick, rfl, by simp⟩)
        intro u on
        simp only [countdown]
        split
        · rfl
        · rename_i t rest ids
          have asleep := inv.layout.of_sleep (inv.home_of_mem (t := t) (q := b.sleepq) (by simp_all))
          have away : t ∉ b.readyids := off (by rcases asleep with state | state <;> simp [state])
          have apart : u ≠ t := fun eq => away (eq ▸ on)
          simp [Lists.setKey, apart]
      refine (Inv.wakes (P := Ordered) (inv.countdown _ _) ticked (by simpa using ids)
        fun a t rest inv h ids => ?_).2
      have off := inv.toMid.off_readylist (t := t)
      have unlinked : (a.thrtab t).state ≠ .ready → (a.getitem t).readyids = a.readyids :=
        fun state => List.erase_of_not_mem (off state)
      have member : t ∈ a.quetab.ids a.sleepq := by simp [ids]
      have asleep := inv.layout.of_sleep (inv.home_of_mem member)
      obtain ⟨lo, hi⟩ := inv.valid member
      have state : (a.thrtab t).state ≠ .ready := by rcases asleep with this | this <;> simp [this]
      have gone : Ordered ((a.getitem t).emit (.woken t)) :=
        h.same (unlinked state) (fun _ _ => rfl) (by simp) rfl (.inr ⟨_, rfl, rfl⟩)
      exact gone.makeReady (inv.layout.fixed (.of (by simp))) lo hi ((unlinked state).symm ▸ off state)
  | deposit => exact h.same rfl (fun _ _ => rfl) (by simp) rfl (.inr ⟨_, rfl, rfl⟩)
  | @deliver _ _ t m _ _ lo hi _ state =>
      have sent : Ordered ((a.deposit t m).ret OK) :=
        h.same rfl (fun _ _ => rfl) (by simp) rfl (.inr ⟨_, rfl, rfl⟩)
      exact sent.makeReady (inv.layout.fixed (.of (by simp))) lo hi (off (by simp [state]))
  | @interrupt _ _ t m _ _ lo hi _ state =>
      have posted := (inv.deposit t m).ret OK
      have sent : Ordered ((a.deposit t m).ret OK) :=
        h.same rfl (fun _ _ => rfl) (by simp) rfl (.inr ⟨_, rfl, rfl⟩)
      obtain ⟨ids, key⟩ := unsleep posted.toMid lo hi (by simp [state])
      have awake : Ordered (((a.deposit t m).ret OK).unsleep t).1 :=
        sent.same ids key (by simp) (by simp) (.inl (by simp))
      exact awake.makeReady (inv.layout.fixed (.of (by simp))) lo hi (ids ▸ off (by simp [state]))
  | take => exact h.same rfl (fun _ _ => rfl) (by simp) (by simp) (.inr ⟨_, rfl, rfl⟩)
  | heard => exact h.same rfl (fun _ _ => rfl) (by simp) (by simp) (.inr ⟨_, rfl, rfl⟩)
  | timedout => exact h.same rfl (fun _ _ => rfl) (by simp) rfl (.inr ⟨_, rfl, rfl⟩)
  | pass => exact h.same rfl (fun _ _ => rfl) (by simp) rfl (.inr ⟨_, rfl, rfl⟩)
  | signal => exact h.same rfl (fun _ _ => rfl) (by simp) rfl (.inr ⟨_, rfl, rfl⟩)
  | @release _ s t rest good negative ids =>
      have member : t ∈ a.quetab.ids (a.semtab s).queue := by simp [ids]
      obtain ⟨waits, -⟩ := inv.layout.of_sem (isbadsem_eq_false.mp good).1 (inv.home_of_mem member)
      obtain ⟨lo, hi⟩ := inv.valid member
      have counted := (like_setCount (k := a) s ((a.semtab s).count + 1)).emit (.signal s)
      have signalled : Ordered ((a.setCount s ((a.semtab s).count + 1)).emit (.signal s)) :=
        h.same rfl (fun _ _ => rfl) (by simp) rfl (.inr ⟨_, rfl, rfl⟩)
      have same := unlinked (u := t) (by simp [waits])
      have gone : Ordered ((((a.setCount s ((a.semtab s).count + 1)).emit (.signal s)).getitem t).emit
          (.released t s)) :=
        signalled.same same (fun _ _ => rfl) (by simp) rfl (.inr ⟨_, rfl, rfl⟩)
      exact gone.makeReady ((inv.layout.fixed counted.toFixed).fixed (.of (by simp))) lo hi
        (same.symm ▸ off (by simp [waits]))
  | @releaseNone _ s =>
      have signalled : Ordered ((a.setCount s ((a.semtab s).count + 1)).emit (.signal s)) :=
        h.same rfl (fun _ _ => rfl) (by simp) rfl (.inr ⟨_, rfl, rfl⟩)
      exact signalled.same rfl (fun _ _ => rfl) (by simp) rfl (.inr ⟨_, rfl, rfl⟩)
  | semcreate => exact h.same rfl (fun _ _ => rfl) (by simp) rfl (.inr ⟨_, rfl, rfl⟩)
  | @semfree _ s good =>
      have flushed := h.flush inv (isbadsem_eq_false.mp good).1 rfl
      exact flushed.same rfl (fun _ _ => rfl) (by simp) rfl (.inr ⟨_, rfl, rfl⟩)
  | full => exact h.same rfl (fun _ _ => rfl) (by simp) rfl (.inl rfl)
  | @create _ t n p i v heap _ _ free =>
      have other : ∀ u ∈ a.readyids, u ≠ (t : Int) := by
        rintro u on rfl
        exact off (by simp [free]) on
      refine h.like (List.Sublist.refl _) (fun _ _ => rfl) ?_ (fun _ _ => rfl) (by simp)
      intro u on
      simp [other u on]
  | kill => exact h.same rfl (fun _ _ => rfl) (by simp) rfl (.inr ⟨_, rfl, rfl⟩)
  | @reap t fs heap _ stack awake other _ =>
      obtain ⟨-, lo, hi⟩ := inv.kills b.thrcurrent t (by simp [stack])
      have inv₁ : (b.freed t fs heap).Inv := (inv.pop stack (by simp)).like (.of (.of (by simp)) (by simp)) rfl rfl
      have freed : Ordered (b.freed t fs heap) :=
        h.same rfl (fun _ _ => rfl) (by simp) rfl (.inr ⟨_, rfl, rfl⟩)
      exact (freed.unlink inv₁.toMid lo hi).same rfl (fun _ _ => rfl) (by simp) rfl (.inl rfl)

end Ordered

end

theorem boot_ordered (c : Config) (p : Platform) : Ordered (bootLists c p) := by
  obtain ⟨fresh, -⟩ := sysinit_fresh (c := c) p (⟨fun _ => [], fun _ => 0, fun _ => 0⟩ : Lists)
  have empty : (bootLists c p).readyids = [] := by rw [readyids, bootLists_quetab]
  have log : (bootLists c p).log = [] := fresh.log
  exact ⟨by simp [empty], by simp [empty], by simp [log]⟩

/-- `chprio` does not change the priority of a thread on the ready list. -/
def stable {Q : Type} (k : Kernel c Q) : Act → Bool
  | .call (.chprio t p) => k.isbadtid t || (k.thrtab t).state ≠ .ready || p = (k.thrtab t).prio
  | _ => true

/-- `resched` has left the processor to `t`. -/
structure Chosen {Q : Type} (k : Kernel c Q) (t : Int) : Prop where
  current : t = k.thrcurrent
  highest : ∀ u : Int, 0 ≤ u → u < c.nthread → (k.thrtab u).state = .ready →
    (k.thrtab u).prio ≤ (k.thrtab t).prio
  first : ∀ u : Int, 0 ≤ u → u < c.nthread → (k.thrtab u).state = .ready →
    (k.thrtab u).prio = (k.thrtab t).prio → readyAt t k.log < readyAt u k.log

theorem ordered_kept : Kept (c := c) (fun k x => (k.basicCalls x && k.legal x && k.stable x) = true)
    Ordered (fun _ _ => Ordered) := by
  refine ⟨?_, ?_, ?_, ?_, ?_, fun _ _ _ _ _ _ _ _ _ h => h⟩
  · intro k call allowed
    simp_all [basicCalls]
  · intro k x allowed
    simp_all [basicCalls]
  · intro k a x rel inv _ allowed
    simp_all
  · intro k k' x b rel allowed inv h action
    cases x with
    | call call => exact h.same rfl (fun _ _ => rfl) (by simp) rfl (.inr ⟨_, rfl, rfl⟩)
    | cont => exact h
    | tick => exact h
  · intro k x b a a' rel allowed invb hb inv h move
    refine h.move inv move ?_
    rintro t p rfl live
    have calm : k.stable (.call (.chprio t p)) = true := by simp_all
    simp only [isbadtid, rel.thrtab] at live ⊢
    simpa [stable, isbadtid, live] using calm

/-- In every run in which no ready thread gets another priority, `resched` leaves the processor to
the thread that has been ready longest of those with the highest priority. -/
theorem highest_chosen (c : Config) (p : Platform) (k : Kernel c (Quetab c))
    (reach : Reach step (fun k x => (k.basicCalls x && k.legal x && k.stable x) = true) (boot c p) k)
    (t : Int) (just : k.log.head? = some (.chosen t)) : k.Chosen t := by
  obtain ⟨a, rel, inv, h, -⟩ := ordered_kept.reach (boot_ordered c p) reach
  obtain ⟨current, before⟩ := h.chosen t (by rw [rel.log]; exact just)
  have ahead : ∀ u : Int, 0 ≤ u → u < c.nthread → (k.thrtab u).state = .ready → k.Before t u := by
    intro u lo hi ready
    have on : u ∈ a.readyids :=
      (inv.located.mem _ u).mpr (home_ready lo hi (by rw [rel.thrtab]; exact ready))
    have := before u on
    simpa only [Before, rel.thrtab, rel.log] using this
  refine ⟨current.trans rel.thrcurrent, fun u lo hi ready => ?_, fun u lo hi ready same => ?_⟩
  · have := ahead u lo hi ready
    simp only [Before] at this
    omega
  · have := ahead u lo hi ready
    simp only [Before] at this
    omega

def yieldEqual : List Act :=
  [.call (.create 128 20), .cont, .call (.resume 1), .call (.create 128 20), .cont,
   .call (.ready 2 false), .cont, .call .resched]

theorem yieldEqual_chosen : ∃ k : Kernel armRpi (Quetab armRpi),
    Reach step (fun k x => (k.basicCalls x && k.legal x && k.stable x) = true) (boot armRpi rpi) k ∧
    k.log.head? = some (.chosen 2) ∧ (k.thrtab 1).state = .ready ∧ k.Chosen 2 := by
  have ran : (run step (fun k x => k.basicCalls x && k.legal x && k.stable x) yieldEqual
      (boot armRpi rpi)).map (fun k => (k.log.head?, (k.thrtab 1).state)) =
      some (some (.chosen 2), .ready) := by
    decide +kernel
  obtain ⟨k, action, observed⟩ := Option.map_eq_some_iff.mp ran
  simp only [Prod.mk.injEq] at observed
  have reach := Reach.run (fun _ _ h => h) .init action
  exact ⟨k, reach, observed.1, observed.2, highest_chosen armRpi rpi k reach 2 observed.1⟩

def chprioReady : List Act :=
  [.call (.create 128 20), .cont, .call (.resume 1), .call (.create 128 10), .cont,
   .call (.resume 2), .cont, .call (.chprio 2 50), .cont, .call .resched]

theorem chprioReady_passed_over : ∃ k : Kernel armRpi (Quetab armRpi),
    Reach step (fun k x => (k.basicCalls x && k.legal x) = true) (boot armRpi rpi) k ∧
    k.log.head? = some (.chosen 1) ∧ ¬ k.Chosen 1 := by
  have ran : (run step (fun k x => k.basicCalls x && k.legal x) chprioReady (boot armRpi rpi)).map
      (fun k => (k.log.head?, (k.thrtab 2).state, (k.thrtab 1).prio, (k.thrtab 2).prio)) =
      some (some (.chosen 1), .ready, 20, 50) := by
    decide +kernel
  obtain ⟨k, action, observed⟩ := Option.map_eq_some_iff.mp ran
  simp only [Prod.mk.injEq] at observed
  obtain ⟨top, ready, own, other⟩ := observed
  refine ⟨k, Reach.run (fun _ _ h => h) .init action, top, ?_⟩
  intro chosen
  have := chosen.highest 2 (by decide) (by decide) ready
  omega

end Kernel

end Xinu
