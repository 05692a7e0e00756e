import Xinu.Proof.Kernel.Untimed
import Mathlib.Data.Finset.Card

namespace Xinu

inductive Life
  | free | live | dying
  deriving DecidableEq

def Life.next : Life → Event → Option Life
  | .free, .created _ => some .live
  | .live, .killed _ => some .dying
  | .dying, .stkfreed _ => some .free
  | _, _ => none

def Event.ofLife (t : Int) : Event → Bool
  | .created u | .killed u | .stkfreed u => u = t
  | _ => false

def lifecycle (t : Int) : List Event → Option Life
  | [] => some (if t = NULLTHREAD then .live else .free)
  | e :: log => if e.ofLife t then (lifecycle t log).bind (·.next e) else lifecycle t log

theorem lifecycle_skip {t : Int} {e : Event} {log : List Event} (other : e.ofLife t = false) :
    lifecycle t (e :: log) = lifecycle t log := by
  simp [lifecycle, other]

theorem lifecycle_cons {t : Int} {e : Event} {log : List Event} {life : Life}
    (own : e.ofLife t = true) (before : lifecycle t log = some life) :
    lifecycle t (e :: log) = life.next e := by
  simp [lifecycle, own, before]

namespace Kernel
open Lib
variable {c : Config}

def alive (c : Config) (log : List Event) : Nat :=
  ((Finset.range c.nthread).filter fun i => lifecycle (i : Nat) log = some .live).card

def used {Q : Type} (k : Kernel c Q) : Nat :=
  ((Finset.range c.nthread).filter fun i => (k.thrtab (i : Nat)).state ≠ .free).card

structure Lives (a : Kernel c Lists) : Prop where
  free : ∀ t, (a.thrtab t).state = .free → lifecycle t a.log = some .free
  dying : ∀ t u, .kill t ∈ a.stack u → lifecycle t a.log = some .dying
  live : ∀ t, (a.thrtab t).state ≠ .free → (∀ u, .kill t ∉ a.stack u) →
    lifecycle t a.log = some .live
  one : ∀ t u v, .kill t ∈ a.stack u → .kill t ∈ a.stack v → u = v
  range : ∀ t u, .kill t ∈ a.stack u → 0 ≤ u ∧ u < c.nthread
  clean : ∀ t u, (a.thrtab u).state = .free → .kill t ∉ a.stack u
  count : a.thrcount = alive c a.log

section
variable {x : Act} {b a a' : Kernel c Lists} {t u : Int} {f : Frame} {fs : List Frame}

theorem alive_flip {log log' : List Event} (lo : 0 ≤ t) (hi : t < c.nthread)
    (same : ∀ u, u ≠ t → lifecycle u log' = lifecycle u log)
    (before : lifecycle t log ≠ some .live) (after : lifecycle t log' = some .live) :
    alive c log' = alive c log + 1 := by
  obtain ⟨n, rfl⟩ := Int.eq_ofNat_of_zero_le lo
  have bound : n < c.nthread := by exact_mod_cast hi
  have more : (Finset.range c.nthread).filter (fun i => lifecycle (i : Nat) log' = some .live) =
      Insert.insert n ((Finset.range c.nthread).filter fun i => lifecycle (i : Nat) log = some .live) := by
    ext i
    by_cases this : i = n
    · subst this
      simp [bound, after]
    · simp [this, same i (by exact_mod_cast this)]
  rw [alive, more, Finset.card_insert_of_notMem (by simp [before])]
  rfl

theorem alive_congr {log log' : List Event} (same : ∀ u, lifecycle u log' = lifecycle u log) :
    alive c log' = alive c log := by
  simp only [alive, same]

namespace Lives

theorem like (h : Lives a) (state : ∀ t, (a'.thrtab t).state = .free ↔ (a.thrtab t).state = .free)
    (kills : ∀ t u, .kill t ∈ a'.stack u ↔ .kill t ∈ a.stack u) (count : a'.thrcount = a.thrcount)
    (log : ∀ t, lifecycle t a'.log = lifecycle t a.log) : Lives a' where
  free t gone := by rw [log]; exact h.free t ((state t).mp gone)
  dying t u pending := by rw [log]; exact h.dying t u ((kills t u).mp pending)
  live t here idle := by
    rw [log]
    exact h.live t (fun gone => here ((state t).mpr gone)) fun u => mt (kills t u).mpr (idle u)
  one t u v on on' := h.one t u v ((kills t u).mp on) ((kills t v).mp on')
  range t u on := h.range t u ((kills t u).mp on)
  clean t u gone := mt (kills t u).mp (h.clean t u ((state u).mp gone))
  count := by rw [count, h.count, alive_congr log]

theorem emit (h : Lives a) {e : Event} (other : ∀ t, e.ofLife t = false) : Lives (a.emit e) :=
  h.like (by simp) (by simp) rfl fun t => lifecycle_skip (other t)

theorem setState (h : Lives a) {s : ThrState} (before : (a.thrtab u).state ≠ .free)
    (after : s ≠ .free) : Lives (a.setState u s) := by
  refine h.like ?_ (by simp) rfl fun _ => rfl
  intro t
  by_cases this : t = u
  · simp [this, before, after]
  · simp [this]

theorem makeReady (h : Lives a) (live : (a.thrtab u).state ≠ .free) : Lives (a.makeReady u) :=
  (h.setState (s := .ready) live (by simp)).like (by simp) (by simp) (by simp) fun t => by
    simp [lifecycle, Event.ofLife]

theorem setStack (h : Lives a) (same : ∀ t, .kill t ∈ fs ↔ .kill t ∈ a.stack u) :
    Lives (a.setStack u fs) := by
  refine h.like (by simp) ?_ rfl fun _ => rfl
  intro t v
  by_cases this : v = u
  · simp [this, same]
  · simp [this]

theorem push (h : Lives a) (other : ∀ t, f ≠ .kill t) : Lives (a.push f) :=
  h.setStack fun t => by simp [Ne.symm (other t)]

theorem switch (h : Lives a) (blocked : a.Blocked) : Lives a.switch := by
  obtain ⟨t, rest, -, ready, taken⟩ := blocked.head
  have chosen := h.setState (u := t) (s := .curr) (by simp [ready]) (by simp)
  exact chosen.like (by simp [taken]) (by simp) (by simp) fun t => by
    simp [lifecycle, Event.ofLife]

theorem flush {s : Nat} {ts : List Int} (h : Lives a) (inv : a.Inv) (bound : s < c.nsem)
    (ids : a.quetab.ids (a.semtab s).queue = ts) : Lives (a.flush ts) := by
  induction ts generalizing a with
  | nil => exact h
  | cons t ts ih =>
      have member : t ∈ a.quetab.ids (a.semtab s).queue := by simp [ids]
      obtain ⟨waits, -⟩ := inv.layout.of_sem bound (inv.home_of_mem member)
      obtain ⟨inv₁, left⟩ := inv.flushOne bound ids
      have off : Lives (a.getitem t) := h.like (by simp) (by simp) rfl fun _ => rfl
      exact ih (off.makeReady (by simp [waits])) inv₁ (by simpa using left)

theorem kill_alone (inv : a.Inv) (stack : a.stack a.thrcurrent = .kill u :: fs) (t : Int) :
    .kill t ∉ fs := by
  intro member
  have bound := inv.shape a.thrcurrent
  rw [stack, List.countP_cons, if_pos (by simp [Frame.isRet])] at bound
  have pos : 0 < fs.countP (!·.isRet) := List.countP_pos_iff.mpr ⟨_, member, rfl⟩
  omega

theorem create {e : Thrent} {k : Kernel c Lists} (h : Lives a) (lo : 0 ≤ u) (hi : u < c.nthread)
    (free : (a.thrtab u).state = .free) (susp : e.state ≠ .free)
    (thrtab : k.thrtab = Function.update a.thrtab u e) (stack : k.stack = Function.update a.stack u [])
    (count : k.thrcount = a.thrcount + 1) (log : k.log = .created u :: a.log) : Lives k := by
  have old := h.free u free
  have born : lifecycle u k.log = some .live := by
    rw [log, lifecycle_cons (by simp [Event.ofLife]) old]
    rfl
  have same : ∀ t, t ≠ u → lifecycle t k.log = lifecycle t a.log := by
    intro t other
    rw [log, lifecycle_skip (by simp [Event.ofLife, Ne.symm other])]
  have nobody : ∀ v, .kill u ∉ a.stack v := by
    intro v pending
    rw [h.dying u v pending] at old
    cases old
  have kills : ∀ t v, .kill t ∈ k.stack v → .kill t ∈ a.stack v := by
    intro t v pending
    by_cases this : v = u
    · simp [stack, this] at pending
    · simpa [stack, this] using pending
  refine ⟨?_, ?_, ?_, ?_, ?_, ?_, ?_⟩
  · intro t gone
    have other : t ≠ u := by
      rintro rfl
      simp [thrtab, susp] at gone
    rw [same t other]
    exact h.free t (by simpa [thrtab, other] using gone)
  · intro t v pending
    have other : t ≠ u := fun eq => nobody v (eq ▸ kills t v pending)
    rw [same t other]
    exact h.dying t v (kills t v pending)
  · intro t here idle
    by_cases this : t = u
    · exact this ▸ born
    · rw [same t this]
      refine h.live t (by simpa [thrtab, this] using here) ?_
      intro v pending
      refine idle v ?_
      by_cases own : v = u
      · exact absurd pending (h.clean t v (own ▸ free))
      · simpa [stack, own] using pending
  · exact fun t v w on on' => h.one t v w (kills t v on) (kills t w on')
  · exact fun t v on => h.range t v (kills t v on)
  · intro t v gone pending
    have other : v ≠ u := by
      rintro rfl
      simp [thrtab, susp] at gone
    exact h.clean t v (by simpa [thrtab, other] using gone) (kills t v pending)
  · rw [count, h.count, alive_flip lo hi same (by simp [old]) born]
    push_cast
    rfl

theorem kill (h : Lives a) (lo : 0 ≤ u) (hi : u < c.nthread) (live : (a.thrtab u).state ≠ .free)
    (idle : ∀ v, .kill u ∉ a.stack v) (inv : a.Inv) :
    Lives ((({ a with thrcount := a.thrcount - 1 } : Kernel c Lists).emit (.killed u)).push
      (.kill u)) := by
  have old := h.live u live idle
  have gone : lifecycle u (.killed u :: a.log) = some .dying := by
    rw [lifecycle_cons (by simp [Event.ofLife]) old]
    rfl
  have same : ∀ t, t ≠ u → lifecycle t (.killed u :: a.log) = lifecycle t a.log := by
    intro t other
    exact lifecycle_skip (by simp [Event.ofLife, Ne.symm other])
  have kills : ∀ t v, .kill t ∈ Function.update a.stack a.thrcurrent
      (.kill u :: a.stack a.thrcurrent) v ↔ t = u ∧ v = a.thrcurrent ∨ .kill t ∈ a.stack v := by
    intro t v
    by_cases this : v = a.thrcurrent <;> simp [this]
  refine ⟨?_, ?_, ?_, ?_, ?_, ?_, ?_⟩
  · intro t free
    have other : t ≠ u := by
      rintro rfl
      exact live free
    exact (same t other).trans (h.free t free)
  · intro t v pending
    rcases (kills t v).mp (by simpa using pending) with ⟨rfl, -⟩ | before
    · exact gone
    · have other : t ≠ u := fun eq => idle v (eq ▸ before)
      exact (same t other).trans (h.dying t v before)
  · intro t here none
    simp only [push_frame, emit_frame, kills, not_or, not_and] at none
    have other : t ≠ u := fun eq => (none a.thrcurrent).1 eq rfl
    exact (same t other).trans (h.live t here fun v => (none v).2)
  · intro t v w on on'
    simp only [push_frame, emit_frame, kills] at on on'
    rcases on with ⟨rfl, rfl⟩ | on <;> rcases on' with ⟨eq, rfl⟩ | on'
    · rfl
    · exact absurd on' (idle w)
    · exact absurd (eq ▸ on) (idle v)
    · exact h.one t v w on on'
  · intro t v on
    simp only [push_frame, emit_frame, kills] at on
    rcases on with ⟨-, rfl⟩ | on
    · exact ⟨inv.lo, inv.hi⟩
    · exact h.range t v on
  · intro t v free
    simp only [push_frame, emit_frame, kills, not_or, not_and] at free ⊢
    refine ⟨fun _ eq => ?_, h.clean t v free⟩
    rw [eq, inv.running] at free
    cases free
  · have fewer : alive c a.log = alive c (.killed u :: a.log) + 1 :=
      alive_flip lo hi (fun t other => (same t other).symm) (by simp [gone]) old
    simp only [push_frame, emit_frame, h.count, fewer]
    push_cast
    omega

theorem reap {k : Kernel c Lists} (h : Lives a) (inv : a.Inv)
    (stack : a.stack a.thrcurrent = .kill u :: fs)
    (alone : u = a.thrcurrent ∨ ∀ t, .kill t ∉ a.stack u)
    (state : ∀ t, (k.thrtab t).state = .free ↔ t = u ∨ (a.thrtab t).state = .free)
    (kills : ∀ t v, .kill t ∈ k.stack v ↔ v ≠ a.thrcurrent ∧ .kill t ∈ a.stack v)
    (count : k.thrcount = a.thrcount)
    (log : ∀ t, lifecycle t k.log = lifecycle t (.stkfreed u :: a.log)) : Lives k := by
  have on : .kill u ∈ a.stack a.thrcurrent := by simp [stack]
  have old := h.dying u _ on
  have gone : lifecycle u k.log = some .free := by
    rw [log, lifecycle_cons (by simp [Event.ofLife]) old]
    rfl
  have same : ∀ t, t ≠ u → lifecycle t k.log = lifecycle t a.log := by
    intro t other
    rw [log, lifecycle_skip (by simp [Event.ofLife, Ne.symm other])]
  have elsewhere : ∀ t, .kill t ∈ a.stack a.thrcurrent → t = u := by
    intro t member
    rw [stack] at member
    rcases List.mem_cons.mp member with eq | member
    · cases eq
      rfl
    · exact absurd member (kill_alone inv stack t)
  refine ⟨?_, ?_, ?_, ?_, ?_, ?_, ?_⟩
  · intro t free
    by_cases this : t = u
    · exact this ▸ gone
    · rw [same t this]
      exact h.free t (((state t).mp free).resolve_left this)
  · intro t v pending
    obtain ⟨other, before⟩ := (kills t v).mp pending
    have ne : t ≠ u := fun eq => other (h.one u v _ (eq ▸ before) on)
    rw [same t ne]
    exact h.dying t v before
  · intro t here idle
    rw [ne_eq, state, not_or] at here
    rw [same t here.1]
    refine h.live t here.2 ?_
    intro v before
    by_cases this : v = a.thrcurrent
    · exact here.1 (elsewhere t (this ▸ before))
    · exact idle v ((kills t v).mpr ⟨this, before⟩)
  · exact fun t v w p p' => h.one t v w ((kills t v).mp p).2 ((kills t w).mp p').2
  · exact fun t v p => h.range t v ((kills t v).mp p).2
  · intro t v free pending
    obtain ⟨other, before⟩ := (kills t v).mp pending
    rcases (state v).mp free with rfl | free
    · rcases alone with eq | none
      · exact other eq
      · exact none t before
    · exact h.clean t v free before
  · have left : alive c k.log = alive c a.log := by
      have unchanged : ∀ i, (lifecycle i k.log = some .live) = (lifecycle i a.log = some .live) := by
        intro i
        by_cases this : i = u
        · simp [this, gone, old]
        · rw [same i this]
      simp only [alive, unchanged]
    rw [count, h.count, left]

theorem send (h : Lives a) (u m : Int) : Lives ((a.deposit u m).ret OK) := by
  have posted : Lives (a.deposit u m) :=
    h.like (fun t => by rw [deposit_state]) (by simp) rfl fun _ => lifecycle_skip rfl
  exact posted.push (by simp)

theorem takeMessage (h : Lives a) : Lives a.takeMessage := by
  have taken := h.push (f := .ret (a.thrtab a.thrcurrent).msg) (by simp)
  exact taken.like (fun t => by rw [takeMessage_state]; rfl) (by simp) rfl fun _ => lifecycle_skip rfl

theorem leave (h : Lives a) (inv : a.Inv) (leave : Leave x b a a') : Lives a' := by
  have live : (a.thrtab a.thrcurrent).state ≠ .free := by simp [inv.running]
  have gone : ∀ {s}, s ≠ .free → Lives (a.setState a.thrcurrent s) := h.setState live
  cases leave with
  | yield => exact h.makeReady live
  | suspendSelf => exact (gone (s := .susp) (by simp)).push (by simp)
  | sleep =>
      exact ((gone (s := .sleep) (by simp)).push (f := .ret OK) (by simp)).like (by simp) (by simp)
        (by simp) fun t => by simp [lifecycle, Event.ofLife]
  | recvtime =>
      exact ((gone (s := .tmout) (by simp)).push (f := .recvtime) (by simp)).like (by simp) (by simp)
        (by simp) fun t => by simp [lifecycle, Event.ofLife]
  | listen => exact (gone (s := .recv) (by simp)).push (by simp)
  | await =>
      refine ((gone (s := .wait) (by simp)).push (f := .ret OK) (by simp)).like ?_ (by simp) (by simp)
        fun t => by simp [lifecycle, Event.ofLife]
      intro t
      by_cases this : t = a.thrcurrent <;> simp [this]
  | @suicide fs heap cont stack =>
      refine h.reap inv stack (.inl rfl) ?_ ?_ (by simp) fun t => by simp
      · intro t
        by_cases this : t = b.thrcurrent <;> simp [this]
      · intro t v
        have alone := kill_alone inv stack t
        by_cases this : v = b.thrcurrent <;> simp [this, alone]

theorem move (h : Lives a) (inv : a.Inv) (move : Move x b a a')
    (idle : ∀ t, x = .call (.kill t) → ∀ v, .kill t ∉ b.stack v)
    (alone : x = .cont → ∀ t fs, b.stack b.thrcurrent = .kill t :: fs → t = b.thrcurrent ∨
      ∀ v, .kill v ∉ b.stack t) : Lives a' := by
  cases move with
  | ret => exact h.push (by simp)
  | returned _ stack => exact h.setStack fun t => by simp [stack]
  | finished _ stack =>
      exact (h.setStack fun t => by simp [stack]).emit fun _ => rfl
  | scanned => exact h.like (by simp) (by simp) rfl fun _ => rfl
  | stay => exact h.emit fun _ => rfl
  | leaves leave => exact (h.leave inv leave).switch (leave.blocked inv)
  | @wake _ t _ _ state =>
      refine h.makeReady ?_
      rcases state with ⟨-, state⟩ | ⟨-, -, state | state⟩ <;> simp [state]
  | @suspend _ t _ _ _ _ ready =>
      exact (h.setState (u := t) (s := .susp) (by simp [ready]) (by simp)).like (by simp) (by simp)
        (by simp) fun _ => rfl
  | suspended _ stack =>
      exact (h.setStack fun t => by simp [stack]).push (by simp)
  | @chprio _ t =>
      refine h.like ?_ (by simp) (by simp) fun _ => rfl
      intro u
      by_cases this : u = t <;> simp [this]
  | @tick ts rest clktime clkticks _ ids _ _ =>
      have ticked : Lives (b.countdown clktime clkticks) :=
        h.like (by simp) (by simp) (by simp) fun _ => by simpa using lifecycle_skip rfl
      refine (Inv.wakes (P := Lives) (inv.countdown _ _) ticked (by simpa using ids)
        fun a t rest inv h ids => ?_).2
      have asleep := inv.layout.of_sleep (inv.home_of_mem (t := t) (by simp [ids]))
      have off : Lives ((a.getitem t).emit (.woken t)) :=
        h.like (by simp) (by simp) rfl fun _ => lifecycle_skip rfl
      refine off.makeReady ?_
      rcases asleep with state | state <;> simp [state]
  | deposit => exact h.send _ _
  | deliver _ _ _ _ _ state => exact (h.send _ _).makeReady (by simp [state])
  | @interrupt _ _ t m _ _ _ _ _ state =>
      have off : Lives (((a.deposit t m).ret OK).unsleep t).1 :=
        (h.send t m).like (by simp) (by simp) (by simp) fun _ => by simp
      exact off.makeReady (by simp [state])
  | take => exact h.takeMessage
  | heard _ stack =>
      refine (h.setStack fun t => ?_).takeMessage
      rcases stack with stack | ⟨stack, -⟩ <;> simp [stack]
  | timedout _ stack _ =>
      exact ((h.setStack fun t => by simp [stack]).emit fun _ => rfl).push (by simp)
  | pass => exact h.like (by simp) (by simp) rfl fun _ => lifecycle_skip rfl
  | signal => exact h.like (by simp) (by simp) rfl fun _ => lifecycle_skip rfl
  | @release _ s t rest good _ ids =>
      obtain ⟨waits, -⟩ := inv.layout.of_sem (isbadsem_eq_false.mp good).1
        (inv.home_of_mem (t := t) (by simp [ids]))
      have off : Lives ((((a.setCount s ((a.semtab s).count + 1)).emit (.signal s)).getitem t).emit
          (.released t s)) := h.like (by simp) (by simp) rfl fun t => by simp [lifecycle, Event.ofLife]
      exact off.makeReady (by simp [waits])
  | releaseNone =>
      exact h.like (by simp) (by simp) rfl fun t => by simp [lifecycle, Event.ofLife]
  | semcreate => exact h.like (by simp) (by simp) rfl fun _ => lifecycle_skip rfl
  | @semfree _ s good =>
      exact (h.flush inv (isbadsem_eq_false.mp good).1 rfl).like (by simp) (by simp) rfl
        fun _ => lifecycle_skip rfl
  | full => exact h.like (by simp) (by simp) rfl fun _ => rfl
  | create _ bound free =>
      exact h.create (by omega) (by exact_mod_cast bound) free (by simp) rfl rfl rfl rfl
  | @kill _ t act good _ _ start _ =>
      obtain ⟨lo, hi, live⟩ := (isbadtid_eq_false _ _).mp good
      have none := idle t act
      exact h.kill lo hi live (by simpa [start] using none) inv
  | @reap t fs heap cont stack _ _ _ =>
      refine h.reap inv stack (alone cont t fs stack) ?_ ?_ (by simp) ?_
      · intro u
        by_cases this : u = t <;> simp [this]
      · intro u v
        have only := kill_alone inv stack u
        by_cases this : v = b.thrcurrent <;> simp [this, only]
      · intro u
        simp only [ret_frame, setState_frame, unlink_frame, freed_frame]
        split <;> simp [lifecycle, Event.ofLife]

end Lives

theorem boot_lives (c : Config) (p : Platform) : Lives (bootLists c p) := by
  obtain ⟨fresh, -⟩ := sysinit_fresh (c := c) p (⟨fun _ => [], fun _ => 0, fun _ => 0⟩ : Lists)
  have life : ∀ t, lifecycle t (bootLists c p).log =
      some (if t = NULLTHREAD then .live else .free) := by
    intro t
    rw [bootLists, fresh.log]
    rfl
  have state : ∀ t, ((bootLists c p).thrtab t).state = if t = NULLTHREAD then .curr else .free := by
    intro t
    rw [bootLists, fresh.thrtab]
    by_cases this : t = NULLTHREAD <;> simp [this]
  have idle : ∀ t u, .kill t ∉ (bootLists c p).stack u := by simp [bootLists, fresh.stack]
  refine ⟨?_, fun t u on => absurd on (idle t u), ?_, fun t u v on => absurd on (idle t u),
    fun t u on => absurd on (idle t u), fun t u _ => idle t u, ?_⟩
  · intro t free
    rw [state] at free
    split at free
    · cases free
    · rename_i other
      rw [life, if_neg other]
  · intro t here _
    rw [state] at here
    split at here
    · rename_i null
      rw [life, if_pos null]
    · exact absurd rfl here
  · rw [bootLists, fresh.thrcount, fresh.log, alive]
    have only : (Finset.range c.nthread).filter (fun i => lifecycle (i : Nat) [] = some .live) = {0} := by
      ext i
      have pos := c.nthread_pos
      simp only [Finset.mem_filter, Finset.mem_range, lifecycle, Option.some.injEq, ite_eq_left_iff,
        Finset.mem_singleton, reduceCtorEq, imp_false, not_not, NULLTHREAD]
      omega
    rw [only]
    rfl

theorem Lives.used (h : Lives a) (idle : ∀ u t, .kill t ∉ a.stack u) : a.thrcount = a.used := by
  rw [h.count, alive, Kernel.used]
  congr 2
  refine Finset.filter_congr fun i _ => ⟨?_, ?_⟩
  · intro live free
    rw [h.free i free] at live
    cases live
  · exact fun here => h.live i here fun u => idle u i

end

/-- The thread count and the histories of the threads are right. -/
structure Accounted {Q : Type} (k : Kernel c Q) : Prop where
  count : (∀ u t, .kill t ∉ k.stack u) → k.thrcount = k.used
  once : ∀ t, ∃ life, lifecycle t k.log = some life

/-- `kill(t)` is called only when no other `kill(t)` is pending, and when it comes back from `send`
to tear `t` down, no `kill` that `t` has called is pending. -/
def killsOnce {Q : Type} (k : Kernel c Q) : Act → Bool
  | .call (.kill t) => (List.range c.nthread).all fun u => .kill t ∉ k.stack (u : Nat)
  | .cont =>
      match k.stack k.thrcurrent with
      | .kill t :: _ => t = k.thrcurrent || (k.stack t).all fun | .kill _ => false | _ => true
      | _ => true
  | _ => true

theorem lives_kept : Kept (c := c) (fun k x => (k.untimedCalls x && k.killsOnce x) = true)
    (fun a => Untimed a ∧ Lives a) (fun _ _ a => Untimed a ∧ Lives a) := by
  refine Kept.untimed (fun k x allowed => by simp_all) ?_ ?_ (fun _ _ _ _ _ _ _ _ _ h => h)
  · intro k k' x b rel allowed inv h action
    cases x with
    | call call => exact h.emit fun _ => rfl
    | cont => exact h
    | tick => exact h
  · intro k x b a a' rel allowed invb hb inv _ h move
    simp only [Bool.and_eq_true] at allowed
    refine h.move inv move ?_ ?_
    · rintro t rfl u pending
      obtain ⟨lo, hi⟩ := hb.range t u pending
      obtain ⟨n, rfl⟩ := Int.eq_ofNat_of_zero_le lo
      have none := allowed.2
      simp only [killsOnce, List.all_eq_true, List.mem_range, decide_eq_true_eq] at none
      rw [rel.stack] at pending
      exact none n (by exact_mod_cast hi) pending
    · rintro rfl t fs stack
      have only := allowed.2
      rw [rel.stack, rel.thrcurrent] at stack
      simp only [killsOnce, stack, Bool.or_eq_true, decide_eq_true_eq, List.all_eq_true] at only
      rw [rel.stack, rel.thrcurrent]
      exact only.imp id fun none v pending => by simpa using none _ pending

/-- In every run that meets the condition of `killsOnce` the threads are accounted for. -/
theorem threads_accounted (c : Config) (p : Platform) (k : Kernel c (Quetab c))
    (reach : Reach step (fun k x => (k.untimedCalls x && k.killsOnce x) = true) (boot c p) k) :
    k.Accounted := by
  obtain ⟨a, rel, -, ⟨-, h⟩, -⟩ := lives_kept.reach ⟨boot_untimed c p, boot_lives c p⟩ reach
  refine ⟨?_, ?_⟩
  · intro idle
    have count := h.used (by rwa [rel.stack])
    rw [Kernel.used, rel.thrtab] at count
    cases rel
    exact count
  · intro t
    rw [← rel.log]
    by_cases free : (a.thrtab t).state = .free
    · exact ⟨_, h.free t free⟩
    · by_cases pending : ∃ u, .kill t ∈ a.stack u
      · obtain ⟨u, on⟩ := pending
        exact ⟨_, h.dying t u on⟩
      · exact ⟨_, h.live t free fun u on => pending ⟨u, on⟩⟩

def killAgain : List Act :=
  [.call (.create 128 20), .cont, .call (.resume 1), .call (.create 128 10), .cont,
   .call (.kill 2), .cont, .cont, .cont, .call (.create 128 10), .cont]

theorem killAgain_accounted : ∃ k, Reach step
    (fun k x => (k.untimedCalls x && k.killsOnce x) = true) (boot armRpi rpi) k ∧
    k.thrcount = 3 ∧ lifecycle 2 k.log = some .free ∧ k.Accounted := by
  have ran : (run step (fun k x => k.untimedCalls x && k.killsOnce x) killAgain
      (boot armRpi rpi)).map (fun k => (k.thrcount, lifecycle 2 k.log)) = some (3, some .free) := by
    decide +kernel
  obtain ⟨k, action, observed⟩ := Option.map_eq_some_iff.mp ran
  simp only [Prod.mk.injEq] at observed
  have reach := Reach.run (fun _ _ h => h) .init action
  exact ⟨k, reach, observed.1, observed.2, threads_accounted armRpi rpi k reach⟩

def killTwice : List Act :=
  [.call (.create 128 20), .cont, .call (.resume 1), .call (.create 128 30), .cont,
   .call (.resume 2), .call (.create 128 10), .cont, .call .receive, .cont, .call (.kill 3),
   .cont, .cont, .call (.kill 3), .cont, .cont, .cont, .call .receive, .cont, .call .receive,
   .cont, .cont, .cont]

theorem killTwice_unaccounted : ∃ k, Reach step (fun k x => k.untimedCalls x = true)
    (boot armRpi rpi) k ∧ ¬ k.Accounted := by
  have ran : (run step untimedCalls killTwice (boot armRpi rpi)).map
      (fun k => (k.thrcount, lifecycle 3 k.log, k.log.count (.killed 3), k.log.count (.stkfreed 3),
        k.used)) =
      some (2, none, 2, 2, 3) := by
    decide +kernel
  obtain ⟨k, action, observed⟩ := Option.map_eq_some_iff.mp ran
  simp only [Prod.mk.injEq] at observed
  refine ⟨k, Reach.run (fun _ _ h => h) .init action, ?_⟩
  intro accounted
  obtain ⟨life, eq⟩ := accounted.once 3
  rw [observed.2.1] at eq
  cases eq

end Kernel

end Xinu
