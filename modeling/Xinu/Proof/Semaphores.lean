import Xinu.Proof.Kernel.Untimed

namespace Xinu

structure Tally where
  initial : Int
  signals : Nat
  waits : Nat
  killed : Nat

def Tally.count (n : Tally) : Int := n.signals + n.initial - n.waits + n.killed

def Event.ofSem (s : Nat) : Event → Bool
  | .semcreate u _ | .semfree u | .wait _ u _ | .signal u | .released _ u | .waiterKilled _ u => u = s
  | _ => false

def Tally.next (n : Tally) : Event → Tally
  | .semcreate _ count => ⟨count, 0, 0, 0⟩
  | .signal _ => { n with signals := n.signals + 1 }
  | .wait _ _ _ => { n with waits := n.waits + 1 }
  | .waiterKilled _ _ => { n with killed := n.killed + 1 }
  | _ => n

def tally (s : Nat) : List Event → Tally
  | [] => ⟨0, 0, 0, 0⟩
  | e :: log => if e.ofSem s then (tally s log).next e else tally s log

def nextWaiters (ids : List Int) : Event → Option (List Int)
  | .semcreate _ _ => if ids = [] then some [] else none
  | .semfree _ => some []
  | .wait t _ blocks => some (if blocks then ids ++ [t] else ids)
  | .released t _ => if ids.head? = some t then some ids.tail else none
  | .waiterKilled t _ => if t ∈ ids then some (ids.erase t) else none
  | _ => some ids

def waiters (s : Nat) : List Event → Option (List Int)
  | [] => some []
  | e :: log => if e.ofSem s then (waiters s log).bind (nextWaiters · e) else waiters s log

def ledger (s : Nat) (log : List Event) : Tally × Option (List Int) := (tally s log, waiters s log)

theorem ledger_skip {s : Nat} {e : Event} {log : List Event} (other : e.ofSem s = false) :
    ledger s (e :: log) = ledger s log := by
  simp [ledger, tally, waiters, other]

theorem ledger_cons {s : Nat} {e : Event} {log : List Event} {n : Tally} {ids : List Int}
    (own : e.ofSem s = true) (before : ledger s log = (n, some ids)) :
    ledger s (e :: log) = (n.next e, nextWaiters ids e) := by
  simp only [ledger, Prod.mk.injEq] at before
  simp [ledger, tally, waiters, own, before]

namespace Kernel
open Lib
variable {c : Config}

def semqueue (a : Kernel c Lists) (s : Nat) : List Int := a.quetab.ids (a.semtab s).queue

structure SemOk (a : Kernel c Lists) (s : Nat) (n : Tally) : Prop where
  history : ledger s a.log = (n, some (a.semqueue s))
  free : (a.semtab s).state = .free → a.semqueue s = []
  count : (a.semtab s).state = .used → (a.semtab s).count = n.count
  length : (a.semtab s).state = .used → ((a.semqueue s).length : Int) = max 0 (-(a.semtab s).count)

def Sems (a : Kernel c Lists) : Prop := ∀ s, s < c.nsem → ∃ n, SemOk a s n

section
variable {x : Act} {b a a' : Kernel c Lists} {s : Nat} {t : Int} {n : Tally}

theorem SemOk.keep (h : SemOk a s n) (sem : a'.semtab s = a.semtab s)
    (queue : a'.semqueue s = a.semqueue s) (log : ledger s a'.log = ledger s a.log) :
    SemOk a' s n := by
  refine ⟨?_, ?_, ?_, ?_⟩
  · rw [log, queue]; exact h.history
  · rw [sem, queue]; exact h.free
  · rw [sem]; exact h.count
  · rw [sem, queue]; exact h.length

theorem Sems.like (h : Sems a) (sem : a'.semtab = a.semtab)
    (queue : ∀ s, s < c.nsem → a'.semqueue s = a.semqueue s)
    (log : ∀ s, ledger s a'.log = ledger s a.log) : Sems a' := by
  intro s bound
  obtain ⟨n, ok⟩ := h s bound
  exact ⟨n, ok.keep (by rw [sem]) (queue s bound) (log s)⟩

theorem Mid.off_sem (mid : a.Mid) (bound : s < c.nsem) (state : (a.thrtab t).state ≠ .wait) :
    t ∉ a.semqueue s := by
  intro member
  exact state (mid.layout.of_sem bound (mid.home_of_mem member)).1

@[simp] theorem emit_semqueue (e : Event) (u : Nat) : (a.emit e).semqueue u = a.semqueue u := rfl

@[simp] theorem setThr_semqueue (e : Thrent) (u : Nat) :
    (a.setThr t e).semqueue u = a.semqueue u := rfl

@[simp] theorem setState_semqueue (st : ThrState) (u : Nat) :
    (a.setState t st).semqueue u = a.semqueue u := rfl

@[simp] theorem push_semqueue (f : Frame) (u : Nat) : (a.push f).semqueue u = a.semqueue u := rfl

@[simp] theorem ret_semqueue (v : Int) (u : Nat) : (a.ret v).semqueue u = a.semqueue u := rfl

@[simp] theorem setCount_semqueue (s u : Nat) (v : Int) :
    (a.setCount s v).semqueue u = a.semqueue u := by
  by_cases this : u = s <;> simp [semqueue, this]

@[simp] theorem getitem_semqueue (u : Nat) :
    (a.getitem t).semqueue u = (a.semqueue u).erase t := rfl

theorem makeReady_semqueue (layout : a.Layout) (lo : 0 ≤ t) (hi : t < c.nthread)
    (bound : s < c.nsem) : (a.makeReady t).semqueue s = a.semqueue s := by
  have same := makeReady_ids_ne layout lo hi (layout.sem_ne_ready bound)
  simpa [semqueue] using same

theorem Blocked.switch_semqueue (blocked : a.Blocked) (bound : s < c.nsem) :
    a.switch.semqueue s = a.semqueue s := by
  obtain ⟨t, rest, -, ready, taken⟩ := blocked.head
  have off := blocked.toMid.off_sem (t := t) bound (by simp [ready])
  have same : a.switch.semqueue s = (a.semqueue s).erase t := by
    simp [semqueue, taken]
  rw [same, List.erase_of_not_mem off]

theorem insertd_semqueue (layout : a.Layout) (live : a.isbadtid t = false) (v : Int)
    (bound : s < c.nsem) : (a.insertd t a.sleepq v).1.semqueue s = a.semqueue s := by
  have other : (a.semtab s).queue ≠ a.sleepq := by
    rw [layout.sems s bound, layout.sleep]
    omega
  rw [insertd_lists layout.good_sleep.isq live]
  simp [semqueue, (a.quetab.insertd_ids t a.sleepq v).1, Lists.put, other]

theorem Mid.unsleep_semqueue (mid : a.Mid) (lo : 0 ≤ t) (hi : t < c.nthread)
    (state : (a.thrtab t).state = .sleep ∨ (a.thrtab t).state = .tmout) (bound : s < c.nsem) :
    (a.unsleep t).1.semqueue s = a.semqueue s := by
  have off := mid.off_sem (t := t) bound (by rcases state with state | state <;> simp [state])
  have same : (a.unsleep t).1.quetab.ids (a.semtab s).queue = (a.semqueue s).erase t := by
    rw [unsleep_lists lo hi state]
    split <;> rfl
  rw [List.erase_of_not_mem off] at same
  simpa [semqueue] using same

theorem flush_semqueue {ts : List Int} (inv : a.Inv) (bound : s < c.nsem) (ids : a.semqueue s = ts) :
    (a.flush ts).semqueue s = [] ∧
    (∀ u, u < c.nsem → u ≠ s → (a.flush ts).semqueue u = a.semqueue u) ∧
    ∀ u, ledger u (a.flush ts).log = ledger u a.log := by
  induction ts generalizing a with
  | nil => exact ⟨ids, fun _ _ _ => rfl, fun _ => rfl⟩
  | cons t ts ih =>
      have member : t ∈ a.semqueue s := by simp [ids]
      obtain ⟨lo, hi⟩ := inv.valid member
      obtain ⟨inv₁, left⟩ := inv.flushOne bound ids
      obtain ⟨empty, others, log⟩ := ih inv₁ (by simpa [semqueue] using left)
      refine ⟨empty, fun u bound' other => ?_, fun u => ?_⟩
      · refine (others u bound' other).trans ?_
        have off : t ∉ a.semqueue u := by
          intro on
          have here := (inv.layout.of_sem bound (inv.home_of_mem member)).2.1
          have there := (inv.layout.of_sem bound' (inv.home_of_mem on)).2.1
          exact other (there.symm.trans here)
        rw [makeReady_semqueue (inv.layout.fixed (.of (by simp))) lo hi bound', getitem_semqueue,
          List.erase_of_not_mem off]
      · refine (log u).trans ?_
        simp [ledger, tally, waiters, Event.ofSem]

namespace Sems

theorem makeReady (h : Sems a) (layout : a.Layout) (lo : 0 ≤ t) (hi : t < c.nthread) :
    Sems (a.makeReady t) :=
  h.like (by simp) (fun s bound => makeReady_semqueue layout lo hi bound) fun s => by
    simp [ledger, tally, waiters, Event.ofSem]

theorem switch (h : Sems a) (blocked : a.Blocked) : Sems a.switch :=
  h.like (by simp) (fun s bound => blocked.switch_semqueue bound) fun s => by
    simp [ledger, tally, waiters, Event.ofSem]

theorem one (h : Sems a) (sem : ∀ u, u ≠ s → a'.semtab u = a.semtab u)
    (queue : ∀ u, u < c.nsem → u ≠ s → a'.semqueue u = a.semqueue u)
    (log : ∀ u, u ≠ s → ledger u a'.log = ledger u a.log)
    (own : s < c.nsem → ∀ n, SemOk a s n → ∃ n', SemOk a' s n') : Sems a' := by
  intro u bound
  obtain ⟨n, ok⟩ := h u bound
  by_cases this : u = s
  · subst this
    exact own bound n ok
  · exact ⟨n, ok.keep (sem u this) (queue u bound this) (log u this)⟩

theorem event {e : Event} (h : Sems a) (good : a.isbadsem s = false) (own : ∀ u, e.ofSem u = decide (s = u))
    (sem : ∀ u, u ≠ s → a'.semtab u = a.semtab u) (state : (a'.semtab s).state = .used)
    (queue : ∀ u, u < c.nsem → u ≠ s → a'.semqueue u = a.semqueue u)
    (log : ∀ u, ledger u a'.log = ledger u (e :: a.log))
    (moved : nextWaiters (a.semqueue s) e = some (a'.semqueue s))
    (count : ∀ n : Tally, (a.semtab s).count = n.count → (a'.semtab s).count = (n.next e).count)
    (length : ((a.semqueue s).length : Int) = max 0 (-(a.semtab s).count) →
      ((a'.semqueue s).length : Int) = max 0 (-(a'.semtab s).count)) : Sems a' := by
  have used := (isbadsem_eq_false.mp good).2
  refine h.one (s := s) sem queue ?_ ?_
  · intro u other
    rw [log, ledger_skip (by simp [own, Ne.symm other])]
  · intro bound n ok
    refine ⟨n.next e, ?_, by simp [state], fun _ => count n (ok.count used),
      fun _ => length (ok.length used)⟩
    rw [log, ledger_cons (by simp [own]) ok.history, moved]

theorem pass (h : Sems a) (good : a.isbadsem s = false) (positive : 0 < (a.semtab s).count) :
    Sems ((a.setCount s ((a.semtab s).count - 1)).emit (.wait t s false)) := by
  have used := (isbadsem_eq_false.mp good).2
  refine h.event (e := .wait t s false) good (fun u => rfl) (fun u other => by simp [other])
    (by simp [used]) (by simp) (fun _ => rfl) (by simp [nextWaiters]) ?_ ?_
  · intro n count
    simp [Tally.count, Tally.next] at count ⊢
    omega
  · intro length
    simp
    omega

theorem await (h : Sems a) (inv : a.Inv) (good : a.isbadsem s = false)
    (negative : (a.semtab s).count ≤ 0) :
    Sems (((((a.setCount s ((a.semtab s).count - 1)).emit (.wait a.thrcurrent s true)).setThr
      a.thrcurrent { a.thrtab a.thrcurrent with state := .wait, sem := s }).enqueue a.thrcurrent
        (a.semtab s).queue).ret OK) := by
  obtain ⟨bound, used⟩ := isbadsem_eq_false.mp good
  have live : (((a.setCount s ((a.semtab s).count - 1)).emit (.wait a.thrcurrent s true)).setThr
      a.thrcurrent { a.thrtab a.thrcurrent with state := .wait, sem := s }).isbadtid a.thrcurrent =
      false := by
    simp [inv.lo, inv.hi]
  have queue : ∀ u, u < c.nsem → u ≠ s → (a.semtab u).queue ≠ (a.semtab s).queue := by
    intro u bound' other
    rw [inv.layout.sems u bound', inv.layout.sems s bound]
    omega
  rw [enqueue_lists (inv.layout.good_sem bound).isq live]
  refine h.event (e := .wait a.thrcurrent s true) good (fun u => rfl) (fun u other => by simp [other])
    (by simp [used]) ?_ (fun _ => rfl) ?_ ?_ ?_
  · intro u bound' other
    simp [semqueue, Lists.enqueue, Lists.put, other, queue u bound' other]
  · simp [semqueue, nextWaiters, Lists.enqueue, Lists.put]
  · intro n count
    simp [Tally.count, Tally.next] at count ⊢
    omega
  · intro length
    simp only [semqueue] at length ⊢
    simp [Lists.enqueue, Lists.put]
    omega

theorem signal (h : Sems a) (good : a.isbadsem s = false) (positive : 0 ≤ (a.semtab s).count) :
    Sems ((a.setCount s ((a.semtab s).count + 1)).emit (.signal s)) := by
  have used := (isbadsem_eq_false.mp good).2
  refine h.event (e := .signal s) good (fun u => rfl) (fun u other => by simp [other])
    (by simp [used]) (by simp) (fun _ => rfl) (by simp [nextWaiters]) ?_ ?_
  · intro n count
    simp [Tally.count, Tally.next] at count ⊢
    omega
  · intro length
    simp
    omega

theorem release {rest : List Int} (h : Sems a) (inv : a.Inv) (good : a.isbadsem s = false)
    (negative : (a.semtab s).count < 0) (ids : a.semqueue s = t :: rest) :
    Sems ((((a.setCount s ((a.semtab s).count + 1)).emit (.signal s)).getitem t).emit
      (.released t s)) := by
  obtain ⟨bound, used⟩ := isbadsem_eq_false.mp good
  have member : t ∈ a.semqueue s := by simp [ids]
  have left : ((((a.setCount s ((a.semtab s).count + 1)).emit (.signal s)).getitem t).emit
      (.released t s)).semqueue s = rest := by
    simp [ids]
  refine h.one (s := s) (fun u other => by simp [other]) ?_ ?_ ?_
  · intro u bound' other
    have off : t ∉ a.semqueue u := by
      intro on
      have here := (inv.layout.of_sem bound (inv.home_of_mem member)).2.1
      have there := (inv.layout.of_sem bound' (inv.home_of_mem on)).2.1
      exact other (there.symm.trans here)
    simp [off]
  · intro u other
    exact (ledger_skip (e := .released t s) (by simp [Event.ofSem, Ne.symm other])).trans
      (ledger_skip (e := .signal s) (by simp [Event.ofSem, Ne.symm other]))
  · intro _ n ok
    have signalled : ledger s (.signal s :: a.log) = (n.next (.signal s), some (a.semqueue s)) :=
      ledger_cons (by simp [Event.ofSem]) ok.history
    refine ⟨(n.next (.signal s)).next (.released t s), ?_, by simp [used], fun _ => ?_, fun _ => ?_⟩
    · refine (ledger_cons (e := .released t s) (by simp [Event.ofSem]) signalled).trans ?_
      rw [left, ids]
      simp [nextWaiters]
    · have count := ok.count used
      simp [Tally.count, Tally.next] at count ⊢
      omega
    · have length := ok.length used
      rw [ids] at length
      rw [left]
      simp at length ⊢
      omega

theorem waiterKilled (h : Sems a) (inv : a.Inv) (lo : 0 ≤ t) (hi : t < c.nthread)
    (waits : (a.thrtab t).state = .wait) (frames : ∀ f, a.frame t = some f → f.onFuture = false) :
    Sems (((a.setCount (a.thrtab t).sem ((a.semtab (a.thrtab t).sem).count + 1)).emit
      (.waiterKilled t (a.thrtab t).sem)).getitem t) := by
  have on : ∀ {u}, u < c.nsem → (t ∈ a.semqueue u ↔ u = (a.thrtab t).sem) := by
    intro u bound
    refine ⟨fun on => (inv.layout.of_sem bound (inv.home_of_mem on)).2.1.symm, ?_⟩
    rintro rfl
    refine (inv.located.mem _ t).mpr ((home_wait lo hi waits).trans ?_)
    exact waitQueue_sem frames
  generalize (a.thrtab t).sem = s at on ⊢
  have queue : ∀ u, u < c.nsem → u ≠ s → ((((a.setCount s ((a.semtab s).count + 1)).emit
      (.waiterKilled t s)).getitem t)).semqueue u = a.semqueue u := by
    intro u bound other
    simp [mt (on bound).mp other]
  by_cases bound : s < c.nsem
  · have member := (on bound).mpr rfl
    obtain ⟨n, ok⟩ := h s bound
    have used : (a.semtab s).state = .used := by
      cases state : (a.semtab s).state with
      | used => rfl
      | free =>
          rw [ok.free state] at member
          cases member
    have left : ((((a.setCount s ((a.semtab s).count + 1)).emit
        (.waiterKilled t s)).getitem t)).semqueue s = (a.semqueue s).erase t := by
      simp
    have shorter := List.length_erase_of_mem member
    have some := List.length_pos_of_mem member
    refine h.event (e := .waiterKilled t s) (isbadsem_eq_false.mpr ⟨bound, used⟩) (fun u => rfl)
      (fun u other => by simp [other]) (by simp [used]) queue (fun _ => rfl) ?_ ?_ ?_
    · rw [left]
      simp [nextWaiters, member]
    · intro n count
      simp [Tally.count, Tally.next] at count ⊢
      omega
    · intro length
      rw [left, shorter]
      simp
      omega
  · refine h.one (s := s) (fun u other => by simp [other]) queue ?_ (fun low => absurd low bound)
    intro u other
    exact ledger_skip (e := .waiterKilled t s) (by simp [Event.ofSem, Ne.symm other])

theorem unlink (h : Sems a) (inv : a.Inv) (lo : 0 ≤ t) (hi : t < c.nthread)
    (future : (a.thrtab t).state = .wait → ∀ f, a.frame t = some f → f.onFuture = false) :
    Sems (a.unlink t) := by
  unfold Kernel.unlink
  split
  · rename_i asleep
    refine h.like (by simp) (fun s bound => ?_) fun _ => by simp
    exact inv.toMid.unsleep_semqueue lo hi (.inl asleep) bound
  · rename_i waits
    exact h.waiterKilled inv lo hi waits (future waits)
  · rename_i ready
    refine h.like (by simp) (fun s bound => ?_) fun _ => rfl
    exact List.erase_of_not_mem (inv.toMid.off_sem bound (by simp [ready]))
  · exact h

theorem semcreate {v : Int} (h : Sems a) (positive : 0 ≤ v) (free : (a.semtab s).state = .free) :
    Sems (((a.setSem s { a.semtab s with state := .used }).setCount s v).emit (.semcreate s v)) := by
  have queue : ∀ u, (((a.setSem s { a.semtab s with state := .used }).setCount s v).emit
      (.semcreate s v)).semqueue u = a.semqueue u := by
    intro u
    by_cases this : u = s <;> simp [semqueue, this]
  refine h.one (s := s) (fun u other => by simp [other]) (fun u _ _ => queue u)
    (fun u other => ledger_skip (by simp [Event.ofSem, Ne.symm other])) ?_
  intro bound n ok
  have empty := ok.free free
  refine ⟨⟨v, 0, 0, 0⟩, ?_, by simp, by simp [Tally.count], ?_⟩
  · refine (ledger_cons (e := .semcreate s v) (by simp [Event.ofSem]) ok.history).trans ?_
    simp [Tally.next, nextWaiters, queue, empty]
  · simp [queue, empty]
    omega

theorem semfree (h : Sems a) (inv : a.Inv) (good : a.isbadsem s = false) :
    Sems (((a.flush (a.semqueue s)).setSem s { a.semtab s with count := 0, state := .free }).emit
      (.semfree s)) := by
  obtain ⟨bound, -⟩ := isbadsem_eq_false.mp good
  obtain ⟨empty, others, log⟩ := flush_semqueue inv bound rfl
  have tables : (a.flush (a.semqueue s)).semtab = a.semtab := (flush_frame _).1
  have queue : ∀ u, (((a.flush (a.semqueue s)).setSem s
      { a.semtab s with count := 0, state := .free }).emit (.semfree s)).semqueue u =
      (a.flush (a.semqueue s)).semqueue u := by
    intro u
    simp only [semqueue]
    by_cases this : u = s <;> simp [this, flush_frame]
  refine h.one (s := s) (fun u other => by simp [other, tables]) ?_ ?_ ?_
  · intro u bound' other
    rw [queue]
    exact others u bound' other
  · intro u other
    exact (ledger_skip (e := .semfree s) (by simp [Event.ofSem, Ne.symm other])).trans (log u)
  · intro _ n ok
    refine ⟨n, ?_, fun _ => by rw [queue, empty], by simp, by simp⟩
    refine (ledger_cons (e := .semfree s) (by simp [Event.ofSem]) ((log s).trans ok.history)).trans ?_
    rw [queue, empty]
    rfl

theorem leave (h : Sems a) (inv : a.Inv) (leave : Leave x b a a') : Sems a' := by
  have live : a.isbadtid a.thrcurrent = false := by simp [inv.lo, inv.hi, inv.running]
  have asleep : ∀ {k : Kernel c Lists} {v : Int},
      (∀ u, k.semqueue u = (a.insertd a.thrcurrent a.sleepq v).1.semqueue u) →
      k.semtab = a.semtab → (∀ u, ledger u k.log = ledger u a.log) → Sems k :=
    fun queue sem log => h.like sem (fun u bound => (queue u).trans
      (insertd_semqueue inv.layout live _ bound)) log
  cases leave with
  | yield => exact h.makeReady inv.layout inv.lo inv.hi
  | suspendSelf => exact h.like rfl (by simp) fun _ => rfl
  | sleep =>
      refine asleep (fun u => rfl) (by simp) fun u => ?_
      simp [ledger, tally, waiters, Event.ofSem]
  | recvtime =>
      refine asleep (fun u => rfl) (by simp) fun u => ?_
      simp [ledger, tally, waiters, Event.ofSem]
  | listen => exact h.like rfl (by simp) fun _ => rfl
  | await _ _ good negative => exact h.await inv good negative
  | suicide => exact h.like (by simp) (fun _ _ => rfl) fun _ => ledger_skip rfl

theorem move (h : Sems a) (inv : a.Inv) (move : Move x b a a') : Sems a' := by
  cases move with
  | leaves leave => exact (h.leave inv leave).switch (leave.blocked inv)
  | wake lo hi => exact h.makeReady inv.layout lo hi
  | suspend _ _ _ _ ready =>
      refine h.like (by simp) (fun s bound => ?_) fun _ => rfl
      exact List.erase_of_not_mem (inv.toMid.off_sem bound (by simp [ready]))
  | @tick ts rest clktime clkticks _ ids _ _ =>
      have ticked : Sems (b.countdown clktime clkticks) :=
        h.like (by simp) (by simp [semqueue]) fun _ => by simpa using ledger_skip rfl
      refine (Inv.wakes (P := Sems) (inv.countdown _ _) ticked (by simpa using ids)
        fun a t rest inv h ids => ?_).2
      have member : t ∈ a.quetab.ids a.sleepq := by simp [ids]
      have asleep := inv.layout.of_sleep (inv.home_of_mem member)
      obtain ⟨lo, hi⟩ := inv.valid member
      have off : Sems ((a.getitem t).emit (.woken t)) := by
        refine h.like (by simp) (fun s bound => ?_) fun _ => ledger_skip rfl
        refine List.erase_of_not_mem (inv.toMid.off_sem bound ?_)
        rcases asleep with state | state <;> simp [state]
      exact off.makeReady (inv.layout.fixed (.of (by simp))) lo hi
  | @deliver _ _ t m _ _ lo hi =>
      have sent : Sems ((a.deposit t m).ret OK) := h.like rfl (fun _ _ => rfl) fun _ => ledger_skip rfl
      exact sent.makeReady (inv.layout.fixed (.of (by simp))) lo hi
  | @interrupt _ _ t m _ _ lo hi _ state =>
      have posted := (inv.deposit t m).ret OK
      have sent : Sems ((a.deposit t m).ret OK) := h.like rfl (fun _ _ => rfl) fun _ => ledger_skip rfl
      have off : Sems (((a.deposit t m).ret OK).unsleep t).1 :=
        sent.like (by simp) (fun s bound => posted.toMid.unsleep_semqueue lo hi (by simp [state]) bound)
          fun _ => by simp
      exact off.makeReady (inv.layout.fixed (.of (by simp))) lo hi
  | pass _ _ good positive => exact h.pass good positive
  | signal good positive => exact h.signal good positive
  | @release _ s t rest good negative ids =>
      obtain ⟨lo, hi⟩ := inv.valid (t := t) (q := (a.semtab s).queue) (by simp [ids])
      have counted := (like_setCount (k := a) s ((a.semtab s).count + 1)).emit (.signal s)
      refine (h.release inv good negative ids).makeReady ?_ lo hi
      exact (inv.layout.fixed counted.toFixed).fixed (.of (by simp))
  | @releaseNone _ s good negative ids =>
      obtain ⟨bound, used⟩ := isbadsem_eq_false.mp good
      obtain ⟨n, ok⟩ := h s bound
      have length := ok.length used
      simp only [semqueue, ids, List.length_nil] at length
      omega
  | semcreate positive _ free => exact h.semcreate positive free
  | semfree good => exact h.semfree inv good
  | @reap t fs heap cont stack awake other future =>
      obtain ⟨-, lo, hi⟩ := inv.kills b.thrcurrent t (by simp [stack])
      have freed : Sems (b.freed t fs heap) := h.like (by simp) (fun _ _ => rfl) fun _ => ledger_skip rfl
      have inv₁ : (b.freed t fs heap).Inv := (inv.pop stack (by simp)).like (.of (.of (by simp)) (by simp)) rfl rfl
      have apart : t ≠ b.thrcurrent := inv.not_current other
      refine (freed.unlink inv₁ lo hi ?_).like (by simp) (fun _ _ => rfl) fun _ => rfl
      intro waits f eq
      exact future waits f (by simpa [frame, apart] using eq)
  | _ => exact h.like (by simp) (fun _ _ => rfl) fun _ => rfl

end Sems

end

theorem boot_sems (c : Config) (p : Platform) : Sems (bootLists c p) := by
  obtain ⟨fresh, -⟩ := sysinit_fresh (c := c) p (⟨fun _ => [], fun _ => 0, fun _ => 0⟩ : Lists)
  intro s bound
  have empty : (bootLists c p).semqueue s = [] := by rw [semqueue, bootLists_quetab]
  have free : ((bootLists c p).semtab s).state = .free := by
    rw [bootLists, fresh.semtab]
    simp [bound]
  refine ⟨⟨0, 0, 0, 0⟩, ?_, fun _ => empty, by simp [free], by simp [free]⟩
  rw [empty, bootLists, fresh.log]
  rfl

theorem sems_kept : Kept (c := c) (fun k x => k.untimedCalls x = true)
    (fun a => Untimed a ∧ Sems a) (fun _ _ a => Untimed a ∧ Sems a) := by
  refine Kept.untimed (fun k x allowed => allowed) ?_ ?_ (fun _ _ _ _ _ _ _ _ _ h => h)
  · intro k k' x b rel allowed inv h action
    cases x with
    | call call => exact h.like rfl (fun _ _ => rfl) fun _ => rfl
    | cont => exact h
    | tick => exact h
  · exact fun k x b a a' rel allowed invb hb inv _ h move => h.move inv move

def Settled (k : Kernel c (Quetab c)) : Prop := Holding (fun a => Untimed a ∧ Sems a) k

theorem boot_settled (c : Config) (p : Platform) : (boot c p).Settled :=
  boot_holding ⟨boot_untimed c p, boot_sems c p⟩

end Kernel

end Xinu
