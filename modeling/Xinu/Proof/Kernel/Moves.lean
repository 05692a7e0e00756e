import Xinu.Proof.Kernel.Invariant

/-!
# Moves

What a step of the kernel over lists is made of. A move never leaves the processor without a
running thread: a thread that blocks and the choice of the next one are one move.
-/

namespace Xinu.Kernel
variable {c : Config}

def flush (k : Kernel c Lists) : List Int → Kernel c Lists
  | [] => k
  | t :: ts => flush ((k.getitem t).makeReady t) ts

def countdown (k : Kernel c Lists) (clktime clkticks : Nat) : Kernel c Lists :=
  let k := ({ k with clktime, clkticks } : Kernel c Lists).emit .tick
  match k.quetab.ids k.sleepq with
  | [] => k
  | t :: _ => k.setQuetab (k.quetab.setKey t (k.quetab.key t - 1))

def wake (k : Kernel c Lists) (t : Int) : Kernel c Lists :=
  ((k.getitem t).emit (.woken t)).makeReady t

def unlink (k : Kernel c Lists) (t : Int) : Kernel c Lists :=
  match (k.thrtab t).state with
  | .sleep => (k.unsleep t).1
  | .wait =>
      let sem := (k.thrtab t).sem
      ((k.setCount sem ((k.semtab sem).count + 1)).emit (.waiterKilled t sem)).getitem t
  | .ready => k.getitem t
  | _ => k

/-- `kill(t)` of the current thread has come back from `send` and freed the stack of `t`. -/
def freed {Q : Type} (k : Kernel c Q) (t : Int) (fs : List Frame) (heap : Heap) : Kernel c Q :=
  { (k.setStack k.thrcurrent fs).emit (.stkfreed t) with heap }

@[simp] theorem freed_frame {Q : Type} (k : Kernel c Q) (t : Int) (fs : List Frame) (heap : Heap) :
    (k.freed t fs heap).thrtab = k.thrtab ∧ (k.freed t fs heap).semtab = k.semtab ∧
    (k.freed t fs heap).montab = k.montab ∧ (k.freed t fs heap).quetab = k.quetab ∧
    (k.freed t fs heap).readylist = k.readylist ∧ (k.freed t fs heap).sleepq = k.sleepq ∧
    (k.freed t fs heap).thrcount = k.thrcount ∧ (k.freed t fs heap).thrcurrent = k.thrcurrent ∧
    (k.freed t fs heap).resdefer = k.resdefer ∧ (k.freed t fs heap).nextqid = k.nextqid ∧
    (k.freed t fs heap).heap = heap ∧ (k.freed t fs heap).future = k.future ∧
    (k.freed t fs heap).stack = Function.update k.stack k.thrcurrent fs ∧
    (k.freed t fs heap).stopped = k.stopped ∧
    (k.freed t fs heap).log = .stkfreed t :: k.log := by
  simp [freed]

def start (b : Kernel c Lists) : Act → Kernel c Lists
  | .call call => b.emit (.call b.thrcurrent call)
  | _ => b

structure Calling (x : Act) (b a : Kernel c Lists) (call : Call) : Prop where
  act : x = .call call
  here : a.thrcurrent = b.thrcurrent

def Answers (a : Kernel c Lists) (v : Int) : Call → Prop
  | .receive => False
  | .recvclr => v = NOMSG ∧ (a.thrtab a.thrcurrent).hasmsg = false ∧ a.stack a.thrcurrent = []
  | .recvtime n => v = SYSERR ∧ n < 0 ∧ a.stack a.thrcurrent = []
  | .send _ _ => v = SYSERR
  | _ => True

inductive Leave (x : Act) (b : Kernel c Lists) : Kernel c Lists → Kernel c Lists → Prop
  | yield {a : Kernel c Lists} : (∀ f, a.frame a.thrcurrent ≠ some (.getSignalled f)) →
      Leave x b a (a.makeReady a.thrcurrent)
  | suspendSelf {a : Kernel c Lists} : Calling x b a (.suspend a.thrcurrent) →
      a.thrcurrent ≠ NULLTHREAD → a.frame a.thrcurrent = none →
      Leave x b a ((a.setState a.thrcurrent .susp).push (.suspend a.thrcurrent))
  | sleep {a : Kernel c Lists} {ms : Nat} : x = .call (.sleep ms) →
      a = b.emit (.call b.thrcurrent (.sleep ms)) → 0 < sleepTicks ms → a.thrcurrent ≠ NULLTHREAD → a.frame a.thrcurrent = none →
      Leave x b a ((((a.insertd a.thrcurrent a.sleepq (sleepTicks ms)).1.setState a.thrcurrent
        .sleep).emit (.sleeping a.thrcurrent (sleepTicks ms) false)).ret OK)
  | recvtime {a : Kernel c Lists} {n : Int} : x = .call (.recvtime n) →
      a = b.emit (.call b.thrcurrent (.recvtime n)) → 0 ≤ n → n ≤ MAXKEY →
      (a.thrtab a.thrcurrent).hasmsg = false → a.thrcurrent ≠ NULLTHREAD →
      a.stack a.thrcurrent = [] →
      Leave x b a ((((a.insertd a.thrcurrent a.sleepq n).1.setState a.thrcurrent .tmout).emit
        (.sleeping a.thrcurrent n true)).push .recvtime)
  | listen {a : Kernel c Lists} : Calling x b a .receive →
      (a.thrtab a.thrcurrent).hasmsg = false → a.thrcurrent ≠ NULLTHREAD →
      a.stack a.thrcurrent = [] → Leave x b a ((a.setState a.thrcurrent .recv).push .receive)
  | await {a : Kernel c Lists} {call : Call} {s : Nat} : Calling x b a call →
      call = .wait s ∨ (∃ m, call = .lock m) → a.isbadsem s = false → (a.semtab s).count ≤ 0 →
      a.thrcurrent ≠ NULLTHREAD →
      (∀ f, a.frame a.thrcurrent = some f → ∃ m, f = .lockClaimed m ∨ f = .lockWaited m) →
      Leave x b a (((((a.setCount s ((a.semtab s).count - 1)).emit
        (.wait a.thrcurrent s true)).setThr a.thrcurrent
          { a.thrtab a.thrcurrent with state := .wait, sem := s }).enqueue a.thrcurrent
            (a.semtab s).queue).ret OK)
  | suicide {fs : List Frame} (heap : Heap) : x = .cont →
      b.stack b.thrcurrent = .kill b.thrcurrent :: fs →
      Leave x b b (((b.freed b.thrcurrent fs heap).setState b.thrcurrent .free).push
        (.killCurr b.thrcurrent))

/-- The moves of a step `x` that starts in the state `b`. -/
inductive Move (x : Act) (b : Kernel c Lists) : Kernel c Lists → Kernel c Lists → Prop
  -- returns
  | ret {a : Kernel c Lists} {call : Call} {v : Int} : Calling x b a call → Answers a v call →
      Move x b a (a.ret v)
  | returned {v : Int} {f : Frame} {fs : List Frame} : x = .cont →
      b.stack b.thrcurrent = .ret v :: f :: fs → Move x b b (b.setStack b.thrcurrent (f :: fs))
  | finished {v : Int} : x = .cont → b.stack b.thrcurrent = [.ret v] →
      Move x b b ((b.setStack b.thrcurrent []).emit (.ret b.thrcurrent v))
  | scanned {a : Kernel c Lists} (i j m : Nat) :
      Move x b a { a with nexttid := i, nextsem := j, nextmon := m }
  -- scheduling
  | stay {a : Kernel c Lists} {t : Int} {rest : List Int} :
      a.quetab.ids a.readylist = t :: rest → a.quetab.key t < (a.thrtab a.thrcurrent).prio →
      Move x b a (a.emit (.chosen a.thrcurrent))
  | leaves {a a' : Kernel c Lists} : Leave x b a a' → Move x b a a'.switch
  | wake {a : Kernel c Lists} {t : Int} : 0 ≤ t → t < c.nthread →
      (x = .call (.resume t) ∧ (a.thrtab t).state = .susp ∨ ∃ r, x = .call (.ready t r) ∧
        ((a.thrtab t).state = .susp ∨ (a.thrtab t).state = .recv)) →
      Move x b a (a.makeReady t)
  | suspend {a : Kernel c Lists} {t : Int} : x = .call (.suspend t) → t ≠ NULLTHREAD → 0 ≤ t →
      t < c.nthread → (a.thrtab t).state = .ready → Move x b a ((a.getitem t).setState t .susp)
  | suspended {t : Int} {fs : List Frame} : x = .cont → b.stack b.thrcurrent = .suspend t :: fs →
      Move x b b ((b.setStack b.thrcurrent fs).ret (b.thrtab t).prio)
  | chprio {a : Kernel c Lists} {t p : Int} : x = .call (.chprio t p) → a.isbadtid t = false →
      a = b.emit (.call b.thrcurrent (.chprio t p)) →
      Move x b a (a.setThr t { a.thrtab t with prio := p })
  -- the clock
  | tick {ts rest : List Int} (clktime clkticks : Nat) : x = .tick →
      b.quetab.ids b.sleepq = ts ++ rest →
      (∀ t ∈ ts, (b.countdown clktime clkticks).quetab.key t ≤ 0) →
      (∀ t ∈ rest.head?, 0 < (b.countdown clktime clkticks).quetab.key t) →
      Move x b b (ts.foldl wake (b.countdown clktime clkticks))
  -- messages
  | deposit {a : Kernel c Lists} {call : Call} {t m : Int} : Calling x b a call →
      (∃ u, call = .kill u) ∨ call = .send t m → 0 ≤ t → t < c.nthread →
      (a.thrtab t).hasmsg = false → (a.thrtab t).state ≠ .free → (a.thrtab t).state ≠ .recv →
      (a.thrtab t).state ≠ .tmout → Move x b a ((a.deposit t m).ret OK)
  | deliver {a : Kernel c Lists} {call : Call} {t m : Int} : Calling x b a call →
      (∃ u, call = .kill u) ∨ call = .send t m → 0 ≤ t → t < c.nthread →
      (a.thrtab t).hasmsg = false → (a.thrtab t).state = .recv →
      Move x b a (((a.deposit t m).ret OK).makeReady t)
  | interrupt {a : Kernel c Lists} {call : Call} {t m : Int} : Calling x b a call →
      (∃ u, call = .kill u) ∨ call = .send t m → 0 ≤ t → t < c.nthread →
      (a.thrtab t).hasmsg = false → (a.thrtab t).state = .tmout →
      Move x b a ((((a.deposit t m).ret OK).unsleep t).1.makeReady t)
  | take {a : Kernel c Lists} {call : Call} : Calling x b a call →
      call = .receive ∨ call = .recvclr ∨ (∃ n, call = .recvtime n) →
      (a.thrtab a.thrcurrent).hasmsg = true → a.stack a.thrcurrent = [] → Move x b a a.takeMessage
  | heard {fs : List Frame} : x = .cont → b.stack b.thrcurrent = .receive :: fs ∨
        b.stack b.thrcurrent = .recvtime :: fs ∧ (b.thrtab b.thrcurrent).hasmsg = true →
      Move x b b (b.setStack b.thrcurrent fs).takeMessage
  | timedout {fs : List Frame} : x = .cont → b.stack b.thrcurrent = .recvtime :: fs →
      (b.thrtab b.thrcurrent).hasmsg = false →
      Move x b b (((b.setStack b.thrcurrent fs).emit (.timedout b.thrcurrent)).ret TIMEOUT)
  -- semaphores
  | pass {a : Kernel c Lists} {call : Call} {s : Nat} : Calling x b a call →
      call = .wait s ∨ (∃ m, call = .lock m) → a.isbadsem s = false → 0 < (a.semtab s).count →
      Move x b a ((a.setCount s ((a.semtab s).count - 1)).emit (.wait a.thrcurrent s false))
  | signal {a : Kernel c Lists} {s : Nat} : a.isbadsem s = false → 0 ≤ (a.semtab s).count →
      Move x b a ((a.setCount s ((a.semtab s).count + 1)).emit (.signal s))
  | release {a : Kernel c Lists} {s : Nat} {t : Int} {rest : List Int} : a.isbadsem s = false →
      (a.semtab s).count < 0 → a.quetab.ids (a.semtab s).queue = t :: rest →
      Move x b a (((((a.setCount s ((a.semtab s).count + 1)).emit (.signal s)).getitem t).emit
        (.released t s)).makeReady t)
  | releaseNone {a : Kernel c Lists} {s : Nat} : a.isbadsem s = false →
      (a.semtab s).count < 0 → a.quetab.ids (a.semtab s).queue = [] →
      Move x b a (((a.setCount s ((a.semtab s).count + 1)).emit (.signal s)).emit (.released EMPTY s))
  | semcreate {a : Kernel c Lists} {s : Nat} {n : Int} : 0 ≤ n → s < c.nsem →
      (a.semtab s).state = .free →
      Move x b a (((a.setSem s { a.semtab s with state := .used }).setCount s n).emit
        (.semcreate s n))
  | semfree {a : Kernel c Lists} {s : Nat} : a.isbadsem s = false →
      Move x b a (((a.flush (a.quetab.ids (a.semtab s).queue)).setSem s
        { a.semtab s with count := 0, state := .free }).emit (.semfree s))
  -- threads
  | full {a : Kernel c Lists} {n p i : Nat} {heap heap' : Heap} {r : Int} :
      a.heap.stkget n = some (heap, some p) → heap.stkfree p n = some (heap', r) →
      Move x b a { a with heap := heap', nexttid := i }
  | create {a : Kernel c Lists} {t n p i : Nat} {v : Int} {heap : Heap} :
      a.heap.stkget n = some (heap, some p) → t < c.nthread → (a.thrtab t).state = .free →
      Move x b a (((({ a with heap, nexttid := i, thrcount := a.thrcount + 1 } : Kernel c Lists).setThr
        t { a.thrtab t with state := .susp, prio := v, stkbase := p, stklen := n,
                            parent := a.thrcurrent, hasmsg := false }).setStack t []).emit (.created t))
  | kill {a : Kernel c Lists} {t : Int} : x = .call (.kill t) → a.isbadtid t = false →
      t ≠ NULLTHREAD → 1 < a.thrcount - 1 → a = b.emit (.call b.thrcurrent (.kill t)) →
      a.frame a.thrcurrent = none →
      Move x b a ((({ a with thrcount := a.thrcount - 1 } : Kernel c Lists).emit (.killed t)).push
        (.kill t))
  | reap {t : Int} {fs : List Frame} (heap : Heap) : x = .cont →
      b.stack b.thrcurrent = .kill t :: fs → (b.thrtab t).state ≠ .tmout →
      (b.thrtab t).state ≠ .curr →
      ((b.thrtab t).state = .wait → ∀ f, b.frame t = some f → f.onFuture = false) →
      Move x b b ((((b.freed t fs heap).unlink t).setState t .free).ret OK)

section
variable {k : Kernel c Lists} {t : Int}

theorem Inv.not_current (h : k.Inv) (state : (k.thrtab t).state ≠ .curr) : t ≠ k.thrcurrent := by
  rintro rfl
  exact state h.running

theorem nextid_mem {q : Int} (mid : k.Mid) (on : t ∈ k.quetab.ids q) (good : k.Good q)
    (low : Queues.nextid k.quetab t < c.nthread) : Queues.nextid k.quetab t ∈ k.quetab.ids q := by
  have loc := mid.located.loc q t on
  have eq : Queues.nextid k.quetab t =
    ((k.quetab.ids q).dropWhile (· ≠ t)).tail.headD (quetail q) := by rw [← loc]; rfl
  rw [eq] at low ⊢
  cases tail : ((k.quetab.ids q).dropWhile (· ≠ t)).tail with
  | nil =>
      obtain ⟨⟨i, rfl, -⟩, -⟩ := good
      rw [tail] at low
      simp only [List.headD_nil, quetail] at low
      omega
  | cons u us =>
      exact (List.dropWhile_suffix _).mem (List.mem_of_mem_tail (by rw [tail]; simp))

theorem unsleep_lists (lo : 0 ≤ t) (hi : t < c.nthread)
    (state : (k.thrtab t).state = .sleep ∨ (k.thrtab t).state = .tmout) :
    (k.unsleep t).1.quetab = (if Queues.nextid k.quetab t < c.nthread then
      k.quetab.setKey (Queues.nextid k.quetab t)
        (int32 (k.quetab.key (Queues.nextid k.quetab t) + k.quetab.key t)) else k.quetab).getitem t := by
  have live : k.isbadtid t = false := by
    rcases state with state | state <;> simp [lo, hi, state]
  have asleep : ¬((k.thrtab t).state ≠ .sleep ∧ (k.thrtab t).state ≠ .tmout) := by tauto
  simp only [unsleep, live, Bool.false_eq_true, if_false, asleep]
  split <;> rfl

theorem unsleep_located {home : Int → Option Int} (located : Located k.quetab home) (lo : 0 ≤ t)
    (hi : t < c.nthread) (state : (k.thrtab t).state = .sleep ∨ (k.thrtab t).state = .tmout) :
    Located (k.unsleep t).1.quetab (Function.update home t none) := by
  rw [unsleep_lists lo hi state]
  split
  · exact (located.setKey _ _).getitem t
  · exact located.getitem t

theorem makeReady_ids_ne {q : Int} (layout : k.Layout) (lo : 0 ≤ t) (hi : t < c.nthread)
    (other : q ≠ k.readylist) : (k.makeReady t).quetab.ids q = k.quetab.ids q := by
  rw [makeReady_quetab layout lo hi]
  simp [Lists.insert, Lists.setKey, Lists.put, other]

theorem Inv.flushOne {s : Nat} {ts : List Int} (h : k.Inv) (bound : s < c.nsem)
    (ids : k.quetab.ids (k.semtab s).queue = t :: ts) : ((k.getitem t).makeReady t).Inv ∧
      ((k.getitem t).makeReady t).quetab.ids (k.semtab s).queue = ts := by
  have member : t ∈ k.quetab.ids (k.semtab s).queue := by simp [ids]
  obtain ⟨lo, hi⟩ := h.valid member
  obtain ⟨waits, -⟩ := h.layout.of_sem bound (h.home_of_mem member)
  refine ⟨h.makeReady (.of (.of (by simp)) (by simp)) (h.located.getitem t) (by simp [waits])
    (h.not_current (by simp [waits])) lo hi, ?_⟩
  have fixed : (k.getitem t).Layout := h.layout.fixed (.of (by simp))
  have other : (k.semtab s).queue ≠ (k.getitem t).readylist := by
    simpa using h.layout.sem_ne_ready bound
  have erased : (k.quetab.getitem t).ids (k.semtab s).queue = ts := by
    simp [Lists.getitem, ids]
  rw [makeReady_ids_ne fixed lo hi other]
  exact erased

theorem flush_inv {s : Nat} {ts : List Int} (h : k.Inv) (bound : s < c.nsem)
    (ids : k.quetab.ids (k.semtab s).queue = ts) : (k.flush ts).Inv := by
  induction ts generalizing k with
  | nil => exact h
  | cons t ts ih =>
      obtain ⟨next, left⟩ := h.flushOne bound ids
      exact ih next (by simpa using left)

theorem flush_frame (ts : List Int) :
    (k.flush ts).semtab = k.semtab ∧ (k.flush ts).readylist = k.readylist ∧
    (k.flush ts).sleepq = k.sleepq ∧ (k.flush ts).nextqid = k.nextqid ∧
    (k.flush ts).thrcurrent = k.thrcurrent ∧ (k.flush ts).stack = k.stack ∧
    (k.flush ts).future = k.future ∧ (k.flush ts).resdefer = k.resdefer := by
  induction ts generalizing k with
  | nil => simp [flush]
  | cons t ts ih => simp [flush, ih]

@[simp] theorem countdown_frame (clktime clkticks : Nat) :
    (k.countdown clktime clkticks).thrtab = k.thrtab ∧
    (k.countdown clktime clkticks).semtab = k.semtab ∧
    (k.countdown clktime clkticks).montab = k.montab ∧
    (k.countdown clktime clkticks).quetab.ids = k.quetab.ids ∧
    (k.countdown clktime clkticks).quetab.loc = k.quetab.loc ∧
    (k.countdown clktime clkticks).readylist = k.readylist ∧
    (k.countdown clktime clkticks).sleepq = k.sleepq ∧
    (k.countdown clktime clkticks).thrcount = k.thrcount ∧
    (k.countdown clktime clkticks).thrcurrent = k.thrcurrent ∧
    (k.countdown clktime clkticks).resdefer = k.resdefer ∧
    (k.countdown clktime clkticks).nextqid = k.nextqid ∧
    (k.countdown clktime clkticks).heap = k.heap ∧
    (k.countdown clktime clkticks).future = k.future ∧
    (k.countdown clktime clkticks).stack = k.stack ∧
    (k.countdown clktime clkticks).log = .tick :: k.log := by
  simp only [countdown]
  split <;> simp [Lists.setKey]

theorem Inv.countdown (h : k.Inv) (clktime clkticks : Nat) : (k.countdown clktime clkticks).Inv := by
  unfold Kernel.countdown
  simp only
  split
  · exact h.like (.of (.of (by simp)) (by simp)) rfl rfl
  · exact h.like (.of (.of (by simp)) (by simp)) rfl rfl

theorem Inv.wake {rest : List Int} (h : k.Inv) (ids : k.quetab.ids k.sleepq = t :: rest) :
    (k.wake t).Inv ∧ (k.wake t).quetab.ids (k.wake t).sleepq = rest := by
  have member : t ∈ k.quetab.ids k.sleepq := by simp [ids]
  have asleep := h.layout.of_sleep (h.home_of_mem member)
  obtain ⟨lo, hi⟩ := h.valid member
  have live : (k.thrtab t).state ≠ .free := by rcases asleep with this | this <;> simp [this]
  have other : (k.thrtab t).state ≠ .curr := by rcases asleep with this | this <;> simp [this]
  refine ⟨h.makeReady (.of (.of (by simp)) (by simp)) (h.located.getitem t) live (h.not_current other) lo hi, ?_⟩
  have fixed : ((k.getitem t).emit (.woken t)).Layout := h.layout.fixed (.of (by simp))
  have apart : k.sleepq ≠ k.readylist := by
    rw [h.layout.ready, h.layout.sleep]
    omega
  have left := makeReady_ids_ne (q := k.sleepq) fixed lo hi (by simpa using apart)
  simpa [Kernel.wake, ids] using left

theorem Inv.wakes {P : Kernel c Lists → Prop} {ts rest : List Int} (h : k.Inv) (holds : P k)
    (ids : k.quetab.ids k.sleepq = ts ++ rest)
    (keep : ∀ a t rest, a.Inv → P a → a.quetab.ids a.sleepq = t :: rest → P (a.wake t)) :
    (ts.foldl Kernel.wake k).Inv ∧ P (ts.foldl Kernel.wake k) := by
  induction ts generalizing k with
  | nil => exact ⟨h, holds⟩
  | cons t ts ih =>
      obtain ⟨next, left⟩ := h.wake ids
      exact ih next (keep k t _ h holds ids) left

theorem wakes_frame (ts : List Int) :
    (ts.foldl wake k).semtab = k.semtab ∧ (ts.foldl wake k).montab = k.montab ∧
    (ts.foldl wake k).thrcurrent = k.thrcurrent ∧ (ts.foldl wake k).stack = k.stack := by
  induction ts generalizing k with
  | nil => simp
  | cons t ts ih => simp [ih, wake]

theorem Inv.leave (h : k.Inv) {f : Frame} {s : ThrState} (user : k.thrcurrent ≠ NULLTHREAD)
    (clear : k.frame k.thrcurrent = none) (off : s = .free ∨ s = .susp ∨ s = .recv)
    (real : f.isRet = false) (kill : ∀ u, f ≠ .kill u) (killCurr : ∀ u, f = .killCurr u → s = .free)
    (quiet : ∀ g, f ≠ .getSignalled g) :
    ((k.setState k.thrcurrent s).push f).Blocked := by
  refine h.block (e := { k.thrtab k.thrcurrent with state := s }) (f := f) (.of (.of (by simp)) (by simp)) user ?_
    (.inr ⟨real, clear, quiet⟩) kill killCurr ?_
  · rintro rfl
    simp at off
  · have stays := h.toMid.current_off h.running (by simp [clear])
    rw [home_eq_none (by simpa using off), ← stays, Function.update_eq_self]
    exact h.located

theorem Inv.doze (h : k.Inv) {f : Frame} {s : ThrState} {timed : Bool} (ticks : Int)
    (user : k.thrcurrent ≠ NULLTHREAD) (clear : k.frame k.thrcurrent = none)
    (asleep : s = .sleep ∨ s = .tmout) (plain : f = .ret OK ∨ f = .recvtime) :
    (((((k.insertd k.thrcurrent k.sleepq ticks).1.setState k.thrcurrent s).emit
      (.sleeping k.thrcurrent ticks timed)).push f)).Blocked := by
  have live : k.isbadtid k.thrcurrent = false := by simp [h.lo, h.hi, h.running]
  rw [insertd_lists h.layout.good_sleep.isq live]
  refine h.block (e := { k.thrtab k.thrcurrent with state := s }) (f := f) (.of (.of (by simp)) (by simp)) user ?_ ?_ ?_ ?_ ?_
  · rintro rfl
    simp at asleep
  · rcases plain with rfl | rfl
    · exact .inl ⟨rfl, by simp [clear]⟩
    · exact .inr ⟨rfl, clear, by simp⟩
  · rcases plain with rfl | rfl <;> simp
  · rcases plain with rfl | rfl <;> simp
  · rw [home_sleep h.lo h.hi (by simpa using asleep)]
    have stays := h.toMid.current_off h.running (by simp [clear])
    simpa using h.located.insertd (t := k.thrcurrent) (q := k.sleepq) stays ticks

theorem Inv.await (h : k.Inv) {s : Nat} (bound : s < c.nsem) (user : k.thrcurrent ≠ NULLTHREAD)
    (locks : ∀ f, k.frame k.thrcurrent = some f → ∃ m, f = .lockClaimed m ∨ f = .lockWaited m)
    (v : Int) :
    ((((((k.setCount s v).emit (.wait k.thrcurrent s true)).setThr k.thrcurrent
      { k.thrtab k.thrcurrent with state := .wait, sem := s }).enqueue k.thrcurrent
        (k.semtab s).queue).ret OK)).Blocked := by
  have counted := like_setCount (k := k) s v
  have quiet : ∀ f, k.frame k.thrcurrent ≠ some (.getSignalled f) := by
    intro f eq
    obtain ⟨m, this | this⟩ := locks _ eq <;> cases this
  have live : (((k.setCount s v).emit (.wait k.thrcurrent s true)).setThr k.thrcurrent
      { k.thrtab k.thrcurrent with state := .wait, sem := s }).isbadtid k.thrcurrent = false := by
    simp [h.lo, h.hi]
  rw [enqueue_lists (h.layout.good_sem bound).isq live]
  refine h.block (e := { k.thrtab k.thrcurrent with state := .wait, sem := s }) (f := .ret OK)
    (.of (.of ⟨by simp, by simp, by simp, counted.sems, by simp⟩) (by simp)) user (by simp) (.inl ⟨rfl, quiet⟩) (by simp) (by simp) ?_
  have onSem : ((k.setThr k.thrcurrent { k.thrtab k.thrcurrent with state := .wait, sem := s }).push
      (.ret OK)).home k.thrcurrent = some (k.semtab s).queue := by
    rw [home_wait h.lo h.hi (by simp), waitQueue_sem]
    · simp
    · intro f eq
      have same : ((k.setThr k.thrcurrent { k.thrtab k.thrcurrent with state := .wait, sem := s }).push
          (.ret OK)).frame k.thrcurrent = k.frame k.thrcurrent := frame_ret _ _ _
      obtain ⟨m, rfl | rfl⟩ := locks f (same ▸ eq) <;> rfl
  rw [onSem]
  have stays := h.toMid.current_off h.running quiet
  simpa using h.located.enqueue (t := k.thrcurrent) (q := (k.semtab s).queue) stays

theorem Inv.yield (h : k.Inv) (quiet : ∀ f, k.frame k.thrcurrent ≠ some (.getSignalled f)) :
    (k.makeReady k.thrcurrent).Blocked := by
  have off := h.toMid.current_off h.running quiet
  have located : Located k.quetab (Function.update k.home k.thrcurrent none) := by
    rw [← off, Function.update_eq_self]
    exact h.located
  refine ⟨makeReady_mid h.toThreads h.layout located ?_ h.lo h.hi, ?_, ?_⟩
  · rw [h.running]
    decide
  · simp
  · simpa [frame] using quiet

theorem Inv.deposit (h : k.Inv) (t m : Int) : (k.deposit t m).Inv :=
  Inv.emit (h.setThr (by rfl) (by rfl)) _

theorem Inv.takeMessage (h : k.Inv) : k.takeMessage.Inv := by
  simp only [Kernel.takeMessage]
  exact Inv.ret (Inv.emit (h.setThr (by rfl) (by rfl)) _) _

theorem Inv.remove (h : k.Inv) {k' : Kernel c Lists} {s : ThrState} (same : k.Like k')
    (located : Located k'.quetab (Function.update k.home t none)) (off : s = .free ∨ s = .susp)
    (live : (k.thrtab t).state = .free → s = .free) (user : t ≠ NULLTHREAD)
    (other : t ≠ k.thrcurrent) : (k'.setState t s).Inv := by
  have inert : s ≠ .curr := by rintro rfl; simp at off
  have threads : k'.Threads := h.toThreads.congr same.state same.stack same.current same.resdefer
  have fixed : k.Fixed (k'.setState t s) := same.toFixed.trans (.of (by simp))
  refine ⟨h.toMid.update (t := t) ?_ fixed ?_ ?_ ?_ ?_, ?_⟩
  · refine threads.setThr inert (fun null => absurd null user) ?_
    intro free
    rw [same.state] at free
    exact .inl (live free)
  · intro u apart
    simp [apart, same.state]
  · intro u apart
    simp [apart, same.sem]
  · intro u _
    simp [frame, same.stack]
  · have gone : (k'.setState t s).home t = none := by
      refine home_eq_none ?_
      rcases off with rfl | rfl <;> simp
    rw [gone]
    exact located
  · have apart : k'.thrcurrent ≠ t := by rw [same.current]; exact other.symm
    have running : (k'.thrtab k'.thrcurrent).state = .curr := by
      rw [same.current, same.state]
      exact h.running
    simpa [apart] using running

@[simp] theorem unlink_frame (k : Kernel c Lists) (t : Int) :
    (k.unlink t).thrtab = k.thrtab ∧ (k.unlink t).montab = k.montab ∧
    (k.unlink t).readylist = k.readylist ∧ (k.unlink t).sleepq = k.sleepq ∧
    (k.unlink t).thrcount = k.thrcount ∧ (k.unlink t).thrcurrent = k.thrcurrent ∧
    (k.unlink t).resdefer = k.resdefer ∧ (k.unlink t).nextqid = k.nextqid ∧
    (k.unlink t).heap = k.heap ∧ (k.unlink t).future = k.future ∧ (k.unlink t).stack = k.stack ∧
    (k.unlink t).log = if (k.thrtab t).state = .wait then
      .waiterKilled t (k.thrtab t).sem :: k.log else k.log := by
  unfold unlink
  cases state : (k.thrtab t).state <;> simp

theorem unlink_like : k.Like (k.unlink t) := by
  have sems : ∀ s, ((k.unlink t).semtab s).queue = (k.semtab s).queue := by
    unfold unlink
    split
    · simp
    · exact (like_setCount (k := k) (k.thrtab t).sem _).sems
    · simp
    · simp
  exact .of (.of ⟨by simp, by simp, by simp, sems, by simp⟩) (by simp)

theorem Inv.unlink (h : k.Inv) (lo : 0 ≤ t) (hi : t < c.nthread)
    (awake : (k.thrtab t).state ≠ .tmout) (other : (k.thrtab t).state ≠ .curr) :
    Located (k.unlink t).quetab (Function.update k.home t none) := by
  unfold Kernel.unlink
  split
  · rename_i asleep
    exact unsleep_located h.located lo hi (.inl asleep)
  · exact h.located.getitem t
  · exact h.located.getitem t
  · rename_i sleep wait ready
    have off : k.home t = none := by
      refine home_eq_none ?_
      cases state : (k.thrtab t).state <;> simp_all
    simp only [← off, Function.update_eq_self]
    exact h.located

end

theorem isbadsem_eq_false {Q : Type} {k : Kernel c Q} {s : Nat} :
    k.isbadsem s = false ↔ s < c.nsem ∧ (k.semtab s).state = .used := by
  cases state : (k.semtab s).state <;> simp [isbadsem, state]

theorem Inv.create {k : Kernel c Lists} (h : k.Inv) {t : Nat} {e : Thrent}
    (free : (k.thrtab t).state = .free) (susp : e.state = .susp) :
    ((k.setThr t e).setStack t []).Inv := by
  have other := h.not_current (t := t) (by simp [free])
  have apart : k.thrcurrent ≠ t := fun eq => other eq.symm
  refine ⟨h.toMid.update (t := t) ?_ (.of (by simp)) ?_ ?_ ?_ ?_, ?_⟩
  · have null : (NULLTHREAD : Int) ≠ t := by
      intro eq
      rw [← eq] at free
      rcases h.null with null | null <;> simp [null] at free
    have sub : ∀ u, ∀ f ∈ ((k.setThr t e).setStack t []).stack u, u ≠ t ∧ f ∈ k.stack u := by
      intro u f member
      by_cases this : u = t
      · simp [this] at member
      · exact ⟨this, by simpa [this] using member⟩
    refine ⟨h.lo, h.hi, ?_, ?_, h.undeferred, ?_, ?_, ?_, ?_⟩
    · intro u lo hi curr
      by_cases this : u = t
      · simp [this, susp] at curr
      · exact h.single u lo hi (by simpa [this] using curr)
    · simpa [null] using h.null
    · intro u
      by_cases this : u = t
      · simp [this]
      · simpa [this] using h.shape u
    · intro u f apart
      by_cases this : u = t
      · simp [frame, this]
      · simpa [frame, this] using h.signalled u f (by simpa using apart)
    · intro u v member
      obtain ⟨ne, old⟩ := sub u _ member
      simpa [ne] using h.dead u v old
    · intro u v member
      exact h.kills u v (sub u _ member).2
  · intro u other
    simp [other]
  · intro u other
    simp [other]
  · intro u other
    simp [frame, other]
  · rw [home_eq_none (.inr (.inl (by simpa using susp))), ← home_eq_none (.inl free),
      Function.update_eq_self]
    exact h.located
  · simpa [apart] using h.running

theorem Leave.blocked {x : Act} {b a a' : Kernel c Lists} (leave : Leave x b a a') (h : a.Inv) :
    a'.Blocked := by
  cases leave with
  | yield quiet => exact h.yield quiet
  | suspendSelf _ user clear =>
      exact h.leave user clear (.inr (.inl rfl)) rfl (by simp) (by simp) (by simp)
  | sleep _ _ _ user clear => exact h.doze _ user clear (.inl rfl) (.inl rfl)
  | recvtime _ _ _ _ _ user empty => exact h.doze _ user (frame_nil empty) (.inr rfl) (.inr rfl)
  | listen _ _ user empty =>
      exact h.leave user (frame_nil empty) (.inr (.inr rfl)) rfl (by simp) (by simp) (by simp)
  | await _ _ good _ user locks => exact h.await (isbadsem_eq_false.mp good).1 user locks _
  | @suicide fs heap _ stack =>
      obtain ⟨user, -⟩ := h.kills b.thrcurrent b.thrcurrent (by simp [stack])
      have ready : (b.freed b.thrcurrent fs heap).Inv := (h.pop stack (by simp)).like (.of (.of (by simp)) (by simp)) rfl rfl
      have clear := h.toThreads.pop_clear stack rfl
      exact ready.leave user clear (.inl rfl) rfl (by simp) (by simp) (by simp)

theorem Move.inv {x : Act} {b a a' : Kernel c Lists} (move : Move x b a a') (h : a.Inv) : a'.Inv := by
  cases move with
  | ret => exact h.ret _
  | returned _ stack => exact h.pop stack (by simp)
  | finished _ stack => exact (h.pop stack (by simp)).emit _
  | scanned => exact h.like (.of (.of (by simp)) (by simp)) rfl rfl
  | stay => exact h.emit _
  | leaves leave => exact (leave.blocked h).switch
  | @wake _ t lo hi state =>
      have off : (a.thrtab t).state = .susp ∨ (a.thrtab t).state = .recv := by tauto
      have live : (a.thrtab t).state ≠ .free := by rcases off with off | off <;> simp [off]
      have other : (a.thrtab t).state ≠ .curr := by rcases off with off | off <;> simp [off]
      exact h.off_ready (home_eq_none (.inr off)) live (h.not_current other) lo hi (.of (.of (by simp)) (by simp)) rfl
  | suspend _ user lo hi ready =>
      exact h.remove (.of (.of (by simp)) (by simp)) (h.located.getitem _) (.inr rfl) (by simp [ready]) user
        (h.not_current (by simp [ready]))
  | suspended _ stack => exact (h.pop stack (by simp)).ret _
  | chprio => exact h.setThr (by rfl) (by rfl)
  | @tick ts rest _ _ _ ids _ _ =>
      exact (Inv.wakes (P := fun _ => True) (h.countdown _ _) trivial (by simpa using ids)
        (by simp)).1
  | deposit => exact (h.deposit _ _).ret _
  | @deliver _ _ t m _ _ lo hi _ state =>
      have sent := (h.deposit t m).ret OK
      have still : (((a.deposit t m).ret OK).thrtab t).state = .recv := by simpa using state
      exact sent.off_ready (home_eq_none (.inr (.inr still))) (by simp [state])
        (h.not_current (by simp [state])) lo hi (.of (.of (by simp)) (by simp)) rfl
  | @interrupt _ _ t m _ _ lo hi _ state =>
      have sent := (h.deposit t m).ret OK
      refine sent.makeReady (.of (.of (by simp)) (by simp)) ?_ (by simp [state]) (h.not_current (by simp [state])) lo hi
      exact unsleep_located sent.located lo hi (by simp [state])
  | take => exact h.takeMessage
  | heard _ stack =>
      rcases stack with stack | ⟨stack, -⟩
      · exact (h.pop stack (by simp)).takeMessage
      · exact (h.pop stack (by simp)).takeMessage
  | timedout _ stack _ => exact ((h.pop stack (by simp)).emit _).ret _
  | pass => exact (h.setCount _ _).emit _
  | signal => exact (h.setCount _ _).emit _
  | @release _ s t rest good _ ids =>
      have member : t ∈ a.quetab.ids (a.semtab s).queue := by simp [ids]
      obtain ⟨waits, -⟩ := h.layout.of_sem (isbadsem_eq_false.mp good).1 (h.home_of_mem member)
      obtain ⟨lo, hi⟩ := h.valid member
      have counted := (like_setCount (k := a) s ((a.semtab s).count + 1)).emit (.signal s)
      refine h.makeReady (counted.trans (.of (.of (by simp)) (by simp))) (h.located.getitem t) (by simp [waits])
        (h.not_current (by simp [waits])) lo hi
  | releaseNone => exact ((h.setCount _ _).emit _).emit _
  | @semcreate _ s n _ _ _ =>
      have used : a.Like (a.setSem s { a.semtab s with state := .used }) := like_setSem rfl
      exact (Inv.setCount (h.like used rfl rfl) s n).emit _
  | @semfree _ s good =>
      have flushed := flush_inv h (isbadsem_eq_false.mp good).1 rfl
      have same := (flush_frame (k := a) (a.quetab.ids (a.semtab s).queue)).1
      refine Inv.emit (flushed.like (like_setSem ?_) rfl rfl) _
      rw [same]
  | full => exact h.like (.of (.of (by simp)) (by simp)) rfl rfl
  | @create _ t n p i v heap _ _ free =>
      have same : a.Like { a with heap, nexttid := i, thrcount := a.thrcount + 1 } := .of (.of (by simp)) (by simp)
      exact Inv.emit (Inv.create (e := { a.thrtab t with
        state := .susp, prio := v, stkbase := p, stklen := n, parent := a.thrcurrent,
        hasmsg := false })
        (h.like same rfl rfl) free rfl) _
  | @kill _ t _ good user _ _ clear =>
      have live := (isbadtid_eq_false _ _).mp good
      have same : a.Like ({ a with thrcount := a.thrcount - 1 } : Kernel c Lists) := .of (.of (by simp)) (by simp)
      have killed := Inv.emit (h.like same rfl rfl) (.killed t)
      refine killed.push (killed.toThreads.push (.inr clear) ?_ (by simp)) clear (by simp)
      rintro u eq
      cases eq
      exact ⟨user, live.1, live.2.1⟩
  | @reap t fs heap _ stack awake other _ =>
      obtain ⟨user, lo, hi⟩ := h.kills b.thrcurrent t (by simp [stack])
      have popped := h.pop stack (by simp)
      have ready : (b.freed t fs heap).Inv := popped.like (.of (.of (by simp)) (by simp)) rfl rfl
      refine Inv.ret (ready.remove unlink_like (ready.unlink lo hi awake other) (.inl rfl) (by simp)
        user ?_) OK
      exact ready.not_current other

end Xinu.Kernel
