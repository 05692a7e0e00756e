import Xinu.Proof.Kernel.Moves
import Mathlib.Logic.Relation

/-!
# The kernel over the queue table makes moves

`Rel` relates a kernel over `quetab` to the kernel over the lists that it holds. `Does` says that
moves lead from a state to one that represents a given kernel of the source.
-/

namespace Xinu.Kernel
variable {c : Config}

def withQuetab {Q : Type} (k : Kernel c Q) (l : Lists) : Kernel c Lists := { k with quetab := l }

inductive Rel (k : Kernel c (Quetab c)) : Kernel c Lists → Prop
  | mk {l : Lists} : Represents k.nextqid k.quetab l → Rel k (k.withQuetab l)

abbrev Moves (x : Act) (b : Kernel c Lists) : Kernel c Lists → Kernel c Lists → Prop :=
  Relation.ReflTransGen (Move x b)

theorem Moves.inv {x : Act} {b a a' : Kernel c Lists} (moves : Moves x b a a') (h : a.Inv) :
    a'.Inv := by
  induction moves with
  | refl => exact h
  | tail _ move ih => exact move.inv ih

def Does (x : Act) (b : Kernel c Lists) (k : Kernel c (Quetab c)) (a : Kernel c Lists) : Prop :=
  ∃ a', Moves x b a a' ∧ Rel k a'

section
variable {x : Act} {b a a₁ : Kernel c Lists} {k k₁ : Kernel c (Quetab c)} {t q v : Int}
  {rest : List Int}

theorem Rel.does (rel : Rel k a) : Does x b k a := ⟨a, .refl, rel⟩

theorem Move.does (move : Move x b a a₁) (rel : Rel k a₁) : Does x b k a :=
  ⟨a₁, .single move, rel⟩

theorem Move.andThen (move : Move x b a a₁) (does : Does x b k a₁) : Does x b k a := by
  obtain ⟨a', moves, rel⟩ := does
  exact ⟨a', .head move moves, rel⟩

theorem Does.andThen (does : Does x b k a) (inv : a.Inv)
    (next : ∀ a₁, Rel k a₁ → a₁.Inv → Does x b k₁ a₁) : Does x b k₁ a := by
  obtain ⟨a₁, moves, rel⟩ := does
  obtain ⟨a', moves', rel'⟩ := next a₁ rel (moves.inv inv)
  exact ⟨a', moves.trans moves', rel'⟩

@[simp] theorem withQuetab_frame {Q : Type} (k : Kernel c Q) (l : Lists) :
    (k.withQuetab l).thrtab = k.thrtab ∧ (k.withQuetab l).semtab = k.semtab ∧ (k.withQuetab l).montab = k.montab ∧
    (k.withQuetab l).quetab = l ∧ (k.withQuetab l).readylist = k.readylist ∧ (k.withQuetab l).sleepq = k.sleepq ∧
    (k.withQuetab l).thrcount = k.thrcount ∧ (k.withQuetab l).thrcurrent = k.thrcurrent ∧
    (k.withQuetab l).resdefer = k.resdefer ∧ (k.withQuetab l).nextqid = k.nextqid ∧ (k.withQuetab l).heap = k.heap ∧
    (k.withQuetab l).future = k.future ∧ (k.withQuetab l).stack = k.stack ∧ (k.withQuetab l).log = k.log := by
  simp [withQuetab]

/-! ## The queue operations -/

namespace Rel

theorem emit (rel : Rel k a) (e : Event) : Rel (k.emit e) (a.emit e) := by
  cases rel with | mk repr => exact .mk repr

theorem setThr (rel : Rel k a) (t : Int) (e : Thrent) : Rel (k.setThr t e) (a.setThr t e) := by
  cases rel with | mk repr => exact .mk repr

theorem setState (rel : Rel k a) (t : Int) (s : ThrState) :
    Rel (k.setState t s) (a.setState t s) := by
  cases rel with | mk repr => exact .mk repr

theorem setStack (rel : Rel k a) (t : Int) (fs : List Frame) :
    Rel (k.setStack t fs) (a.setStack t fs) := by
  cases rel with | mk repr => exact .mk repr

theorem push (rel : Rel k a) (f : Frame) : Rel (k.push f) (a.push f) := by
  cases rel with | mk repr => exact .mk repr

theorem ret (rel : Rel k a) (v : Int) : Rel (k.ret v) (a.ret v) := rel.push _

theorem deposit (rel : Rel k a) (t m : Int) : Rel (k.deposit t m) (a.deposit t m) := by
  cases rel with | mk repr => exact .mk repr

theorem takeMessage (rel : Rel k a) : Rel k.takeMessage a.takeMessage := by
  cases rel with | mk repr => exact .mk repr

theorem setCount (rel : Rel k a) (s : Nat) (v : Int) : Rel (k.setCount s v) (a.setCount s v) := by
  cases rel with | mk repr => exact .mk repr

theorem setCurrent (rel : Rel k a) : Rel { k with thrcurrent := t } { a with thrcurrent := t } := by
  cases rel with | mk repr => exact .mk repr

theorem setSem (rel : Rel k a) (s : Nat) (e : Sement) : Rel (k.setSem s e) (a.setSem s e) := by
  cases rel with | mk repr => exact .mk repr

theorem setHeap (rel : Rel k a) (heap : Heap) : Rel { k with heap } { a with heap } := by
  cases rel with | mk repr => exact .mk repr

theorem thrtab (rel : Rel k a) : a.thrtab = k.thrtab := by cases rel; rfl
theorem semtab (rel : Rel k a) : a.semtab = k.semtab := by cases rel; rfl
theorem montab (rel : Rel k a) : a.montab = k.montab := by cases rel; rfl
theorem readylist (rel : Rel k a) : a.readylist = k.readylist := by cases rel; rfl
theorem sleepq (rel : Rel k a) : a.sleepq = k.sleepq := by cases rel; rfl
theorem thrcurrent (rel : Rel k a) : a.thrcurrent = k.thrcurrent := by cases rel; rfl
theorem resdefer (rel : Rel k a) : a.resdefer = k.resdefer := by cases rel; rfl
theorem stack (rel : Rel k a) : a.stack = k.stack := by cases rel; rfl
theorem log (rel : Rel k a) : a.log = k.log := by cases rel; rfl

theorem isbadsem (rel : Rel k a) (s : Nat) : a.isbadsem s = k.isbadsem s := by cases rel; rfl

theorem isbadtid (rel : Rel k a) (t : Int) : a.isbadtid t = k.isbadtid t := by cases rel; rfl

theorem firstid (rel : Rel k a) (good : a.Good q) :
    Queues.firstid k.quetab q = (a.quetab.ids q).headD (quetail q) := by
  cases rel with | mk repr => exact repr.firstid good.isq good.low

theorem nonempty (rel : Rel k a) (good : a.Good q) : k.nonempty q = a.nonempty q := by
  rw [Kernel.nonempty, rel.firstid good]
  rfl

theorem isempty (rel : Rel k a) (good : a.Good q) : k.isempty q = a.isempty q := by
  rw [Kernel.isempty, rel.firstid good]
  rfl

theorem key (rel : Rel k a) (lo : 0 ≤ t) (hi : t < c.nthread) :
    Queues.key k.quetab t = a.quetab.key t := by
  cases rel with | mk repr => exact repr.key t lo hi

theorem getitem (rel : Rel k a) (on : t ∈ a.quetab.ids q) : Rel (k.getitem t) (a.getitem t) := by
  cases rel with | mk repr => exact .mk (repr.getitem on)

theorem setKey (rel : Rel k a) (hi : t < c.nthread) :
    Rel (k.setQuetab (Queues.setKey k.quetab t v)) (a.setQuetab (a.quetab.setKey t v)) := by
  cases rel with | mk repr => exact .mk (repr.setKey hi)

theorem dequeue_cons (rel : Rel k a) (mid : a.Mid) (good : a.Good q)
    (ids : a.quetab.ids q = t :: rest) :
    (k.dequeue q).2 = t ∧ Rel (k.dequeue q).1 (a.getitem t) := by
  have member : t ∈ a.quetab.ids q := by simp [ids]
  obtain ⟨lo, hi⟩ := mid.valid member
  have busy : k.isempty q = false := by
    rw [rel.isempty good, ← Bool.not_eq_true, isempty_iff good (fun u on => mid.valid on), ids]
    simp
  have first : Queues.firstid k.quetab q = t := by
    rw [rel.firstid good, ids]
    rfl
  have off := (mid.located.getitem t).off (t := t) (by simp)
  cases rel with
  | @mk l repr =>
      simp only [Kernel.dequeue, good.isq.good, busy, first, Bool.false_eq_true, if_false]
      refine ⟨trivial, ?_⟩
      split
      · exact .mk (repr.getitem member)
      · exact .mk ((repr.getitem member).clear hi off)

theorem dequeue_nil (rel : Rel k a) (mid : a.Mid) (good : a.Good q) (ids : a.quetab.ids q = []) :
    k.dequeue q = (k, EMPTY) := by
  have empty : k.isempty q = true := by
    rw [rel.isempty good]
    exact (isempty_iff good (fun u on => mid.valid on)).mpr ids
  simp [Kernel.dequeue, good.isq.good, empty]

theorem enqueue (rel : Rel k a) (good : a.Good q) (live : k.isbadtid t = false)
    (off : ∀ q, t ∉ a.quetab.ids q) : Rel (k.enqueue t q) (a.enqueue t q) := by
  obtain ⟨lo, hi, -⟩ := (isbadtid_eq_false k t).mp live
  rw [enqueue_lists good.isq (by rwa [rel.isbadtid])]
  simp only [Kernel.enqueue, good.isq.good, live, Bool.or_self, Bool.false_eq_true, if_false]
  cases rel with | mk repr => exact .mk (repr.enqueue good.isq good.low lo hi off)

theorem insertd (rel : Rel k a) (good : a.Good q) (live : k.isbadtid t = false)
    (off : ∀ q, t ∉ a.quetab.ids q) (ends : (k.insertd t q v).1.stopped = false) :
    (k.insertd t q v).2 = OK ∧ Rel (k.insertd t q v).1 (a.insertd t q v).1 := by
  obtain ⟨lo, hi, -⟩ := (isbadtid_eq_false k t).mp live
  rw [insertd_lists good.isq (by rwa [rel.isbadtid])]
  simp only [Kernel.insertd, good.isq.good, live, Bool.or_self, Bool.false_eq_true, if_false] at ends ⊢
  split at ends
  · simp at ends
  · rename_i tab eq
    cases rel with
    | mk repr => exact ⟨rfl, .mk (repr.insertd good.isq good.low lo hi off eq)⟩

theorem makeReady (rel : Rel k a) (layout : a.Layout) (lo : 0 ≤ t) (hi : t < c.nthread)
    (off : ∀ q, t ∉ a.quetab.ids q) (ends : (k.makeReady t).stopped = false) :
    Rel (k.makeReady t) (a.makeReady t) := by
  have live : (k.setState t .ready).isbadtid t = false := by simp [lo, hi]
  have live' : (a.setState t .ready).isbadtid t = false := by simp [lo, hi]
  have good := layout.good_ready
  have list : (k.setState t .ready).readylist = a.readylist := by simp [rel.readylist]
  simp only [Kernel.makeReady, list, setState_frame] at ends ⊢
  rw [insert_lists good.isq live']
  simp only [Kernel.insert, good.isq.good, live, Bool.or_self, Bool.false_eq_true, if_false] at ends ⊢
  split at ends
  · simp at ends
  · rename_i tab eq
    cases rel with
    | mk repr => exact .mk (repr.insert good.isq good.low lo hi off eq)

theorem switch (rel : Rel k a) (blocked : a.Blocked) : Rel k.switch a.switch := by
  obtain ⟨t, rest, ids⟩ := blocked.ready_cons
  obtain ⟨head, taken⟩ := rel.dequeue_cons blocked.toMid blocked.layout.good_ready ids
  rw [blocked.toMid.switch_eq ids, Kernel.switch]
  rw [rel.readylist] at head taken
  simp only [head]
  exact (taken.setCurrent.setState t .curr).emit (.chosen t)

theorem resched (rel : Rel k a) (blocked : a.Blocked) : Rel k.resched a.switch := by
  have undeferred : ¬ k.resdefer > 0 := by
    rw [← rel.resdefer, blocked.undeferred]
    decide
  have away : (k.thrtab k.thrcurrent).state ≠ .curr := by
    rw [← rel.thrtab, ← rel.thrcurrent]
    exact blocked.blocked
  rw [Kernel.resched, if_neg undeferred]
  simp only [if_neg away]
  exact rel.switch blocked

end Rel

/-! ## A kernel that has stopped stays stopped -/

section
variable {Q : Type} [Queues Q] {k : Kernel c Q} {t q v : Int}

theorem insert_ends (ends : (k.insert t q v).stopped = false) : k.stopped = false := by
  unfold insert at ends
  split at ends
  · exact ends
  · split at ends
    · simp at ends
    · simpa using ends

theorem makeReady_ends (ends : (k.makeReady t).stopped = false) : k.stopped = false := by
  simp only [makeReady, emit_frame] at ends
  simpa using insert_ends ends

theorem resched_ends (ends : k.resched.stopped = false) : k.stopped = false := by
  unfold resched at ends
  split at ends
  · exact ends
  · simp only at ends
    split at ends
    · split at ends
      · simpa using ends
      · exact makeReady_ends (by simpa using ends)
    · simpa using ends

theorem ready_ends {b : Bool} (ends : (k.ready t b).stopped = false) : k.stopped = false := by
  unfold ready at ends
  split at ends
  · exact ends
  · cases b with
    | true => exact makeReady_ends (resched_ends (by simpa using ends))
    | false => exact makeReady_ends (by simpa using ends)

end

theorem wakeupLoop_ends {n : Nat} (ends : (wakeupLoop n k).stopped = false) : k.stopped = false := by
  induction n generalizing k with
  | zero => simp [wakeupLoop] at ends
  | succ n ih =>
      unfold wakeupLoop at ends
      split at ends
      · have inner : (((k.dequeue k.sleepq).1.emit (.woken _)).ready _ false).stopped = false := ih ends
        simpa only [emit_frame, dequeue_frame] using ready_ends inner
      · exact ends

theorem semfreeLoop_ends {n : Nat} (ends : (semfreeLoop q n k).stopped = false) :
    k.stopped = false := by
  induction n generalizing k with
  | zero => simp [semfreeLoop] at ends
  | succ n ih =>
      unfold semfreeLoop at ends
      split at ends
      · have inner : ((k.dequeue q).1.ready _ false).stopped = false := ih ends
        simpa only [dequeue_frame] using ready_ends inner
      · exact ends

theorem killSwitch_ends (ends : (k.killSwitch t).stopped = false) : k.stopped = false := by
  unfold killSwitch at ends
  split at ends
  · simpa using ends
  · simpa using resched_ends ends
  · simpa [killWait, killReady] using ends
  · simpa [killReady] using ends
  · simpa using ends

theorem Calling.keep {call : Call} (calling : Calling x b a call)
    (same : a₁.thrcurrent = a.thrcurrent) : Calling x b a₁ call :=
  ⟨calling.act, same.trans calling.here⟩

theorem Rel.doesRet {call : Call} (rel : Rel k a) (calling : Calling x b a call)
    (answers : Answers a v call) : Does x b (k.ret v) a :=
  (Move.ret calling answers).does (rel.ret v)

/-! ## Scheduling -/

theorem does_resched (rel : Rel k a) (inv : a.Inv)
    (quiet : ∀ f, a.frame a.thrcurrent ≠ some (.getSignalled f))
    (ends : k.resched.stopped = false) : Does x b k.resched a := by
  have undeferred : ¬ k.resdefer > 0 := by
    rw [← rel.resdefer, inv.undeferred]
    decide
  have curr : (k.thrtab k.thrcurrent).state = .curr := by
    rw [← rel.thrtab, ← rel.thrcurrent]
    exact inv.running
  rw [resched, if_neg undeferred] at ends ⊢
  simp only [if_pos curr] at ends ⊢
  have good := inv.layout.good_ready
  split
  · rename_i highest
    obtain ⟨busy, higher⟩ := highest
    rw [← rel.readylist, rel.nonempty good, nonempty_iff good (fun u on => inv.valid on)] at busy
    obtain ⟨t, rest, ids⟩ := List.exists_cons_of_ne_nil busy
    obtain ⟨lo, hi⟩ := inv.valid (t := t) (q := a.readylist) (by simp [ids])
    have first : k.firstkey k.readylist = a.quetab.key t := by
      rw [firstkey, ← rel.readylist, rel.firstid good, ids]
      exact rel.key lo hi
    refine (Move.stay ids ?_).does ?_
    · rw [rel.thrtab, rel.thrcurrent, ← first]
      exact higher
    · rw [← rel.thrcurrent]
      exact rel.emit _
  · rename_i lower
    rw [if_neg lower] at ends
    have off := inv.located.off (inv.toMid.current_off inv.running quiet)
    have ready : Rel (k.makeReady k.thrcurrent) (a.makeReady a.thrcurrent) := by
      rw [rel.thrcurrent] at off ⊢
      refine rel.makeReady inv.layout ?_ ?_ off (by simpa using ends)
      · rw [← rel.thrcurrent]; exact inv.lo
      · rw [← rel.thrcurrent]; exact inv.hi
    exact (Move.leaves (.yield quiet)).does (ready.switch (inv.yield quiet))

theorem ready_true (live : k.isbadtid t = false) : k.ready t true = (k.makeReady t).resched := by
  simp [ready, live]

theorem ready_false (live : k.isbadtid t = false) : k.ready t false = k.makeReady t := by
  simp [ready, live]

theorem Rel.readyFalse (rel : Rel k a) (layout : a.Layout) (live : k.isbadtid t = false)
    (off : ∀ q, t ∉ a.quetab.ids q) (ends : (k.ready t false).stopped = false) :
    Rel (k.ready t false) (a.makeReady t) := by
  obtain ⟨lo, hi, -⟩ := (isbadtid_eq_false k t).mp live
  rw [ready_false live] at ends ⊢
  exact rel.makeReady layout lo hi off ends

theorem does_ready (rel : Rel k a₁) (move : Move x b a (a₁.makeReady t)) (inv : a.Inv)
    (layout : a₁.Layout) (live : k.isbadtid t = false) (off : ∀ q, t ∉ a₁.quetab.ids q)
    (quiet : ∀ f, a₁.frame a₁.thrcurrent ≠ some (.getSignalled f))
    (ends : (k.ready t true).stopped = false) : Does x b (k.ready t true) a := by
  obtain ⟨lo, hi, -⟩ := (isbadtid_eq_false k t).mp live
  rw [ready_true live] at ends ⊢
  have moved := rel.makeReady layout lo hi off (resched_ends ends)
  refine move.andThen (does_resched moved (move.inv inv) ?_ ends)
  simpa [frame] using quiet

/-! ## The calls -/

theorem does_resume (rel : Rel k a) (inv : a.Inv) (calling : Calling x b a (.resume t))
    (clear : a.frame a.thrcurrent = none) (ends : (k.resume t).stopped = false) :
    Does x b (k.resume t) a := by
  unfold resume at ends ⊢
  split
  · exact rel.doesRet calling trivial
  · rename_i ok
    rw [if_neg ok] at ends
    simp only [not_or, Bool.not_eq_true, not_not] at ok
    obtain ⟨live, susp⟩ := ok
    obtain ⟨lo, hi, -⟩ := (isbadtid_eq_false k t).mp live
    have state : (a.thrtab t).state = .susp := by rw [rel.thrtab]; exact susp
    have off := inv.located.off (home_eq_none (.inr (.inl state)))
    refine (Move.ret (v := (k.thrtab t).prio) calling trivial).andThen ?_
    exact does_ready (rel.ret _) (.wake lo hi (.inl ⟨calling.act, by simpa using state⟩)) (inv.ret _)
      (inv.ret _).layout live off (by simp [clear]) ends

theorem does_readyCall {r : Bool} (rel : Rel k a) (inv : a.Inv)
    (calling : Calling x b a (.ready t r)) (clear : a.frame a.thrcurrent = none)
    (allowed : k.isbadtid t = true ∨ (k.thrtab t).state = .susp ∨ (k.thrtab t).state = .recv ∨
      t = k.thrcurrent ∧ r = true)
    (ends : ((k.ret v).ready t r).stopped = false) : Does x b ((k.ret v).ready t r) a := by
  cases bad : k.isbadtid t with
  | true =>
      have idle : (k.ret v).ready t r = k.ret v := by
        simp [ready, show (k.ret v).isbadtid t = true from bad]
      rw [idle]
      exact rel.doesRet calling trivial
  | false =>
      obtain ⟨lo, hi, -⟩ := (isbadtid_eq_false k t).mp bad
      have live : (k.ret v).isbadtid t = false := bad
      refine (Move.ret (v := v) calling trivial).andThen ?_
      rw [bad] at allowed
      simp only [Bool.false_eq_true, false_or, ← or_assoc] at allowed
      rcases allowed with state | ⟨self, rfl⟩
      · rw [← rel.thrtab] at state
        have off := inv.located.off (home_eq_none (.inr state))
        have move : Move x b (a.ret v) ((a.ret v).makeReady t) :=
          .wake lo hi (.inr ⟨r, calling.act, by simpa using state⟩)
        cases r with
        | true =>
            exact does_ready (rel.ret v) move (inv.ret v) (inv.ret v).layout live off
              (by simp [clear]) ends
        | false => exact move.does ((rel.ret v).readyFalse (inv.ret v).layout live off ends)
      · -- the current thread puts itself on the ready list and is switched off
        have quiet : ∀ f, (a.ret v).frame (a.ret v).thrcurrent ≠ some (.getSignalled f) := by
          simp [clear]
        have current : (a.ret v).thrcurrent = t := by simp [rel.thrcurrent, self]
        have off := (inv.ret v).located.off
          ((inv.ret v).toMid.current_off (inv.ret v).running quiet)
        rw [current] at off
        rw [ready_true live] at ends ⊢
        have moved := (rel.ret v).makeReady (inv.ret v).layout lo hi off (resched_ends ends)
        have blocked := (inv.ret v).yield quiet
        refine (Move.leaves (.yield quiet)).does ?_
        rw [current] at blocked ⊢
        exact moved.resched blocked

theorem does_suspend (rel : Rel k a) (inv : a.Inv) (calling : Calling x b a (.suspend t))
    (clear : a.frame a.thrcurrent = none) : Does x b (k.suspend t) a := by
  unfold suspend
  split
  · exact rel.doesRet calling trivial
  rename_i ok
  simp only [not_or, Bool.not_eq_true] at ok
  obtain ⟨live, user⟩ := ok
  obtain ⟨lo, hi, -⟩ := (isbadtid_eq_false k t).mp live
  split
  · rename_i state
    rw [← rel.thrtab] at state
    have on := (inv.located.mem _ t).mpr (home_ready lo hi state)
    exact (Move.suspend calling.act user lo hi state).andThen
      (((rel.getitem on).setState t .susp).doesRet (calling.keep (by simp)) trivial)
  · rename_i state
    have self : t = a.thrcurrent := inv.single t lo hi (by rw [rel.thrtab]; exact state)
    subst self
    refine (Move.leaves (.suspendSelf calling user clear)).does ?_
    exact ((rel.setState _ .susp).push _).resched
      (inv.leave user clear (.inr (.inl rfl)) rfl (by simp) (by simp) (by simp))
  · exact rel.doesRet calling trivial

theorem does_chprio {p : Int} (rel : Rel k a) (calling : Calling x b a (.chprio t p))
    (start : a = b.emit (.call b.thrcurrent (.chprio t p))) : Does x b (k.chprio t p) a := by
  unfold chprio
  split
  · exact rel.doesRet calling trivial
  · rename_i live
    rw [Bool.not_eq_true, ← rel.isbadtid] at live
    refine (Move.chprio calling.act live start).andThen
      (Rel.doesRet ?_ (calling.keep (by simp)) trivial)
    rw [rel.thrtab]
    exact rel.setThr t _

theorem does_reschedCall {call : Call} (rel : Rel k a) (inv : a.Inv) (calling : Calling x b a call)
    (answers : Answers a v call) (clear : a.frame a.thrcurrent = none)
    (ends : (k.ret v).resched.stopped = false) : Does x b (k.ret v).resched a :=
  (Move.ret calling answers).andThen
    (does_resched (rel.ret v) (inv.ret v) (by simp [clear]) ends)

/-! ### The clock -/

theorem current_live (rel : Rel k a) (inv : a.Inv) : k.isbadtid k.thrcurrent = false := by
  rw [← rel.thrcurrent, ← rel.isbadtid]
  simp [inv.lo, inv.hi, inv.running]

theorem does_sleep {ms : Nat} (rel : Rel k a) (inv : a.Inv) (calling : Calling x b a (.sleep ms))
    (start : a = b.emit (.call b.thrcurrent (.sleep ms))) (clear : a.frame a.thrcurrent = none)
    (user : a.thrcurrent ≠ NULLTHREAD) (ends : (k.sleep ms).stopped = false) : Does x b (k.sleep ms) a := by
  have off := inv.located.off (inv.toMid.current_off inv.running (by simp [clear]))
  have live := current_live rel inv
  unfold sleep at ends ⊢
  simp only at ends ⊢
  split
  · rename_i positive
    rw [if_pos positive] at ends
    rw [rel.thrcurrent] at off
    have inside : (k.insertd k.thrcurrent k.sleepq (sleepTicks ms)).1.stopped = false := by
      split at ends
      · simpa using ends
      · simpa using resched_ends ends
    rw [← rel.sleepq] at inside ends ⊢
    obtain ⟨ok, moved⟩ := rel.insertd inv.layout.good_sleep live off inside
    rw [if_neg (by rw [ok]; decide)] at ends ⊢
    refine (Move.leaves (.sleep calling.act start positive user clear)).does ?_
    rw [rel.thrcurrent]
    refine (((moved.setState _ .sleep).emit _).ret OK).resched ?_
    rw [← rel.thrcurrent]
    exact inv.doze _ user clear (.inl rfl) (.inl rfl)
  · rename_i idle
    rw [if_neg idle] at ends
    exact does_reschedCall rel inv calling trivial clear ends

theorem does_recvtime {n : Int} (rel : Rel k a) (inv : a.Inv) (calling : Calling x b a (.recvtime n))
    (start : a = b.emit (.call b.thrcurrent (.recvtime n))) (int : n ≤ MAXKEY) (empty : a.stack a.thrcurrent = [])
    (user : a.thrcurrent ≠ NULLTHREAD) (ends : (k.recvtime n).stopped = false) : Does x b (k.recvtime n) a := by
  have clear := frame_nil empty
  have off := inv.located.off (inv.toMid.current_off inv.running (by simp [clear]))
  have live := current_live rel inv
  unfold recvtime at ends ⊢
  split
  · rename_i negative
    exact rel.doesRet calling ⟨rfl, negative, empty⟩
  rename_i positive
  rw [if_neg positive] at ends
  split
  · rename_i full
    rw [← rel.thrtab, ← rel.thrcurrent] at full
    exact (Move.take calling (.inr (.inr ⟨n, rfl⟩)) full empty).does rel.takeMessage
  · rename_i nothing
    rw [if_neg nothing] at ends
    rw [rel.thrcurrent] at off
    have inside : (k.insertd k.thrcurrent k.sleepq n).1.stopped = false := by
      simp only at ends
      split at ends
      · simpa using ends
      · simpa using resched_ends ends
    simp only [← rel.sleepq] at inside ends ⊢
    obtain ⟨ok, moved⟩ := rel.insertd inv.layout.good_sleep live off inside
    rw [if_neg (by rw [ok]; decide)] at ends ⊢
    have quiet : (a.thrtab a.thrcurrent).hasmsg = false := by
      rw [rel.thrtab, rel.thrcurrent]
      simpa using nothing
    refine (Move.leaves (.recvtime calling.act start (by omega) int quiet user empty)).does ?_
    rw [rel.thrcurrent]
    refine (((moved.setState _ .tmout).emit _).push .recvtime).resched ?_
    rw [← rel.thrcurrent]
    exact inv.doze _ user clear (.inr rfl) (.inr rfl)

theorem wakeupLoop_wakes (n : Nat) (rel : Rel k a) (inv : a.Inv)
    (ends : (wakeupLoop n k).stopped = false) : ∃ ts rest, a.quetab.ids a.sleepq = ts ++ rest ∧
      (∀ t ∈ ts, a.quetab.key t ≤ 0) ∧ (∀ t ∈ rest.head?, 0 < a.quetab.key t) ∧
      Rel (wakeupLoop n k) (ts.foldl wake a) := by
  induction n generalizing k a with
  | zero => simp [wakeupLoop] at ends
  | succ n ih =>
      have good := inv.layout.good_sleep
      unfold wakeupLoop at ends ⊢
      split
      · rename_i due
        rw [if_pos due] at ends
        obtain ⟨busy, due⟩ := due
        rw [← rel.sleepq, rel.nonempty good, nonempty_iff good (fun u on => inv.valid on)] at busy
        obtain ⟨t, rest, ids⟩ := List.exists_cons_of_ne_nil busy
        have member : t ∈ a.quetab.ids a.sleepq := by simp [ids]
        obtain ⟨lo, hi⟩ := inv.valid member
        have first : k.firstkey k.sleepq = a.quetab.key t := by
          rw [firstkey, ← rel.sleepq, rel.firstid good, ids]
          exact rel.key lo hi
        rw [first] at due
        obtain ⟨head, taken⟩ := rel.dequeue_cons inv.toMid good ids
        rw [rel.sleepq] at head taken
        simp only [head] at ends ⊢
        have asleep := inv.layout.of_sleep (inv.home_of_mem member)
        have live : ((k.dequeue k.sleepq).1.emit (.woken t)).isbadtid t = false := by
          rw [← (taken.emit (.woken t)).isbadtid]
          rcases asleep with state | state <;> simp [lo, hi, state]
        have off := (inv.located.getitem t).off (t := t) (by simp)
        have layout : ((a.getitem t).emit (.woken t)).Layout := inv.layout.fixed (.of (by simp))
        have ready := (taken.emit (.woken t)).readyFalse layout live off (wakeupLoop_ends ends)
        obtain ⟨inv₁, left⟩ := inv.wake ids
        obtain ⟨ts, later, split, past, future, woken⟩ := ih (a := a.wake t) ready inv₁ ends
        have split' : rest = ts ++ later := left.symm.trans split
        have others : ∀ u ∈ rest, (a.wake t).quetab.key u = a.quetab.key u := by
          intro u on
          have nodup := inv.located.nodup a.sleepq
          rw [ids, List.nodup_cons] at nodup
          have apart : u ≠ t := fun eq => nodup.1 (eq ▸ on)
          rw [wake, makeReady_quetab layout lo hi]
          simp [Lists.insert, Lists.setKey, Lists.put, apart]
        refine ⟨t :: ts, later, by rw [ids, split']; rfl, ?_, ?_, woken⟩
        · intro u on
          rcases List.mem_cons.mp on with rfl | on
          · exact due
          · rw [← others u (by simp [split', on])]
            exact past u on
        · intro u top
          have on : u ∈ rest := by
            rw [split']
            exact List.mem_append_right ts (List.mem_of_mem_head? top)
          rw [← others u on]
          exact future u top
      · rename_i rest
        refine ⟨[], a.quetab.ids a.sleepq, rfl, by simp, ?_, rel⟩
        intro t top
        have on := List.mem_of_mem_head? top
        obtain ⟨lo, hi⟩ := inv.valid on
        have busy : k.nonempty k.sleepq = true := by
          rw [← rel.sleepq, rel.nonempty good, nonempty_iff good (fun u on => inv.valid on)]
          exact List.ne_nil_of_mem on
        have first : k.firstkey k.sleepq = a.quetab.key t := by
          rw [firstkey, ← rel.sleepq, rel.firstid good, List.headD_eq_head?_getD, top]
          exact rel.key lo hi
        rw [← first]
        simp only [busy, true_and] at rest
        omega

theorem countTick_eq {Q : Type} [Queues Q] (k : Kernel c Q) :
    ∃ clktime clkticks, k.countTick = { k with clktime, clkticks } := by
  unfold countTick
  simp only
  split
  · exact ⟨_, _, rfl⟩
  · exact ⟨k.clktime, _, rfl⟩

theorem clkhandler_wakes (rel : Rel k b) (inv : b.Inv) (ends : k.clkhandler.stopped = false) :
    ∃ k₁ clktime clkticks ts rest, k.clkhandler = k₁.resched ∧
      b.quetab.ids b.sleepq = ts ++ rest ∧
      (∀ t ∈ ts, (b.countdown clktime clkticks).quetab.key t ≤ 0) ∧
      (∀ t ∈ rest.head?, 0 < (b.countdown clktime clkticks).quetab.key t) ∧
      Rel k₁ (ts.foldl wake (b.countdown clktime clkticks)) := by
  obtain ⟨clktime, clkticks, eq⟩ := k.countTick_eq
  have rel₁ : Rel (k.countTick.emit .tick) (({ b with clktime, clkticks } : Kernel c Lists).emit .tick) := by
    rw [eq]
    cases rel with | mk repr => exact .mk repr
  have good := inv.layout.good_sleep
  have inv₁ := inv.countdown clktime clkticks
  have good₁ : (({ b with clktime, clkticks } : Kernel c Lists).emit .tick).Good b.sleepq :=
    ⟨good.isq, good.low⟩
  have busy : (k.countTick.emit .tick).nonempty (k.countTick.emit .tick).sleepq = b.nonempty b.sleepq := by
    rw [← rel₁.sleepq]
    exact rel₁.nonempty good₁
  unfold clkhandler at ends ⊢
  simp only [busy] at ends ⊢
  generalize k.countTick.emit .tick = k₁ at rel₁ ends ⊢
  cases ids : b.quetab.ids b.sleepq with
  | nil =>
      have idle : ¬ b.nonempty b.sleepq = true := by
        rw [nonempty_iff good (fun u on => inv.valid on), ids]
        simp
      rw [if_neg idle]
      refine ⟨k₁, clktime, clkticks, [], [], rfl, rfl, by simp, by simp, ?_⟩
      simpa [countdown, ids] using rel₁
  | cons t rest =>
      have awaited : b.nonempty b.sleepq = true := by
        rw [nonempty_iff good (fun u on => inv.valid on), ids]
        simp
      obtain ⟨lo, hi⟩ := inv.valid (t := t) (q := b.sleepq) (by simp [ids])
      have first : Queues.firstid k₁.quetab k₁.sleepq = t := by
        rw [← rel₁.sleepq]
        exact (rel₁.firstid good₁).trans (by simp [ids])
      rw [if_pos awaited] at ends ⊢
      rw [first, rel₁.key lo hi] at ends ⊢
      have rel₂ := rel₁.setKey (t := t) (v := b.quetab.key t - 1) hi
      have counted : b.countdown clktime clkticks =
          (({ b with clktime, clkticks } : Kernel c Lists).emit .tick).setQuetab
            (b.quetab.setKey t (b.quetab.key t - 1)) := by
        simp [countdown, ids]
      change Rel _ ((({ b with clktime, clkticks } : Kernel c Lists).emit .tick).setQuetab
        (b.quetab.setKey t (b.quetab.key t - 1))) at rel₂
      rw [← counted] at rel₂
      simp only [emit_frame] at ends ⊢
      generalize k₁.setQuetab (Queues.setKey k₁.quetab t (b.quetab.key t - 1)) = k₂ at rel₂ ends ⊢
      split
      · rename_i due
        rw [if_pos due] at ends
        obtain ⟨ts, later, split, past, future, woken⟩ :=
          wakeupLoop_wakes _ rel₂ inv₁ (resched_ends ends)
        exact ⟨wakeupLoop (c.nthread + 1) k₂, clktime, clkticks, ts, later, rfl, by simpa [ids] using split, past, future, woken⟩
      · rename_i later
        refine ⟨k₂, clktime, clkticks, [], t :: rest, rfl, rfl, by simp, ?_, rel₂⟩
        have key : k₂.firstkey k₂.sleepq = (b.countdown clktime clkticks).quetab.key t := by
          have good₂ := inv₁.layout.good_sleep
          rw [firstkey, ← rel₂.sleepq, rel₂.firstid good₂]
          simp only [countdown_frame, ids, List.headD_cons]
          exact rel₂.key lo hi
        simp only [List.head?_cons, Option.mem_some_iff, forall_eq', ← key]
        omega

theorem does_clkhandler (tick : x = .tick) (rel : Rel k b) (inv : b.Inv)
    (clear : b.frame b.thrcurrent = none) (ends : k.clkhandler.stopped = false) :
    Does x b k.clkhandler b := by
  obtain ⟨k₁, clktime, clkticks, ts, rest, eq, ids, past, future, rel₁⟩ :=
    clkhandler_wakes rel inv ends
  have move : Move x b b _ := .tick clktime clkticks tick ids past future
  rw [eq] at ends ⊢
  refine move.andThen (does_resched rel₁ (move.inv inv) ?_ ends)
  have same : (ts.foldl wake (b.countdown clktime clkticks)).frame
      (ts.foldl wake (b.countdown clktime clkticks)).thrcurrent = b.frame b.thrcurrent := by
    simp [frame, wakes_frame]
  simp [same, clear]

/-! ### Messages -/

theorem Rel.unsleep (rel : Rel k a) (mid : a.Mid) (lo : 0 ≤ t) (hi : t < c.nthread)
    (state : (a.thrtab t).state = .sleep ∨ (a.thrtab t).state = .tmout) :
    Rel (k.unsleep t).1 (a.unsleep t).1 := by
  have on := (mid.located.mem _ t).mpr (home_sleep lo hi state)
  have range : Queues.nextid a.quetab t < c.nthread → 0 ≤ Queues.nextid a.quetab t :=
    fun low => (mid.valid (nextid_mem mid on mid.layout.good_sleep low)).1
  have live : a.isbadtid t = false := by
    rcases state with state | state <;> simp [lo, hi, state]
  have asleep : ¬((a.thrtab t).state ≠ .sleep ∧ (a.thrtab t).state ≠ .tmout) := by tauto
  cases rel with
  | @mk l repr =>
      have next : Queues.nextid k.quetab t = Queues.nextid l t := repr.nextid on
      have live' : k.isbadtid t = false := live
      simp only [withQuetab_frame] at asleep on range
      simp only [Kernel.unsleep, live, live', if_neg asleep, withQuetab_frame, Bool.false_eq_true, if_false,
        next]
      split
      · rename_i low
        have key : Queues.key k.quetab (Queues.nextid l t) = Queues.key l (Queues.nextid l t) :=
          repr.key _ (range low) low
        have key' : Queues.key k.quetab t = Queues.key l t := repr.key t lo hi
        rw [key, key']
        exact .mk ((repr.setKey low).getitem on)
      · exact .mk (repr.getitem on)

theorem does_send {m : Int} {call : Call} (rel : Rel k a) (inv : a.Inv)
    (calling : Calling x b a call) (kind : (∃ u, call = .kill u) ∨ call = .send t m)
    (quiet : ∀ f, a.frame a.thrcurrent ≠ some (.getSignalled f))
    (ends : (k.send t m).stopped = false) : Does x b (k.send t m) a := by
  have refused : Answers a SYSERR call := by
    rcases kind with ⟨u, rfl⟩ | rfl
    · trivial
    · rfl
  unfold send at ends ⊢
  split
  · exact rel.doesRet calling refused
  rename_i live
  rw [if_neg live] at ends
  rw [Bool.not_eq_true] at live
  simp only at ends ⊢
  split
  · exact rel.doesRet calling refused
  rename_i slot
  rw [if_neg slot] at ends
  simp only [not_or, Bool.not_eq_true, ← rel.thrtab] at slot
  obtain ⟨alive, empty⟩ := slot
  obtain ⟨lo, hi, -⟩ := (isbadtid_eq_false k t).mp live
  have rel₁ := (rel.deposit t m).ret OK
  have inv₁ := (inv.deposit t m).ret OK
  have live₁ : ((k.deposit t m).ret OK).isbadtid t = false := by
    simpa [lo, hi] using ((isbadtid_eq_false k t).mp live).2.2
  have quiet₁ : ∀ f, ((a.deposit t m).ret OK).frame a.thrcurrent ≠ some (.getSignalled f) := by
    simpa [frame, Frame.isRet] using quiet
  have states : (((a.deposit t m).ret OK).thrtab t).state = (k.thrtab t).state := by
    simp [rel.thrtab]
  have before : (a.thrtab t).state = (k.thrtab t).state := by rw [rel.thrtab]
  split
  · rename_i state
    rw [state] at states before ends
    have off := inv₁.located.off (home_eq_none (.inr (.inr states)))
    exact does_ready rel₁ (.deliver calling kind lo hi empty before) inv inv₁.layout live₁ off quiet₁ ends
  · rename_i state
    rw [state] at states before ends
    have off := (unsleep_located inv₁.located lo hi (.inr states)).off (t := t) (by simp)
    refine does_ready (rel₁.unsleep inv₁.toMid lo hi (.inr states))
      (.interrupt calling kind lo hi empty before) inv (inv₁.layout.fixed (.of (by simp))) ?_ off ?_ ends
    · simpa [Kernel.isbadtid] using live₁
    · simpa [frame, Frame.isRet] using quiet
  · rename_i other other'
    refine Move.does (.deposit calling kind lo hi empty alive ?_ ?_) rel₁
    · rw [before]
      exact other
    · rw [before]
      exact other'

theorem does_receive (rel : Rel k a) (inv : a.Inv) (calling : Calling x b a .receive)
    (stack : a.stack a.thrcurrent = []) (user : a.thrcurrent ≠ NULLTHREAD) :
    Does x b k.receive a := by
  have clear := frame_nil stack
  unfold receive
  split
  · rename_i full
    rw [← rel.thrtab, ← rel.thrcurrent] at full
    exact (Move.take calling (.inl rfl) full stack).does rel.takeMessage
  · rename_i empty
    rw [Bool.not_eq_true, ← rel.thrtab, ← rel.thrcurrent] at empty
    refine (Move.leaves (.listen calling empty user stack)).does ?_
    rw [rel.thrcurrent]
    refine ((rel.setState _ .recv).push .receive).resched ?_
    rw [← rel.thrcurrent]
    exact inv.leave user clear (.inr (.inr rfl)) rfl (by simp) (by simp) (by simp)

theorem does_recvclr (rel : Rel k a) (calling : Calling x b a .recvclr)
    (stack : a.stack a.thrcurrent = []) : Does x b k.recvclr a := by
  unfold recvclr
  split
  · rename_i full
    rw [← rel.thrtab, ← rel.thrcurrent] at full
    exact (Move.take calling (.inr (.inl rfl)) full stack).does rel.takeMessage
  · rename_i empty
    -- `hasmsg` is cleared when it is clear already
    have same : k.setThr k.thrcurrent { k.thrtab k.thrcurrent with hasmsg := false } = k := by
      rw [Bool.not_eq_true] at empty
      have entry : { k.thrtab k.thrcurrent with hasmsg := false } = k.thrtab k.thrcurrent := by
        rw [← empty]
      rw [entry, setThr, Function.update_eq_self]
    rw [same]
    refine rel.doesRet calling ⟨rfl, ?_, stack⟩
    rw [rel.thrtab, rel.thrcurrent]
    simpa using empty

/-! ### Semaphores -/

theorem does_wait {s : Nat} {call : Call} (rel : Rel k a) (inv : a.Inv)
    (calling : Calling x b a call) (kind : call = .wait s ∨ ∃ m, call = .lock m)
    (locks : ∀ f, a.frame a.thrcurrent = some f → ∃ m, f = .lockClaimed m ∨ f = .lockWaited m)
    (user : a.thrcurrent ≠ NULLTHREAD) : Does x b (k.wait s) a := by
  have plain : ∀ (a : Kernel c Lists) v, Answers a v call := by
    rintro a v
    rcases kind with rfl | ⟨m, rfl⟩ <;> trivial
  unfold wait
  split
  · exact rel.doesRet calling (plain _ _)
  rename_i bad
  have good : a.isbadsem s = false := by rw [rel.isbadsem]; simpa using bad
  have count : (a.semtab s).count = (k.semtab s).count := by rw [rel.semtab]
  simp only
  split
  · rename_i negative
    have quiet : ∀ f, a.frame a.thrcurrent ≠ some (.getSignalled f) := by
      intro f eq
      obtain ⟨m, this | this⟩ := locks _ eq <;> cases this
    have off := inv.located.off (inv.toMid.current_off inv.running quiet)
    have bound := (isbadsem_eq_false.mp good).1
    have blocks := inv.await bound user locks ((a.semtab s).count - 1)
    refine (Move.leaves (.await calling kind good (by omega) user locks)).does ?_
    refine Rel.resched (Rel.ret ?_ OK) blocks
    have counted : a.Like (a.setCount s ((a.semtab s).count - 1)) := like_setCount s _
    have rel₁ : Rel (((k.setCount s ((k.semtab s).count - 1)).emit (.wait k.thrcurrent s
        (decide ((k.semtab s).count - 1 < 0)))).setThr k.thrcurrent
          { k.thrtab k.thrcurrent with state := .wait, sem := s })
        (((a.setCount s ((a.semtab s).count - 1)).emit (.wait a.thrcurrent s true)).setThr
          a.thrcurrent { a.thrtab a.thrcurrent with state := .wait, sem := s }) := by
      rw [decide_eq_true negative, rel.thrtab, rel.thrcurrent, count]
      exact ((rel.setCount s _).emit _).setThr _ _
    have live : (((k.setCount s ((k.semtab s).count - 1)).emit (.wait k.thrcurrent s
        (decide ((k.semtab s).count - 1 < 0)))).setThr k.thrcurrent
          { k.thrtab k.thrcurrent with state := .wait, sem := s }).isbadtid k.thrcurrent = false := by
      rw [← rel.thrcurrent]
      simp [inv.lo, inv.hi]
    have queue : (k.semtab s).queue = (a.semtab s).queue := by rw [rel.semtab]
    simp only [setThr_frame, emit_frame, setCount_frame, Function.update_self]
    rw [queue, rel.thrcurrent] at *
    refine rel₁.enqueue ((inv.layout.good_sem bound).fixed (.of ⟨by simp, by simp, by simp, counted.sems, by simp⟩)) live off
  · rename_i positive
    refine (Move.pass calling kind good (by omega)).andThen
      (Rel.doesRet ?_ (calling.keep (by simp)) (plain _ _))
    rw [decide_eq_false positive, count, rel.thrcurrent]
    exact (rel.setCount s _).emit _

theorem does_signalOnce {s : Nat} {r : Bool} (rel : Rel k a) (inv : a.Inv)
    (good : k.isbadsem s = false)
    (quiet : ∀ f, a.frame a.thrcurrent ≠ some (.getSignalled f))
    (ends : (k.signalOnce s r).stopped = false) : Does x b (k.signalOnce s r) a := by
  rw [← rel.isbadsem] at good
  have bound := (isbadsem_eq_false.mp good).1
  have counted := (like_setCount (k := a) s ((a.semtab s).count + 1)).emit (.signal s)
  have inv₁ := (inv.setCount s ((a.semtab s).count + 1)).emit (.signal s)
  have rel₁ : Rel ((k.setCount s ((k.semtab s).count + 1)).emit (.signal s))
      ((a.setCount s ((a.semtab s).count + 1)).emit (.signal s)) := by
    rw [rel.semtab]
    exact (rel.setCount s _).emit _
  have queue : (((k.setCount s ((k.semtab s).count + 1)).emit (.signal s)).semtab s).queue =
      (a.semtab s).queue := by simp [rel.semtab]
  have count : (a.semtab s).count = (k.semtab s).count := by rw [rel.semtab]
  have good₁ := (inv.layout.good_sem bound).fixed counted.toFixed
  unfold signalOnce at ends ⊢
  simp only [queue] at ends ⊢
  generalize (k.setCount s ((k.semtab s).count + 1)).emit (.signal s) = k₁ at rel₁ ends ⊢
  split
  · rename_i negative
    rw [if_pos negative] at ends
    rw [← count] at negative
    cases ids : a.quetab.ids (a.semtab s).queue with
    | nil =>
        have none := rel₁.dequeue_nil inv₁.toMid good₁ ids
        have bad : ((k₁.dequeue (a.semtab s).queue).1.emit (.released EMPTY s)).isbadtid EMPTY =
          true := by simp [isbadtid]
        have idle : ((k₁.dequeue (a.semtab s).queue).1.emit (.released EMPTY s)).ready EMPTY r =
          k₁.emit (.released EMPTY s) := by rw [ready, if_pos bad, none]
        rw [none] at ends idle ⊢
        simp only [idle]
        exact (Move.releaseNone good negative ids).does (rel₁.emit _)
    | cons t rest =>
        have member : t ∈ a.quetab.ids (a.semtab s).queue := by simp [ids]
        obtain ⟨lo, hi⟩ := inv.valid member
        obtain ⟨waits, -⟩ := inv.layout.of_sem bound (inv.home_of_mem member)
        obtain ⟨head, taken⟩ := rel₁.dequeue_cons inv₁.toMid good₁ ids
        have off := (inv.located.getitem t).off (t := t) (by simp)
        simp only [head] at ends ⊢
        have rel₂ := taken.emit (.released t s)
        have live : ((k₁.dequeue (a.semtab s).queue).1.emit (.released t s)).isbadtid t = false := by
          rw [← rel₂.isbadtid]
          simp [lo, hi, waits]
        have layout : ((((a.setCount s ((a.semtab s).count + 1)).emit (.signal s)).getitem t).emit
          (.released t s)).Layout := inv₁.layout.fixed (.of (by simp))
        have move : Move x b a (((((a.setCount s ((a.semtab s).count + 1)).emit (.signal s)).getitem
          t).emit (.released t s)).makeReady t) := .release good negative ids
        cases r with
        | true => exact does_ready rel₂ move inv layout live off quiet ends
        | false => exact move.does (rel₂.readyFalse layout live off ends)
  · rename_i positive
    exact (Move.signal good (by omega)).does rel₁

theorem signalOnce_ends {Q : Type} [Queues Q] {k : Kernel c Q} {s : Nat} {r : Bool}
    (ends : (k.signalOnce s r).stopped = false) : k.stopped = false := by
  unfold signalOnce at ends
  simp only at ends
  split at ends
  · simpa using ready_ends ends
  · simpa using ends

theorem does_signal {s : Nat} {call : Call} (rel : Rel k a) (inv : a.Inv)
    (calling : Calling x b a call) (plain : ∀ v, Answers a v call)
    (quiet : ∀ f, a.frame a.thrcurrent ≠ some (.getSignalled f))
    (ends : (k.signal s).stopped = false) : Does x b (k.signal s) a := by
  unfold signal at ends ⊢
  split
  · exact rel.doesRet calling (plain _)
  · rename_i bad
    rw [if_neg bad] at ends
    refine (Move.ret calling (plain OK)).andThen (does_signalOnce (rel.ret OK) (inv.ret OK) ?_ ?_ ends)
    · simpa [isbadsem] using bad
    · simpa using quiet

theorem signalnLoop_ends {Q : Type} [Queues Q] {k : Kernel c Q} {s n : Nat}
    (ends : (signalnLoop s n k).stopped = false) : k.stopped = false := by
  induction n generalizing k with
  | zero => exact ends
  | succ n ih => exact signalOnce_ends (ih ends)

theorem does_signalnLoop {s : Nat} (n : Nat) (rel : Rel k a) (inv : a.Inv)
    (good : k.isbadsem s = false) (quiet : ∀ f, a.frame a.thrcurrent ≠ some (.getSignalled f))
    (ends : (signalnLoop s n k).stopped = false) : Does x b (signalnLoop s n k) a := by
  induction n generalizing k a with
  | zero => exact rel.does
  | succ n ih =>
      have first := does_signalOnce (x := x) (b := b) rel inv good quiet (signalnLoop_ends ends)
      refine first.andThen inv ?_
      intro a₁ rel₁ inv₁
      refine ih rel₁ inv₁ ?_ ?_ ends
      · simpa [isbadsem, signalOnce_false_frame] using good
      · simpa [frame, rel₁.stack, rel₁.thrcurrent, signalOnce_false_frame, rel.stack,
          rel.thrcurrent] using quiet

theorem does_signaln {s : Nat} {n : Int} (rel : Rel k a) (inv : a.Inv)
    (calling : Calling x b a (.signaln s n)) (clear : a.frame a.thrcurrent = none)
    (ends : (k.signaln s n).stopped = false) : Does x b (k.signaln s n) a := by
  unfold signaln at ends ⊢
  split
  · exact rel.doesRet calling trivial
  · rename_i ok
    rw [if_neg ok] at ends
    have good : (k.ret OK).isbadsem s = false := by
      simp only [not_or, Bool.not_eq_true] at ok
      simpa [isbadsem] using ok.1
    have quiet : ∀ f, (a.ret OK).frame (a.ret OK).thrcurrent ≠ some (.getSignalled f) := by
      simp [clear]
    refine (Move.ret (v := OK) calling trivial).andThen ?_
    have loop := does_signalnLoop (x := x) (b := b) n.toNat (rel.ret OK) (inv.ret OK) good quiet
      (resched_ends ends)
    refine loop.andThen (inv.ret OK) ?_
    intro a₁ rel₁ inv₁
    refine does_resched rel₁ inv₁ ?_ ends
    have same : a₁.frame a₁.thrcurrent = (a.ret OK).frame (a.ret OK).thrcurrent := by
      simp [frame, rel₁.stack, rel₁.thrcurrent, signalnLoop_frame, rel.stack, rel.thrcurrent]
    rw [same]
    exact quiet

theorem does_semcreate {n : Int} (rel : Rel k a) : Does x b (k.semcreate n).1 a := by
  unfold semcreate
  split
  · exact rel.does
  rename_i count
  obtain ⟨i, none | ⟨s, bound, free, some⟩⟩ := k.semalloc_cases
  · rw [none]
    refine (Move.scanned a.nexttid i a.nextmon).does ?_
    cases rel with | mk repr => exact .mk repr
  · rw [some]
    refine (Move.scanned a.nexttid i a.nextmon).andThen ?_
    refine (Move.semcreate (s := s) (n := n) (by omega) bound ?_).does ?_
    · simp only [rel.semtab]
      exact free
    · cases rel with | mk repr => exact .mk repr

theorem Rel.semfreeLoop {s : Nat} {ts : List Int} {n : Nat} (rel : Rel k a) (inv : a.Inv)
    (bound : s < c.nsem) (queue : (a.semtab s).queue = q) (ids : a.quetab.ids q = ts)
    (ends : (Kernel.semfreeLoop q n k).stopped = false) :
    Rel (Kernel.semfreeLoop q n k) (a.flush ts) := by
  induction n generalizing k a ts with
  | zero => simp [Kernel.semfreeLoop] at ends
  | succ n ih =>
      have good : a.Good q := queue ▸ inv.layout.good_sem bound
      have busy : k.nonempty q = true ↔ ts ≠ [] := by
        rw [rel.nonempty good, nonempty_iff good (fun u on => inv.valid on), ids]
      unfold Kernel.semfreeLoop at ends ⊢
      cases ts with
      | nil =>
          rw [if_neg (by simp [busy])]
          exact rel
      | cons t ts =>
          rw [if_pos (by simp [busy])] at ends ⊢
          have member : t ∈ a.quetab.ids q := by simp [ids]
          obtain ⟨lo, hi⟩ := inv.valid member
          obtain ⟨waits, -⟩ := inv.layout.of_sem bound (by rw [queue]; exact inv.home_of_mem member)
          obtain ⟨head, taken⟩ := rel.dequeue_cons inv.toMid good ids
          obtain ⟨inv₁, left⟩ := inv.flushOne bound (by rw [queue]; exact ids)
          have live : (k.dequeue q).1.isbadtid t = false := by
            rw [← taken.isbadtid]
            simp [lo, hi, waits]
          simp only [head] at ends ⊢
          have ready := taken.readyFalse (inv.layout.fixed (.of (by simp))) live
            ((inv.located.getitem t).off (by simp)) (semfreeLoop_ends ends)
          show Rel _ (((a.getitem t).makeReady t).flush ts)
          exact ih ready inv₁ (by simpa using queue) (by rw [← queue]; exact left) ends

theorem does_semfree {s : Nat} (rel : Rel k a) (inv : a.Inv)
    (ends : (k.semfree s).1.stopped = false) : Does x b (k.semfree s).1 a := by
  unfold semfree at ends ⊢
  split
  · exact rel.does
  · rename_i bad
    rw [if_neg bad] at ends
    have good : a.isbadsem s = false := by rw [rel.isbadsem]; simpa using bad
    have bound := (isbadsem_eq_false.mp good).1
    have flushed := rel.semfreeLoop inv bound (by rw [rel.semtab]) rfl (by simpa using ends)
    have same : (Kernel.semfreeLoop (k.semtab s).queue (c.nthread + 1) k).semtab = k.semtab := by
      rw [← flushed.semtab, (flush_frame _).1, rel.semtab]
    refine (Move.semfree good).does ?_
    simp only [same, rel.semtab] at flushed ⊢
    exact (flushed.setSem s _).emit _

/-! ### Threads -/

theorem does_create {n : Nat} {p : Int} (rel : Rel k a)
    (calling : Calling x b a (.create n p)) (ends : (k.create n p).stopped = false) : Does x b (k.create n p) a := by
  unfold create at ends ⊢
  simp only at ends ⊢
  generalize (if n < MINSTK then MINSTK else n) = m at ends ⊢
  have heap : a.heap = k.heap := by cases rel; rfl
  cases got : k.heap.stkget m with
  | none => simp [got] at ends
  | some r =>
      obtain ⟨heap', addr⟩ := r
      cases addr with
      | none => exact rel.doesRet calling trivial
      | some saddr =>
          simp only [got] at ends ⊢
          rw [← heap] at got
          obtain ⟨i, none | ⟨t, bound, free, some⟩⟩ :=
            thrnew_cases ({ k with heap := heap' } : Kernel c (Quetab c))
          · rw [none] at ends ⊢
            simp only [stkfree] at ends ⊢
            cases freed : heap'.stkfree saddr m with
            | none => simp [freed] at ends
            | some r =>
                refine (Move.full (i := i) got freed).andThen ?_
                refine Rel.doesRet ?_ (calling.keep (by simp)) trivial
                cases rel with | mk repr => exact .mk repr
          · rw [some]
            refine (Move.create (i := i) (v := p) got bound ?_).andThen ?_
            · rw [rel.thrtab]
              exact free
            · refine Rel.doesRet ?_ (calling.keep (by simp)) trivial
              cases rel with | mk repr => exact .mk repr

theorem does_kill (rel : Rel k a) (inv : a.Inv) (calling : Calling x b a (.kill t))
    (start : a = b.emit (.call b.thrcurrent (.kill t)))
    (clear : a.frame a.thrcurrent = none) (ends : (k.kill t).stopped = false) :
    Does x b (k.kill t) a := by
  unfold kill at ends ⊢
  split
  · exact rel.doesRet calling trivial
  rename_i ok
  rw [if_neg ok] at ends
  simp only [not_or, Bool.not_eq_true] at ok
  obtain ⟨live, user⟩ := ok
  simp only at ends ⊢
  split
  · rename_i last
    rw [if_pos last] at ends
    simp at ends
  · rename_i more
    rw [if_neg more] at ends
    have same : a.thrcount = k.thrcount := by
      cases rel
      rfl
    have left : ¬ k.thrcount - 1 ≤ 1 := more
    have count : 1 < a.thrcount - 1 := by
      rw [same]
      omega
    have move := Move.kill (b := b) calling.act (by rw [rel.isbadtid]; exact live) user count start clear
    refine move.andThen (does_send ?_ (move.inv inv) (calling.keep (by simp)) (.inl ⟨t, rfl⟩) ?_ ends)
    · cases rel with | mk repr => exact .mk repr
    · intro f
      simp [frame, show (Frame.kill t).isRet = false from rfl]

/-! ## What a thread does when it runs again -/

theorem does_ret {fs : List Frame} (rel : Rel k b) (cont : x = .cont)
    (stack : b.stack b.thrcurrent = .ret v :: fs) :
    Does x b ((k.setStack k.thrcurrent fs).runFrame (.ret v)) b := by
  have popped : Rel (k.setStack k.thrcurrent fs) (b.setStack b.thrcurrent fs) := by
    rw [rel.thrcurrent]
    exact rel.setStack _ _
  simp only [runFrame]
  cases fs with
  | nil =>
      rw [if_pos (by simp)]
      refine (Move.finished cont stack).does ?_
      rw [rel.thrcurrent] at popped ⊢
      exact popped.emit _
  | cons f fs =>
      rw [if_neg (by simp)]
      exact (Move.returned cont stack).does popped

theorem stkfree_eq {Q : Type} {k : Kernel c Q} {p n : Nat} (ends : (k.stkfree p n).stopped = false) :
    ∃ heap, k.stkfree p n = { k with heap } := by
  unfold stkfree at ends ⊢
  split at ends
  · simp at ends
  · exact ⟨_, rfl⟩

theorem Rel.unlink (rel : Rel k a) (mid : a.Mid) (lo : 0 ≤ t) (hi : t < c.nthread)
    (other : (k.thrtab t).state ≠ .curr) (awake : (k.thrtab t).state ≠ .tmout)
    (future : (k.thrtab t).state = .wait → ∀ f, a.frame t = some f → f.onFuture = false) :
    Rel (k.killSwitch t) (((a.unlink t).setState t .free).ret OK) := by
  have same : (a.thrtab t).state = (k.thrtab t).state := by rw [rel.thrtab]
  unfold killSwitch
  cases state : (k.thrtab t).state with
  | sleep =>
      rw [state] at same
      simp only [Kernel.unlink, same]
      exact ((rel.unsleep mid lo hi (.inl same)).setState t .free).ret OK
  | curr => exact absurd state other
  | tmout => exact absurd state awake
  | ready =>
      rw [state] at same
      have on := (mid.located.mem _ t).mpr (home_ready lo hi same)
      simp only [Kernel.unlink, same, killReady]
      exact ((rel.getitem on).setState t .free).ret OK
  | wait =>
      rw [state] at same
      have on : t ∈ a.quetab.ids (a.semtab (a.thrtab t).sem).queue := by
        rw [mid.located.mem, home_wait lo hi same]
        exact waitQueue_sem (future state)
      simp only [Kernel.unlink, same, killWait, killReady]
      rw [rel.thrtab, rel.semtab] at *
      exact ((((rel.setCount _ _).emit _).getitem on).setState t .free).ret OK
  | _ =>
      rw [state] at same
      simp only [Kernel.unlink, same]
      exact (rel.setState t .free).ret OK

theorem does_killSent {fs : List Frame} (rel : Rel k b) (inv : b.Inv) (cont : x = .cont)
    (stack : b.stack b.thrcurrent = .kill t :: fs) (awake : (k.thrtab t).state ≠ .tmout)
    (future : (k.thrtab t).state = .wait → ∀ f, b.frame t = some f → f.onFuture = false)
    (ends : ((k.setStack k.thrcurrent fs).killSent t).stopped = false) :
    Does x b ((k.setStack k.thrcurrent fs).killSent t) b := by
  obtain ⟨user, lo, hi⟩ := inv.kills b.thrcurrent t (by simp [stack])
  have popped : Rel (k.setStack k.thrcurrent fs) (b.setStack b.thrcurrent fs) := by
    rw [rel.thrcurrent]
    exact rel.setStack _ _
  have inv₁ := inv.pop stack (by simp)
  have clear := inv.toThreads.pop_clear stack rfl
  unfold killSent at ends ⊢
  obtain ⟨heap, freed⟩ := stkfree_eq (killSwitch_ends ends)
  rw [freed] at ends ⊢
  have rel₁ : Rel (k.freed t fs heap) (b.freed t fs heap) :=
    (popped.emit (.stkfreed t)).setHeap heap
  have inv₂ : (b.freed t fs heap).Inv := inv₁.like (.of (.of (by simp)) (by simp)) rfl rfl
  by_cases self : (k.thrtab t).state = .curr
  · have current : t = b.thrcurrent := inv.single t lo hi (by rw [rel.thrtab]; exact self)
    subst current
    refine (Move.leaves (.suicide heap cont stack)).does ?_
    have switched : (k.freed b.thrcurrent fs heap).killSwitch b.thrcurrent =
        (((k.freed b.thrcurrent fs heap).setState b.thrcurrent .free).push
          (.killCurr b.thrcurrent)).resched := by
      simp [killSwitch, self]
    refine Eq.mpr (congrArg (Rel · _) switched) ?_
    exact ((rel₁.setState _ .free).push _).resched
      (inv₂.leave user clear (.inl rfl) rfl (by simp) (by simp) (by simp))
  · refine (Move.reap heap cont stack ?_ ?_ ?_).does ?_
    · rw [rel.thrtab]; exact awake
    · rw [rel.thrtab]; exact self
    · rw [rel.thrtab]; exact future
    · refine rel₁.unlink inv₂.toMid lo hi self awake ?_
      intro waits f eq
      have other : t ≠ b.thrcurrent := inv.not_current (by rw [rel.thrtab]; exact self)
      exact future waits f (by simpa [frame, other] using eq)

end

end Xinu.Kernel
