import Xinu.Proof.Semaphores
import Mathlib.Data.List.Perm.Subperm

namespace Xinu

def Call.aloof : Call → Bool
  | .create _ _ | .resume _ | .suspend _ | .chprio _ _ | .resched | .sleep _ | .send _ _ | .receive
  | .recvclr => true
  | _ => false

def Frame.aloof : Frame → Bool
  | .ret _ | .suspend _ | .receive => true
  | _ => false

namespace Kernel
open Lib
variable {c : Config} {Q : Type}

structure Aside (k k' : Kernel c Q) : Prop where
  semtab : k'.semtab = k.semtab
  waiters : ∀ s, waiters s k'.log = waiters s k.log
  stack : ∀ t, ∀ f ∈ k'.stack t, f ∈ k.stack t ∨ f.aloof = true

section
variable {k k' k'' : Kernel c Q} {t : Int}

theorem Aside.refl (k : Kernel c Q) : k.Aside k := ⟨rfl, fun _ => rfl, fun _ _ member => .inl member⟩

theorem Aside.trans (h : k.Aside k') (h' : k'.Aside k'') : k.Aside k'' := by
  refine ⟨h'.semtab.trans h.semtab, fun s => (h'.waiters s).trans (h.waiters s), ?_⟩
  intro t f member
  rcases h'.stack t f member with old | aloof
  · exact h.stack t f old
  · exact .inr aloof

theorem Aside.of (semtab : k'.semtab = k.semtab) (waiters : ∀ s, Xinu.waiters s k'.log = Xinu.waiters s k.log)
    (stack : k'.stack = k.stack) : k.Aside k' :=
  ⟨semtab, waiters, fun t f member => .inl (by rwa [stack] at member)⟩

theorem Aside.emit (h : k.Aside k') {e : Event} (other : ∀ s, e.ofSem s = false) : k.Aside (k'.emit e) :=
  h.trans (.of rfl (fun s => by simp [Xinu.waiters, other]) rfl)

theorem Aside.push (h : k.Aside k') {f : Frame} (aloof : f.aloof = true) : k.Aside (k'.push f) := by
  refine h.trans ⟨rfl, fun _ => rfl, fun t g member => ?_⟩
  by_cases this : t = k'.thrcurrent
  · subst this
    simp only [push_frame, Function.update_self, List.mem_cons] at member
    rcases member with rfl | member
    · exact .inr aloof
    · exact .inl member
  · exact .inl (by simpa [this] using member)

theorem Aside.ret (h : k.Aside k') (v : Int) : k.Aside (k'.ret v) := h.push rfl

theorem Aside.setThr (h : k.Aside k') (t : Int) (e : Thrent) : k.Aside (k'.setThr t e) :=
  h.trans (.of rfl (fun _ => rfl) rfl)

theorem Aside.setState (h : k.Aside k') (t : Int) (s : ThrState) : k.Aside (k'.setState t s) :=
  h.trans (.of rfl (fun _ => rfl) rfl)

theorem Aside.deposit (h : k.Aside k') (t m : Int) : k.Aside (k'.deposit t m) :=
  Aside.emit (h.setThr t _) fun _ => rfl

theorem Aside.takeMessage (h : k.Aside k') : k.Aside k'.takeMessage :=
  Aside.ret (Aside.emit (h.setThr _ _) fun _ => rfl) _

theorem Aside.create (h : k.Aside k') (ssize : Nat) (priority : Int) :
    k.Aside (k'.create ssize priority) := by
  simp only [Kernel.create]
  split
  · exact h.trans (.of rfl (fun _ => rfl) rfl)
  · exact h.ret _
  · rename_i heap saddr _
    obtain ⟨i, none | ⟨t, -, -, some⟩⟩ := ({ k' with heap } : Kernel c Q).thrnew_cases
    · rw [none]
      simp only [stkfree]
      refine Aside.ret ?_ _
      split <;> exact h.trans (.of rfl (fun _ => rfl) rfl)
    · rw [some]
      apply Aside.ret
      apply Aside.emit _ fun _ => rfl
      refine h.trans ⟨rfl, fun _ => rfl, fun u f member => .inl ?_⟩
      by_cases this : u = t
      · simp [this] at member
      · simpa [this] using member

def Quiet (k : Kernel c Q) : Prop := ∀ t, ∀ f ∈ k.stack t, f.aloof = true

theorem Aside.quiet (h : k.Aside k') (quiet : k.Quiet) : k'.Quiet := by
  intro t f member
  exact (h.stack t f member).elim (quiet t f) id

structure Touches (s : Nat) (k k' : Kernel c Q) : Prop where
  semtab : ∀ u, u ≠ s → k'.semtab u = k.semtab u
  waiters : ∀ u, u ≠ s → Xinu.waiters u k'.log = Xinu.waiters u k.log
  stack : ∀ t, ∀ f ∈ k'.stack t, f ∈ k.stack t ∨ f.aloof = true

def Spares (s : Nat) (k k' : Kernel c Q) : Prop :=
  k'.semtab s = k.semtab s ∧ Xinu.waiters s k'.log = Xinu.waiters s k.log

theorem Aside.spares (h : k.Aside k') (s : Nat) : Spares s k k' := ⟨by rw [h.semtab], h.waiters s⟩

theorem Touches.spares {s u : Nat} (h : Touches u k k') (other : s ≠ u) : Spares s k k' :=
  ⟨h.semtab s other, h.waiters s other⟩

theorem isbadsem_of_state {s : Nat} (same : (k'.semtab s).state = (k.semtab s).state) :
    k'.isbadsem s = k.isbadsem s := by
  rw [isbadsem, isbadsem, same]

theorem Spares.isbadsem {s : Nat} (h : Spares s k k') : k'.isbadsem s = k.isbadsem s :=
  isbadsem_of_state (by rw [h.1])

theorem Touches.quiet {s : Nat} (h : Touches s k k') (quiet : k.Quiet) : k'.Quiet := by
  intro t f member
  exact (h.stack t f member).elim (quiet t f) id

theorem Touches.trans {s : Nat} (h : Touches s k k') (h' : Touches s k' k'') : Touches s k k'' := by
  refine ⟨fun u other => (h'.semtab u other).trans (h.semtab u other),
    fun u other => (h'.waiters u other).trans (h.waiters u other), ?_⟩
  intro t f member
  rcases h'.stack t f member with old | aloof
  · exact h.stack t f old
  · exact .inr aloof

theorem Aside.touches (h : k.Aside k') (s : Nat) : Touches s k k' :=
  ⟨fun u _ => by rw [h.semtab], fun u _ => h.waiters u, h.stack⟩

theorem Touches.emit {s : Nat} (h : Touches s k k') {e : Event}
    (other : ∀ u, u ≠ s → e.ofSem u = false) : Touches s k (k'.emit e) := by
  refine h.trans ⟨fun _ _ => rfl, fun u apart => ?_, fun t f member => .inl member⟩
  simp [Xinu.waiters, other u apart]

theorem waiters_cons {s : Nat} {e : Event} {log : List Event} (own : e.ofSem s = true) :
    waiters s (e :: log) = (waiters s log).bind (nextWaiters · e) := by
  simp [waiters, own]

theorem Touches.setCount {s : Nat} (h : Touches s k k') (v : Int) : Touches s k (k'.setCount s v) :=
  h.trans ⟨fun u apart => by simp [apart], fun _ _ => rfl, fun _ _ member => .inl member⟩

theorem semcreate_effect {n : Int} {s : Nat} (made : (k.semcreate n).2 = some s) :
    Touches s k (k.semcreate n).1 ∧ s < c.nsem ∧ (k.semtab s).state = .free ∧
      ((k.semcreate n).1.semtab s).state = .used ∧ ((k.semcreate n).1.semtab s).count = n := by
  unfold semcreate at made ⊢
  split at made
  · cases made
  · rename_i count
    rw [if_neg count]
    obtain ⟨i, none | ⟨s', bound, free, some⟩⟩ := k.semalloc_cases
    · rw [none] at made
      cases made
    · rw [some] at made ⊢
      obtain rfl : s' = s := by simpa using made
      refine ⟨?_, bound, free, by simp, by simp⟩
      refine Touches.emit (Touches.setCount ?_ n) fun u apart => by simp [Event.ofSem, Ne.symm apart]
      exact ⟨fun u apart => by simp [apart], fun _ _ => rfl, fun _ _ member => .inl member⟩

theorem semcreate_emit (e : Event) (n : Int) : ((k.emit e).semcreate n).2 = (k.semcreate n).2 := by
  have semalloc : (k.emit e).semalloc = (k.semalloc.1.emit e, k.semalloc.2) := by
    simp only [Kernel.semalloc]
    rw [show rotate c.nsem (fun s => ((k.emit e).semtab s).state = .free) c.nsem (k.emit e).nextsem =
      rotate c.nsem (fun s => (k.semtab s).state = .free) c.nsem k.nextsem from rfl]
    rcases rotate c.nsem (fun s => (k.semtab s).state = .free) c.nsem k.nextsem with ⟨i, _ | s⟩ <;> rfl
  simp only [semcreate, semalloc]
  split
  · rfl
  · rcases k.semalloc with ⟨k', _ | s⟩ <;> rfl

theorem semcreate_some {n : Int} (free : ∀ s, s < c.nsem → (k.semtab s).state = .free)
    (room : 0 < c.nsem) (nonneg : 0 ≤ n) : ∃ s, (k.semcreate n).2 = some s := by
  obtain ⟨m, size⟩ : ∃ m, c.nsem = m + 1 := ⟨c.nsem - 1, by omega⟩
  have scan : rotate c.nsem (fun s => (k.semtab s).state = .free) c.nsem k.nextsem =
      ((k.nextsem + 1) % c.nsem, some ((k.nextsem + 1) % c.nsem)) := by
    conv_lhs =>
      arg 3
      rw [size]
    simp [rotate, free _ (Nat.mod_lt _ room)]
  refine ⟨(k.nextsem + 1) % c.nsem, ?_⟩
  simp only [semcreate, semalloc, scan, show ¬ n < 0 by omega, if_false]

theorem semcreate_none {n : Int} (failed : (k.semcreate n).2 = none) : k.Aside (k.semcreate n).1 := by
  unfold semcreate at failed ⊢
  split
  · exact .refl k
  · rename_i count
    rw [if_neg count] at failed
    obtain ⟨i, none | ⟨s', bound, free, some⟩⟩ := k.semalloc_cases
    · rw [none]
      exact .of rfl (fun _ => rfl) rfl
    · rw [some] at failed
      cases failed

variable [Queues Q]

theorem Aside.getitem (h : k.Aside k') (t : Int) : k.Aside (k'.getitem t) :=
  h.trans (.of (by simp) (by simp) (by simp))

theorem Aside.dequeue (h : k.Aside k') (q : Int) : k.Aside (k'.dequeue q).1 :=
  h.trans (.of (by simp) (by simp) (by simp))

theorem Aside.unsleep (h : k.Aside k') (t : Int) : k.Aside (k'.unsleep t).1 :=
  h.trans (.of (by simp) (by simp) (by simp))

theorem Aside.insertd (h : k.Aside k') (t q v : Int) : k.Aside (k'.insertd t q v).1 :=
  h.trans (.of (by simp) (by simp) (by simp))

theorem Aside.makeReady (h : k.Aside k') (t : Int) : k.Aside (k'.makeReady t) :=
  h.trans (.of (by simp) (fun s => by simp [Xinu.waiters, Event.ofSem]) (by simp))

theorem Aside.switch (h : k.Aside k') : k.Aside k'.switch :=
  h.trans (.of (by simp) (fun s => by simp [Xinu.waiters, Event.ofSem]) (by simp))

theorem Aside.resched (h : k.Aside k') : k.Aside k'.resched := by
  unfold Kernel.resched
  split
  · exact h.trans (.of rfl (fun _ => rfl) rfl)
  · simp only
    split
    · split
      · exact h.emit fun _ => rfl
      · exact (h.makeReady _).switch
    · exact h.switch

theorem Aside.ready (h : k.Aside k') (t : Int) (resch : Bool) : k.Aside (k'.ready t resch) := by
  unfold Kernel.ready
  split
  · exact h
  · simp only
    split
    · exact (h.makeReady t).resched
    · exact h.makeReady t

theorem Aside.wakeupLoop (h : k.Aside k') (n : Nat) : k.Aside (Kernel.wakeupLoop n k') := by
  induction n generalizing k' with
  | zero => exact h.trans (.of rfl (fun _ => rfl) rfl)
  | succ n ih =>
      simp only [Kernel.wakeupLoop]
      split
      · exact ih (Aside.ready (Aside.emit (h.dequeue _) fun _ => rfl) _ _)
      · exact h

theorem Aside.clkhandler (h : k.Aside k') : k.Aside k'.clkhandler := by
  have ticked : k.Aside (k'.countTick.emit .tick) := by
    refine Aside.emit ?_ fun _ => rfl
    unfold countTick
    simp only
    split <;> exact h.trans (.of rfl (fun _ => rfl) rfl)
  simp only [Kernel.clkhandler]
  split
  · have counted : k.Aside ((k'.countTick.emit .tick).setQuetab
        (Queues.setKey (k'.countTick.emit .tick).quetab
          (Queues.firstid (k'.countTick.emit .tick).quetab (k'.countTick.emit .tick).sleepq)
          (Queues.key (k'.countTick.emit .tick).quetab
            (Queues.firstid (k'.countTick.emit .tick).quetab (k'.countTick.emit .tick).sleepq) - 1))) :=
      ticked.trans (.of rfl (fun _ => rfl) rfl)
    split
    · exact (counted.wakeupLoop _).resched
    · exact counted.resched
  · exact ticked.resched

theorem Aside.runCall (h : k.Aside k') {call : Call} (aloof : call.aloof = true) :
    k.Aside (k'.runCall call) := by
  cases call with
  | create ssize priority => exact h.create ssize priority
  | resume t =>
      simp only [Kernel.runCall, Kernel.resume]
      split
      · exact h.ret _
      · exact (h.ret _).ready _ _
  | suspend t =>
      simp only [Kernel.runCall, Kernel.suspend]
      split
      · exact h.ret _
      · split
        · exact ((h.getitem _).setState _ _).ret _
        · exact ((h.setState _ _).push rfl).resched
        · exact h.ret _
  | chprio t p =>
      simp only [Kernel.runCall, Kernel.chprio]
      split
      · exact h.ret _
      · exact (h.setThr _ _).ret _
  | resched => exact (h.ret _).resched
  | sleep ms =>
      simp only [Kernel.runCall, Kernel.sleep]
      split
      · split
        · exact (h.insertd _ _ _).ret _
        · exact (Aside.ret (Aside.emit ((h.insertd _ _ _).setState _ _) fun _ => rfl) _).resched
      · exact (h.ret _).resched
  | send t m =>
      simp only [Kernel.runCall, Kernel.send]
      split
      · exact h.ret _
      · split
        · exact h.ret _
        · split
          · exact ((h.deposit _ _).ret _).ready _ _
          · exact (((h.deposit _ _).ret _).unsleep _).ready _ _
          · exact (h.deposit _ _).ret _
  | receive =>
      simp only [Kernel.runCall, Kernel.receive]
      split
      · exact h.takeMessage
      · exact ((h.setState _ _).push rfl).resched
  | recvclr =>
      simp only [Kernel.runCall, Kernel.recvclr]
      split
      · exact h.takeMessage
      · exact (h.setThr _ _).ret _
  | _ => cases aloof

theorem Aside.runFrame (h : k.Aside k') {f : Frame} (aloof : f.aloof = true) :
    k.Aside (k'.runFrame f) := by
  cases f with
  | ret v =>
      simp only [Kernel.runFrame]
      split
      · exact h.emit fun _ => rfl
      · exact h
  | suspend t => exact h.ret _
  | receive => exact h.takeMessage
  | _ => cases aloof

def aloofActs : Act → Bool
  | .call call => call.aloof
  | _ => true

theorem step_aside {x : Act} (quiet : k.Quiet) (aloof : aloofActs x = true)
    (action : step x k = some k') : k.Aside k' := by
  have start := Aside.refl k
  simp only [step, Option.filter_eq_some_iff] at action
  obtain ⟨action, -⟩ := action
  cases x with
  | call call =>
      cases stack : k.stack k.thrcurrent with
      | cons f fs => simp [stack] at action
      | nil =>
          simp only [stack, Option.ite_none_right_eq_some, Option.some.injEq] at action
          obtain ⟨-, rfl⟩ := action
          exact Aside.runCall (start.emit fun _ => rfl) aloof
  | cont =>
      cases stack : k.stack k.thrcurrent with
      | nil => simp [stack] at action
      | cons f fs =>
          simp only [stack, Option.some.injEq] at action
          subst action
          have popped : k.Aside (k.setStack k.thrcurrent fs) := by
            refine ⟨rfl, fun _ => rfl, fun t g member => .inl ?_⟩
            by_cases this : t = k.thrcurrent
            · subst this
              rw [stack]
              exact List.mem_cons_of_mem f (by simpa using member)
            · simpa [this] using member
          exact popped.runFrame (quiet k.thrcurrent f (by simp [stack]))
  | tick =>
      cases stack : k.stack k.thrcurrent with
      | cons f fs => simp [stack] at action
      | nil =>
          simp only [stack, Option.some.injEq] at action
          subst action
          exact start.clkhandler

theorem wait_effect {s : Nat} (good : k.isbadsem s = false) :
    Touches s k (k.wait s) ∧
    (k.wait s).semtab s = { k.semtab s with count := (k.semtab s).count - 1 } ∧
    waiters s (k.wait s).log = (waiters s k.log).map fun ids =>
      if (k.semtab s).count - 1 < 0 then ids ++ [k.thrcurrent] else ids := by
  obtain ⟨k₁, counted⟩ : ∃ k₁, k₁ = (k.setCount s ((k.semtab s).count - 1)).emit
    (.wait k.thrcurrent s ((k.semtab s).count - 1 < 0)) := ⟨_, rfl⟩
  have aside : k₁.Aside (k.wait s) := by
    simp only [wait, good, Bool.false_eq_true, if_false]
    rw [← counted]
    split
    · exact Aside.resched (Aside.ret ((Aside.refl k₁).trans (.of (by simp) (by simp) (by simp))) OK)
    · exact (Aside.refl k₁).ret OK
  have touches : Touches s k k₁ := by
    rw [counted]
    exact (((Aside.refl k).touches s).setCount _).emit fun u apart => by
      simp [Event.ofSem, Ne.symm apart]
  refine ⟨touches.trans (aside.touches s), ?_, ?_⟩
  · rw [aside.semtab, counted]
    simp
  · rw [aside.waiters, counted]
    refine (waiters_cons (by simp [Event.ofSem])).trans ?_
    rw [Option.map_eq_bind]
    simp only [nextWaiters, decide_eq_true_eq]
    rfl

theorem signalOnce_effect {s : Nat} (resch : Bool) :
    Touches s k (k.signalOnce s resch) ∧
    (k.signalOnce s resch).semtab s = { k.semtab s with count := (k.semtab s).count + 1 } ∧
    ∀ ids ids', waiters s k.log = some ids → waiters s (k.signalOnce s resch).log = some ids' →
      ∀ t ∈ ids', t ∈ ids := by
  obtain ⟨k₁, counted⟩ : ∃ k₁, k₁ = (k.setCount s ((k.semtab s).count + 1)).emit (.signal s) := ⟨_, rfl⟩
  have touches : Touches s k k₁ := by
    rw [counted]
    exact (((Aside.refl k).touches s).setCount _).emit fun u apart => by
      simp [Event.ofSem, Ne.symm apart]
  have same : waiters s k₁.log = waiters s k.log := by
    rw [counted]
    refine (waiters_cons (by simp [Event.ofSem])).trans ?_
    simp [nextWaiters]
  have sem : k₁.semtab s = { k.semtab s with count := (k.semtab s).count + 1 } := by
    rw [counted]
    simp
  simp only [signalOnce]
  rw [← counted]
  split
  · obtain ⟨k₂, taken⟩ : ∃ k₂, k₂ = (k₁.dequeue (k₁.semtab s).queue).1 := ⟨_, rfl⟩
    have aside : k₁.Aside k₂ := by
      rw [taken]
      exact (Aside.refl k₁).dequeue _
    generalize (k₁.dequeue (k₁.semtab s).queue).2 = tid at *
    rw [← taken]
    have readied : (k₂.emit (.released tid s)).Aside ((k₂.emit (.released tid s)).ready tid resch) :=
      (Aside.refl _).ready tid resch
    have released : Touches s k (k₂.emit (.released tid s)) :=
      (touches.trans (aside.touches s)).emit fun u apart => by simp [Event.ofSem, Ne.symm apart]
    refine ⟨released.trans (readied.touches s), ?_, ?_⟩
    · rw [readied.semtab, (emit_frame k₂ _).2.1, aside.semtab, sem]
    · intro ids ids' before after t member
      rw [readied.waiters] at after
      have left := (waiters_cons (by simp [Event.ofSem])).symm.trans after
      rw [aside.waiters, same, before] at left
      simp only [Option.bind_some, nextWaiters] at left
      split at left
      · rw [← Option.some.inj left] at member
        exact List.mem_of_mem_tail member
      · cases left
  · exact ⟨touches, sem, fun ids ids' before after t member => by
      rw [same, before] at after
      exact Option.some.inj after ▸ member⟩

theorem Aside.semfreeLoop (h : k.Aside k') (q : Int) (n : Nat) : k.Aside (Kernel.semfreeLoop q n k') := by
  induction n generalizing k' with
  | zero => exact h.trans (.of rfl (fun _ => rfl) rfl)
  | succ n ih =>
      simp only [Kernel.semfreeLoop]
      split
      · exact ih ((h.dequeue q).ready _ _)
      · exact h

theorem semfree_effect {s : Nat} (good : k.isbadsem s = false) :
    Touches s k (k.semfree s).1 ∧ ((k.semfree s).1.semtab s).state = .free := by
  simp only [semfree, good, Bool.false_eq_true, if_false]
  have loop := (Aside.refl k).semfreeLoop (k.semtab s).queue (c.nthread + 1)
  refine ⟨Touches.emit ((loop.touches s).trans ?_) fun u apart => by simp [Event.ofSem, Ne.symm apart], by simp⟩
  exact ⟨fun u apart => by simp [apart], fun _ _ => rfl, fun _ _ member => .inl member⟩

theorem semfree_bad {s : Nat} (bad : k.isbadsem s = true) : k.Aside (k.semfree s).1 := by
  simp only [semfree, bad, if_true]
  exact .refl k

theorem step_touches {s : Nat} {call : Call} (about : call = .wait s ∨ call = .signal s ∨ call = .semfree s)
    (action : step (.call call) k = some k') : Touches s k k' := by
  obtain ⟨-, rfl, -⟩ := step_call action
  have start : Touches s k (k.emit (.call k.thrcurrent call)) := (Aside.emit (.refl k) fun _ => rfl).touches s
  cases bad : (k.emit (.call k.thrcurrent call)).isbadsem s with
  | true =>
      rcases about with rfl | rfl | rfl
      · simp only [Kernel.runCall, Kernel.wait, bad, if_true]
        exact start.trans ((Aside.ret (.refl _) _).touches s)
      · simp only [Kernel.runCall, Kernel.signal, bad, if_true]
        exact start.trans ((Aside.ret (.refl _) _).touches s)
      · exact start.trans ((Aside.ret (semfree_bad bad) _).touches s)
  | false =>
      rcases about with rfl | rfl | rfl
      · exact start.trans (wait_effect bad).1
      · simp only [Kernel.runCall, Kernel.signal, bad, Bool.false_eq_true, if_false]
        exact (start.trans ((Aside.ret (.refl _) OK).touches s)).trans (signalOnce_effect true).1
      · exact (start.trans (semfree_effect bad).1).trans ((Aside.ret (.refl _) _).touches s)

theorem step_wait {s : Nat} {ids : List Int} (good : k.isbadsem s = false)
    (order : waiters s k.log = some ids) (action : step (.call (.wait s)) k = some k') :
    k'.semtab s = { k.semtab s with count := (k.semtab s).count - 1 } ∧
    waiters s k'.log = some (if (k.semtab s).count - 1 < 0 then ids ++ [k.thrcurrent] else ids) := by
  obtain ⟨-, rfl, -⟩ := step_call action
  obtain ⟨-, sem, waits⟩ := wait_effect (k := k.emit (.call k.thrcurrent (.wait s))) good
  have before : waiters s (k.emit (.call k.thrcurrent (.wait s))).log = some ids := by
    rw [← order]
    rfl
  rw [before, Option.map_some] at waits
  exact ⟨sem, waits⟩

theorem step_signal {s : Nat} {ids ids' : List Int} (good : k.isbadsem s = false)
    (order : waiters s k.log = some ids) (action : step (.call (.signal s)) k = some k')
    (order' : waiters s k'.log = some ids') : ∀ t ∈ ids', t ∈ ids := by
  obtain ⟨-, rfl, -⟩ := step_call action
  have good : (k.emit (.call k.thrcurrent (.signal s))).isbadsem s = false := good
  have before : waiters s ((k.emit (.call k.thrcurrent (.signal s))).ret OK).log = some ids := by
    rw [← order]
    rfl
  simp only [runCall, Kernel.signal, good, Bool.false_eq_true, if_false] at order'
  obtain ⟨-, -, waits⟩ := signalOnce_effect (k := (k.emit (.call k.thrcurrent (.signal s))).ret OK)
    (s := s) true
  exact waits ids ids' before order'

theorem step_isbadsem {s : Nat} {call : Call} (about : call = .wait s ∨ call = .signal s)
    (action : step (.call call) k = some k') (u : Nat) : k'.isbadsem u = k.isbadsem u := by
  have touches : Touches s k k' :=
    step_touches (about.elim .inl fun signal => .inr (.inl signal)) action
  by_cases this : u = s
  · subst this
    obtain ⟨-, rfl, -⟩ := step_call action
    cases bad : (k.emit (.call k.thrcurrent call)).isbadsem u with
    | true =>
        rcases about with rfl | rfl
        · simp only [Kernel.runCall, Kernel.wait, bad, if_true]
          rfl
        · simp only [Kernel.runCall, Kernel.signal, bad, if_true]
          rfl
    | false =>
        rcases about with rfl | rfl
        · have sem := (wait_effect bad).2.1
          apply isbadsem_of_state
          rw [Kernel.runCall, sem]
          rfl
        · simp only [Kernel.runCall, Kernel.signal, bad, Bool.false_eq_true, if_false]
          apply isbadsem_of_state
          rw [(signalOnce_effect true).2.1]
          rfl
  · exact (touches.spares this).isbadsem

theorem step_semcreate {n : Int} {s : Nat} (made : (k.semcreate n).2 = some s)
    (action : step (.call (.semcreate n)) k = some k') :
    Touches s k k' ∧ s < c.nsem ∧ (k.semtab s).state = .free ∧ (k'.semtab s).state = .used ∧
      (k'.semtab s).count = n := by
  obtain ⟨-, rfl, -⟩ := step_call action
  have same : ((k.emit (.call k.thrcurrent (.semcreate n))).semcreate n).2 = some s := by
    rw [semcreate_emit, made]
  obtain ⟨touches, bound, free, used, count⟩ := semcreate_effect same
  have start : k.Aside (k.emit (.call k.thrcurrent (.semcreate n))) := Aside.emit (.refl k) fun _ => rfl
  exact ⟨((start.touches s).trans touches).trans ((Aside.ret (.refl _) _).touches s), bound, free, used, count⟩

theorem step_semcreate_none {n : Int} (failed : (k.semcreate n).2 = none)
    (action : step (.call (.semcreate n)) k = some k') : k.Aside k' := by
  obtain ⟨-, rfl, -⟩ := step_call action
  have same : ((k.emit (.call k.thrcurrent (.semcreate n))).semcreate n).2 = none := by
    rw [semcreate_emit, failed]
  exact ((Aside.emit (.refl k) fun _ => rfl).trans (semcreate_none same)).ret _

end

def threads (c : Config) : List Int := (List.range c.nthread).map fun i : Nat => (i : Int)

theorem mem_threads {t : Int} : t ∈ threads c ↔ 0 ≤ t ∧ t < c.nthread := by
  simp only [threads, List.mem_map, List.mem_range]
  constructor
  · rintro ⟨i, bound, rfl⟩
    omega
  · rintro ⟨lo, hi⟩
    exact ⟨t.toNat, by omega, by omega⟩

theorem threads_nodup : (threads c).Nodup :=
  List.Nodup.map (fun _ _ same => Int.ofNat.inj same) List.nodup_range

def census (c : Config) (inside : Int → Bool) : Nat := (threads c).countP inside

theorem countP_update {p : Int → Bool} {b : Bool} {t : Int} {ts : List Int} (nodup : ts.Nodup)
    (member : t ∈ ts) : ts.countP (Function.update p t b) + (p t).toNat = ts.countP p + b.toNat := by
  induction ts with
  | nil => cases member
  | cons u us ih =>
      obtain ⟨fresh, nodup⟩ := List.nodup_cons.mp nodup
      simp only [List.countP_cons]
      by_cases this : u = t
      · subst this
        have same : us.countP (Function.update p u b) = us.countP p := by
          apply List.countP_congr
          intro v inside
          have : v ≠ u := fun eq => fresh (eq ▸ inside)
          simp [this]
        rw [same]
        cases p u <;> cases b <;> simp
      · have later := ih nodup ((List.mem_cons.mp member).resolve_left (Ne.symm this))
        rw [Function.update_of_ne this]
        omega

theorem census_update {inside : Int → Bool} {t : Int} (valid : 0 ≤ t ∧ t < c.nthread) (b : Bool) :
    census c (Function.update inside t b) + (inside t).toNat = census c inside + b.toNat :=
  countP_update threads_nodup (mem_threads.mpr valid)

theorem length_le_census {inside : Int → Bool} {ids : List Int} (nodup : ids.Nodup)
    (valid : ∀ t ∈ ids, 0 ≤ t ∧ t < c.nthread) (within : ∀ t ∈ ids, inside t = true) :
    ids.length ≤ census c inside := by
  rw [census, List.countP_eq_length_filter]
  apply (List.subperm_of_subset nodup _).length_le
  intro t member
  exact List.mem_filter.mpr ⟨mem_threads.mpr (valid t member), within t member⟩

theorem census_split {inside : Int → Bool} {ids : List Int} (nodup : ids.Nodup)
    (valid : ∀ t ∈ ids, 0 ≤ t ∧ t < c.nthread) (within : ∀ t ∈ ids, inside t = true) :
    census c (fun t => inside t && !ids.contains t) + ids.length = census c inside := by
  have same : ((threads c).filter fun t => inside t && ids.contains t).Perm ids := by
    refine (List.perm_ext_iff_of_nodup (threads_nodup.filter _) nodup).mpr fun t => ?_
    simp only [List.mem_filter, Bool.and_eq_true, List.contains_iff_mem]
    constructor
    · exact fun ⟨_, _, member⟩ => member
    · exact fun member => ⟨mem_threads.mpr (valid t member), within t member, member⟩
  have split := List.countP_eq_countP_filter_add (threads c) inside fun t => ids.contains t
  simp only [List.countP_filter] at split
  rw [census, census, split, ← same.length_eq, ← List.countP_eq_length_filter, Nat.add_comm]

section
variable {k k' : Kernel c (Quetab c)} {s : Nat} {t : Int}

theorem Settled.step {x : Act} (settled : k.Settled) (calls : k.untimedCalls x = true)
    (action : Kernel.step x k = some k') : k'.Settled := sems_kept.preserves settled calls action

theorem Settled.heap (settled : k.Settled) (heap : Heap) : ({ k with heap } : Kernel c (Quetab c)).Settled := by
  obtain ⟨a, rel, inv, ⟨untimed, sems⟩, within⟩ := settled
  cases rel with
  | @mk l repr =>
      refine ⟨({ k with heap } : Kernel c (Quetab c)).withQuetab l, .mk repr, ?_, ⟨?_, ?_⟩, within⟩
      · exact inv.like (.of (.of (by simp)) (by simp)) rfl rfl
      · exact untimed.like fun _ => rfl
      · exact sems.like rfl (fun _ _ => rfl) fun _ => rfl

theorem Settled.semcreate (settled : k.Settled) (n : Int) : (k.semcreate n).1.Settled := by
  obtain ⟨a, rel, inv, holds, within⟩ := settled
  obtain ⟨a', moves, rel'⟩ := does_semcreate (x := .tick) (b := a) (n := n) rel
  obtain ⟨inv', holds', within'⟩ := moves.keep (J := fun a => Untimed a ∧ Sems a)
    (fun a a' inv holds move => ⟨holds.1.move inv move (by simp), holds.2.move inv move⟩) inv holds within
  exact ⟨a', rel', inv', holds', within'⟩

theorem Settled.running (settled : k.Settled) : (k.thrtab k.thrcurrent).state = .curr ∧
    0 ≤ k.thrcurrent ∧ k.thrcurrent < c.nthread := by
  obtain ⟨a, rel, inv, -⟩ := settled
  cases rel
  exact ⟨inv.running, inv.lo, inv.hi⟩

structure Waiting (k : Kernel c (Quetab c)) (s : Nat) (ids : List Int) : Prop where
  order : waiters s k.log = some ids
  nodup : ids.Nodup
  valid : ∀ t ∈ ids, 0 ≤ t ∧ t < c.nthread
  off : k.thrcurrent ∉ ids
  state : ∀ t ∈ ids, (k.thrtab t).state = .wait
  length : (k.semtab s).state = .used → (ids.length : Int) = max 0 (-(k.semtab s).count)

theorem Settled.waiting (settled : k.Settled) (bound : s < c.nsem) : ∃ ids, k.Waiting s ids := by
  obtain ⟨a, rel, inv, ⟨-, sems⟩, -⟩ := settled
  obtain ⟨n, ok⟩ := sems s bound
  have history := ok.history
  simp only [ledger, Prod.mk.injEq] at history
  cases rel with
  | @mk l repr =>
      refine ⟨_, history.2, inv.located.nodup _, fun t member => inv.valid member, ?_, ?_, ok.length⟩
      · have running : ((k.withQuetab l).thrtab k.thrcurrent).state = .curr := inv.running
        exact inv.toMid.off_sem bound (by rw [running]; decide)
      · intro t member
        exact (inv.layout.of_sem bound (inv.home_of_mem member)).1

theorem Settled.idle (settled : k.Settled) (bound : s < c.nsem) (free : (k.semtab s).state = .free) :
    k.nonempty (k.semtab s).queue = false := by
  obtain ⟨a, rel, inv, ⟨-, sems⟩, -⟩ := settled
  obtain ⟨n, ok⟩ := sems s bound
  have good := inv.layout.good_sem bound
  rw [← rel.semtab] at free ⊢
  rw [rel.nonempty good, Bool.eq_false_iff, ne_eq, nonempty_iff good fun u on => inv.valid on]
  exact fun busy => busy (ok.free free)

def waitsOn {Q : Type} (k : Kernel c Q) (s : Nat) (t : Int) : Bool := (waiters s k.log).any fun ids => ids.contains t

def letIn {Q : Type} (k : Kernel c Q) (s : Nat) (inside : Int → Bool) : Nat :=
  census c fun t => inside t && !k.waitsOn s t

structure Gate (k : Kernel c (Quetab c)) (s : Nat) (inside : Int → Bool) (n : Int) : Prop where
  good : k.isbadsem s = false
  total : (k.semtab s).count + census c inside = n
  queue : ∀ ids, waiters s k.log = some ids → ∀ t ∈ ids, inside t = true

namespace Gate
variable {inside : Int → Bool} {n : Int}

theorem bound (gate : k.Gate s inside n) : s < c.nsem := (isbadsem_eq_false.mp gate.good).1

theorem nonneg (gate : k.Gate s inside n) (settled : k.Settled) : 0 ≤ n := by
  obtain ⟨ids, w⟩ := settled.waiting gate.bound
  have length := w.length (isbadsem_eq_false.mp gate.good).2
  have few := length_le_census w.nodup w.valid (gate.queue ids w.order)
  have := gate.total
  omega

theorem room (gate : k.Gate s inside n) (settled : k.Settled) (here : inside k.thrcurrent = true) :
    1 ≤ n := by
  obtain ⟨ids, w⟩ := settled.waiting gate.bound
  have length := w.length (isbadsem_eq_false.mp gate.good).2
  have few := length_le_census (List.nodup_cons.mpr ⟨w.off, w.nodup⟩)
    (by
      intro t member
      rcases List.mem_cons.mp member with rfl | member
      · exact settled.running.2
      · exact w.valid t member)
    (by
      intro t member
      rcases List.mem_cons.mp member with rfl | member
      · exact here
      · exact gate.queue ids w.order t member)
  have := gate.total
  rw [List.length_cons] at few
  omega

theorem accounted (gate : k.Gate s inside n) (settled : k.Settled) :
    max 0 (k.semtab s).count + k.letIn s inside = n := by
  obtain ⟨ids, w⟩ := settled.waiting gate.bound
  have length := w.length (isbadsem_eq_false.mp gate.good).2
  have split := census_split w.nodup w.valid (gate.queue ids w.order)
  have same : k.letIn s inside = census c fun t => inside t && !ids.contains t := by
    simp only [letIn, waitsOn, w.order, Option.any_some]
  have := gate.total
  rw [same]
  omega

theorem blocks (gate : k.Gate s inside n) (settled : k.Settled) (settled' : k'.Settled)
    (action : Kernel.step (.call (.wait s)) k = some k') :
    (k'.thrtab k.thrcurrent).state = .wait ↔ (k.letIn s inside : Int) = n := by
  obtain ⟨ids, w⟩ := settled.waiting gate.bound
  obtain ⟨ids', w'⟩ := settled'.waiting gate.bound
  obtain ⟨-, waits⟩ := step_wait gate.good w.order action
  have order := Option.some.inj (w'.order.symm.trans waits)
  have accounted := gate.accounted settled
  by_cases negative : (k.semtab s).count - 1 < 0
  · rw [if_pos negative] at order
    have state := w'.state k.thrcurrent (by rw [order]; simp)
    simp only [state, true_iff]
    omega
  · obtain ⟨-, rfl, -⟩ := step_call action
    have good : (k.emit (.call k.thrcurrent (.wait s))).isbadsem s = false := gate.good
    have state : (((k.emit (.call k.thrcurrent (.wait s))).wait s).thrtab k.thrcurrent).state = .curr := by
      simp only [wait, good, Bool.false_eq_true, if_false]
      rw [if_neg (show ¬ ((k.emit (.call k.thrcurrent (.wait s))).semtab s).count - 1 < 0 from negative)]
      exact settled.running.1
    simp only [runCall, state, reduceCtorEq, false_iff]
    omega

theorem fresh (settled : k.Settled) (bound : s < c.nsem) (used : (k.semtab s).state = .used)
    (count : (k.semtab s).count = n) (nonneg : 0 ≤ n) : k.Gate s (fun _ => false) n := by
  obtain ⟨ids, w⟩ := settled.waiting bound
  have length := w.length used
  refine ⟨isbadsem_eq_false.mpr ⟨bound, used⟩, ?_, ?_⟩
  · have nobody : census c (fun _ => false) = 0 := List.countP_eq_zero.mpr (by simp)
    omega
  · intro ids' order t member
    rw [w.order, Option.some.injEq] at order
    subst order
    have : ids = [] := List.length_eq_zero_iff.mp (by omega)
    rw [this] at member
    cases member

theorem made (settled : k'.Settled) (made : (k.semcreate n).2 = some s)
    (action : Kernel.step (.call (.semcreate n)) k = some k') : k'.Gate s (fun _ => false) n := by
  obtain ⟨-, bound, -, used, count⟩ := step_semcreate made action
  refine fresh settled bound used count ?_
  by_contra negative
  simp [semcreate, show n < 0 by omega] at made

theorem spared (gate : k.Gate s inside n) (spares : Spares s k k') : k'.Gate s inside n := by
  refine ⟨?_, ?_, ?_⟩
  · rw [isbadsem, spares.1]
    exact gate.good
  · rw [spares.1]
    exact gate.total
  · rw [spares.2]
    exact gate.queue

theorem congr {inside' : Int → Bool} (gate : k.Gate s inside n)
    (same : ∀ t, inside' t = inside t) : k.Gate s inside' n := by
  rw [funext same]
  exact gate

theorem enter (gate : k.Gate s inside n) (settled : k.Settled) (outside : inside k.thrcurrent = false)
    (action : Kernel.step (.call (.wait s)) k = some k') :
    k'.Gate s (Function.update inside k.thrcurrent true) n := by
  obtain ⟨ids, w⟩ := settled.waiting gate.bound
  obtain ⟨sem, waits⟩ := step_wait gate.good w.order action
  have more := @census_update c inside _ settled.running.2 true
  rw [outside] at more
  refine ⟨?_, ?_, ?_⟩
  · rw [step_isbadsem (.inl rfl) action]
    exact gate.good
  · have := gate.total
    rw [sem]
    simp only [Bool.toNat_false, Bool.toNat_true] at more ⊢
    omega
  · intro ids' order t member
    rw [waits, Option.some.injEq] at order
    by_cases this : t = k.thrcurrent
    · rw [this, Function.update_self]
    · rw [Function.update_of_ne this]
      apply gate.queue ids w.order
      subst order
      split at member
      · simpa [this] using member
      · exact member

theorem leave (gate : k.Gate s inside n) (settled : k.Settled) (here : inside k.thrcurrent = true) :
    k.Gate s (Function.update inside k.thrcurrent false) (n - 1) := by
  obtain ⟨ids, w⟩ := settled.waiting gate.bound
  have fewer := @census_update c inside _ settled.running.2 false
  rw [here] at fewer
  refine ⟨gate.good, ?_, ?_⟩
  · have := gate.total
    simp only [Bool.toNat_false, Bool.toNat_true] at fewer
    omega
  · intro ids' order t member
    rw [w.order, Option.some.injEq] at order
    subst order
    have other : t ≠ k.thrcurrent := fun same => w.off (same ▸ member)
    rw [Function.update_of_ne other]
    exact gate.queue ids w.order t member

theorem signalOnce (gate : k.Gate s inside n) (resch : Bool)
    (before : ∃ ids, waiters s k.log = some ids) :
    (k.signalOnce s resch).Gate s inside (n + 1) := by
  obtain ⟨ids, order⟩ := before
  obtain ⟨-, sem, waits⟩ := signalOnce_effect (k := k) (s := s) resch
  refine ⟨?_, ?_, ?_⟩
  · rw [isbadsem, sem]
    exact gate.good
  · have := gate.total
    rw [sem]
    simp only
    omega
  · intro ids' order' t member
    exact gate.queue ids order t (waits ids ids' order order' t member)

theorem signal (gate : k.Gate s inside n) (settled : k.Settled)
    (action : Kernel.step (.call (.signal s)) k = some k') : k'.Gate s inside (n + 1) := by
  obtain ⟨-, rfl, -⟩ := step_call action
  obtain ⟨ids, w⟩ := settled.waiting gate.bound
  have ready : ((k.emit (.call k.thrcurrent (.signal s))).ret OK).Gate s inside n :=
    gate.spared ((Aside.ret ((Aside.refl k).emit fun _ => rfl) OK).spares s)
  have good : (k.emit (.call k.thrcurrent (.signal s))).isbadsem s = false := gate.good
  simp only [runCall, Kernel.signal, good, Bool.false_eq_true, if_false]
  exact ready.signalOnce true ⟨ids, w.order⟩

end Gate
end
end Kernel
end Xinu
