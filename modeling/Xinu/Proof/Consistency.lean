import Xinu.Proof.Kernel.Boot

namespace Xinu

def Call.threadOp : Call → Bool
  | .create _ _ | .ready _ _ | .resume _ | .suspend _ | .kill _ | .resched | .wait _ | .signal _
  | .signaln _ _ | .semcreate _ | .semfree _ | .sleep _ | .unsleep _ | .send _ _ | .receive
  | .recvtime _ => true
  | _ => false

namespace Kernel
open Lib
variable {c : Config}

/-- The queues of `quetab` hold `ids`, and the threads on them are in the states they should be. -/
structure Consistent (k : Kernel c (Quetab c)) (ids : Int → List Int) : Prop where
  linked : ∀ q, c.IsQueue q → q < k.nextqid →
    Linked k.quetab.next k.quetab.prev (quehead q :: ids q ++ [quetail q])
  threads : ∀ q t, t ∈ ids q → (c.IsQueue q ∧ q < k.nextqid) ∧ 0 ≤ t ∧ t < c.nthread
  once : ∀ q, (ids q).Nodup
  one : ∀ q q' t, t ∈ ids q → t ∈ ids q' → q = q'
  ready : ∀ t : Int, 0 ≤ t → t < c.nthread → ((k.thrtab t).state = .ready ↔ t ∈ ids k.readylist)
  sleep : ∀ t : Int, 0 ≤ t → t < c.nthread →
    ((k.thrtab t).state = .sleep ∨ (k.thrtab t).state = .tmout ↔ t ∈ ids k.sleepq)
  wait : ∀ t : Int, 0 ≤ t → t < c.nthread →
    ((k.thrtab t).state = .wait ↔ t ∈ ids (k.semtab (k.thrtab t).sem).queue)
  off : ∀ t, ((k.thrtab t).state = .free ∨ (k.thrtab t).state = .susp ∨
    (k.thrtab t).state = .recv ∨ (k.thrtab t).state = .curr) → ∀ q, t ∉ ids q
  curr : ∀ t : Int, 0 ≤ t → t < c.nthread → ((k.thrtab t).state = .curr ↔ t = k.thrcurrent)
  current : 0 ≤ k.thrcurrent ∧ k.thrcurrent < c.nthread

/-- The calls of `Consistency`, made by threads that may block. -/
def threadCalls {Q : Type} (k : Kernel c Q) (x : Act) : Bool :=
  k.nullRuns x && match x with
    | .call call => call.threadOp
    | _ => true

theorem threadOp_basic {call : Call} (op : call.threadOp = true) : call.basic = true := by
  cases call <;> first | rfl | cases op

theorem basic_not_onFuture {f : Frame} (basic : f.basic = true) : f.onFuture = false := by
  cases f <;> first | rfl | cases basic

theorem Rel.consistent {k : Kernel c (Quetab c)} {a : Kernel c Lists} (rel : Rel k a) (inv : a.Inv)
    (basic : ∀ t, ∀ f ∈ a.stack t, f.basic = true) : k.Consistent a.quetab.ids := by
  have frames : ∀ t f, a.frame t = some f → f.basic = true :=
    fun t f eq => basic t f (List.mem_of_find?_eq_some eq)
  have home : ∀ q t, t ∈ a.quetab.ids q ↔ a.home t = some q := inv.located.mem
  have idle : ∀ t, ((a.thrtab t).state = .free ∨ (a.thrtab t).state = .susp ∨
      (a.thrtab t).state = .recv ∨ (a.thrtab t).state = .curr) → a.home t = none := by
    intro t off
    rcases off with off | off | off | off
    · exact home_eq_none (.inl off)
    · exact home_eq_none (.inr (.inl off))
    · exact home_eq_none (.inr (.inr off))
    · by_cases valid : 0 ≤ t ∧ t < c.nthread
      · rw [home_eq_run valid.1 valid.2 off, runQueue]
        split
        · rename_i f eq
          exact absurd (frames t _ eq) (by simp [Frame.basic])
        · rfl
      · simp [Kernel.home, valid]
  cases rel with
  | @mk l repr =>
      refine ⟨repr.linked, fun q t on => ⟨repr.queue q t on, repr.range q t on⟩, repr.nodup,
        ?_, ?_, ?_, ?_, ?_, ?_, ⟨inv.lo, inv.hi⟩⟩
      · intro q q' t on on'
        rw [home] at on on'
        exact Option.some.inj (on.symm.trans on')
      · intro t lo hi
        rw [home]
        exact ⟨home_ready lo hi, inv.layout.of_ready⟩
      · intro t lo hi
        rw [home]
        exact ⟨home_sleep lo hi, inv.layout.of_sleep⟩
      · intro t lo hi
        refine ⟨fun waits => ?_, fun on => ?_⟩
        · refine (home _ t).mpr ((home_wait lo hi waits).trans ?_)
          exact waitQueue_sem fun f eq => basic_not_onFuture (frames t f eq)
        · obtain ⟨⟨i, eq, -⟩, -⟩ := repr.queue _ t on
          rcases inv.layout.sem_cases (k.thrtab t).sem with ⟨bound, -⟩ | ⟨-, low⟩
          · exact (inv.layout.of_sem bound ((home _ t).mp on)).1
          · simp only [withQuetab_frame] at low
            omega
      · intro t off q on
        rw [home, idle t off] at on
        cases on
      · intro t lo hi
        refine ⟨inv.single t lo hi, ?_⟩
        rintro rfl
        exact inv.running

/-- In every run that meets the conditions of `legal` the queues and the states agree. -/
theorem queues_consistent (c : Config) (p : Platform) (k : Kernel c (Quetab c))
    (reach : Reach step (fun k x => (k.threadCalls x && k.legal x) = true) (boot c p) k) :
    ∃ ids, k.Consistent ids := by
  have kept : Kept (c := c) (fun k x => (k.threadCalls x && k.legal x) = true) (fun _ => True)
      (fun _ _ _ => True) := by
    constructor
    · exact fun k call allowed => threadOp_basic (by simp_all [threadCalls])
    · exact fun k x allowed => by simp_all [threadCalls]
    · exact fun k a x _ _ _ allowed => by simp_all
    all_goals simp
  obtain ⟨a, rel, inv, -, basic⟩ := kept.reach trivial reach
  exact ⟨a.quetab.ids, rel.consistent inv basic⟩

def killSleep : List Act :=
  [.call (.create 128 20), .cont, .call (.resume 1), .call (.create 128 30), .cont,
   .call (.resume 2), .call (.sleep 10), .cont, .call (.create 128 30), .cont, .call (.resume 3),
   .call (.sleep 20), .cont, .call (.kill 2), .cont, .cont, .cont]

theorem killSleep_consistent : ∃ k, Reach step (fun k x => (k.threadCalls x && k.legal x) = true)
    (boot armRpi rpi) k ∧ (k.thrtab 2).state = .free ∧ (k.thrtab 3).state = .sleep ∧
    ∃ ids, k.Consistent ids := by
  have ran : (run step (fun k x => k.threadCalls x && k.legal x) killSleep (boot armRpi rpi)).map
      (fun k => ((k.thrtab 2).state, (k.thrtab 3).state)) = some (.free, .sleep) := by
    decide +kernel
  obtain ⟨k, action, observed⟩ := Option.map_eq_some_iff.mp ran
  simp only [Prod.mk.injEq] at observed
  have reach := Reach.run (fun _ _ h => h) .init action
  exact ⟨k, reach, observed.1, observed.2, queues_consistent armRpi rpi k reach⟩

def killTmout : List Act :=
  [.call (.create 128 20), .cont, .call (.resume 1), .call (.create 128 30), .cont,
   .call (.resume 2), .call (.recvtime 10), .cont, .call (.kill 2), .cont, .cont]

theorem killTmout_inconsistent : ∃ k, Reach step (fun k x => k.threadCalls x = true)
    (boot armRpi rpi) k ∧ ¬ ∃ ids, k.Consistent ids := by
  have ran : (run step threadCalls killTmout (boot armRpi rpi)).map (fun k =>
      ((k.thrtab 2).state, k.sleepq, k.nextqid, k.quetab.next k.sleepq)) =
      some (.free, 302, 304, 2) := by
    decide +kernel
  obtain ⟨k, action, observed⟩ := Option.map_eq_some_iff.mp ran
  simp only [Prod.mk.injEq] at observed
  obtain ⟨free, sleepq, next, first⟩ := observed
  refine ⟨k, Reach.run (fun _ _ h => h) .init action, ?_⟩
  rintro ⟨ids, consistent⟩
  have isq : armRpi.IsQueue k.sleepq := ⟨101, by rw [sleepq]; decide, by rw [sleepq]; decide⟩
  have linked := consistent.linked k.sleepq isq (by omega)
  have head := linked.next_head
  have on : 2 ∈ ids k.sleepq := by
    cases members : ids k.sleepq with
    | nil =>
        rw [members, first, sleepq] at head
        cases head
    | cons t rest =>
        rw [members, first] at head
        simp only [List.headD_cons] at head
        simp [head]
  exact consistent.off 2 (.inl free) k.sleepq on

end Kernel
end Xinu
