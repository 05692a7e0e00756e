import Xinu.Proof.Kernel.Boot

namespace Xinu
open Lib

inductive Owner
  | sem (s : Nat)
  | ready
  | sleep
  | getters (fut : Nat)
  | setters (fut : Nat)
  deriving DecidableEq

def madeAs (fut : Nat) : List Event → Option FutMode
  | [] => none
  | .futureMade f flag :: log => if f = fut then some flag else madeAs fut log
  | _ :: log => madeAs fut log

def FutMode.queues : FutMode → Nat
  | .exclusive => 0
  | .shared => 1
  | .queue => 2

namespace Kernel
variable {c : Config} {Q : Type}

def queueOf (k : Kernel c Q) : Owner → Option Int
  | .sem s => if s < c.nsem then some (k.semtab s).queue else none
  | .ready => some k.readylist
  | .sleep => some k.sleepq
  | .getters fut => match madeAs fut k.log with
      | some .shared | some .queue => some (k.future fut).getQueue
      | _ => none
  | .setters fut => match madeAs fut k.log with
      | some .queue => some (k.future fut).setQueue
      | _ => none

/-- All queues in use lie inside the table, and no entry belongs to two of them. -/
structure QueuesApart (k : Kernel c Q) : Prop where
  inside : ∀ o q, k.queueOf o = some q → c.nthread ≤ quehead q ∧ quetail q < c.nqent
  apart : ∀ o o' q q', k.queueOf o = some q → k.queueOf o' = some q' → o ≠ o' →
    quehead q ≠ quehead q' ∧ quehead q ≠ quetail q' ∧ quetail q ≠ quehead q' ∧ quetail q ≠ quetail q'

def allocates : Act → Bool
  | .call (.futureAlloc _) | .call (.futureFree _) | .cont => true
  | _ => false

/-- If `future_alloc` gets memory, there are entries for its queues. -/
def roomy (k : Kernel c Q) : Act → Bool
  | .call (.futureAlloc (some flag)) => ((k.heap.memget FUTURE_SIZE).bind (·.2)).isNone ||
      k.nextqid + 2 * flag.queues ≤ c.nqent
  | _ => true

structure Handed (k : Kernel c Q) : Prop where
  next : ∃ i : Nat, k.nextqid = c.nthread + 2 * i
  room : k.nextqid ≤ c.nqent
  ids : ∀ o q, k.queueOf o = some q → (∃ i : Nat, q = c.nthread + 2 * i) ∧ q + 2 ≤ k.nextqid
  single : ∀ o o' q, k.queueOf o = some q → k.queueOf o' = some q → o = o'
  plain : ∀ t, ∀ f ∈ k.stack t, f.isRet = true

section
variable {k k' : Kernel c Q} {fut : Nat} {flag : FutMode} {heap : Heap}

theorem Handed.queuesApart (h : k.Handed) : k.QueuesApart := by
  constructor
  · intro o q used
    obtain ⟨⟨i, rfl⟩, below⟩ := h.ids o q used
    have := h.room
    simp only [quehead, quetail]
    omega
  · intro o o' q q' used used' other
    obtain ⟨⟨i, rfl⟩, -⟩ := h.ids o q used
    obtain ⟨⟨j, rfl⟩, -⟩ := h.ids o' q' used'
    have : i ≠ j := by
      rintro rfl
      exact other (h.single o o' _ used used')
    simp only [quehead, quetail]
    omega

theorem Handed.like (h : k.Handed) (next : k'.nextqid = k.nextqid) (queues : k'.queueOf = k.queueOf)
    (plain : ∀ t, ∀ f ∈ k'.stack t, f.isRet = true) : k'.Handed := by
  refine ⟨?_, ?_, ?_, ?_, plain⟩
  · rw [next]; exact h.next
  · rw [next]; exact h.room
  · rw [next, queues]; exact h.ids
  · rw [queues]; exact h.single

theorem Handed.ret_plain (h : k.Handed) (same : k'.stack = k.stack) (current : k'.thrcurrent = k.thrcurrent)
    (v t : Int) : ∀ f ∈ (k'.ret v).stack t, f.isRet = true := by
  intro f member
  simp only [ret_frame, same, current] at member
  by_cases this : t = k.thrcurrent
  · subst this
    simp only [Function.update_self, List.mem_cons] at member
    rcases member with rfl | member
    · rfl
    · exact h.plain _ f member
  · rw [Function.update_of_ne this] at member
    exact h.plain t f member

structure Stored (k k' : Kernel c Q) (fut : Nat) (flag : FutMode) : Prop where
  next : k'.nextqid = k.nextqid + 2 * flag.queues
  semtab : k'.semtab = k.semtab
  readylist : k'.readylist = k.readylist
  sleepq : k'.sleepq = k.sleepq
  log : k'.log = .futureMade fut flag :: k.log
  others : ∀ f, f ≠ fut → k'.future f = k.future f
  getters : flag ≠ .exclusive → (k'.future fut).getQueue = k.nextqid
  setters : flag = .queue → (k'.future fut).setQueue = k.nextqid + 2

theorem Stored.queueOf_cases (stored : Stored k k' fut flag) {o : Owner} {q : Int}
    (used : k'.queueOf o = some q) : k.queueOf o = some q ∧ o ≠ .getters fut ∧ o ≠ .setters fut ∨
      o = .getters fut ∧ flag ≠ .exclusive ∧ q = k.nextqid ∨
      o = .setters fut ∧ flag = .queue ∧ q = k.nextqid + 2 := by
  cases o with
  | sem s =>
      rw [queueOf, stored.semtab] at used
      exact .inl ⟨used, by simp, by simp⟩
  | ready =>
      rw [queueOf, stored.readylist] at used
      exact .inl ⟨used, by simp, by simp⟩
  | sleep =>
      rw [queueOf, stored.sleepq] at used
      exact .inl ⟨used, by simp, by simp⟩
  | getters f =>
      by_cases this : f = fut
      · subst this
        simp only [queueOf, stored.log, madeAs, if_true] at used
        cases flag with
        | exclusive => cases used
        | shared => exact .inr (.inl ⟨rfl, by simp, (stored.getters (by simp) ▸ Option.some.inj used).symm⟩)
        | queue => exact .inr (.inl ⟨rfl, by simp, (stored.getters (by simp) ▸ Option.some.inj used).symm⟩)
      · simp only [queueOf, stored.log, madeAs, Ne.symm this, if_false, stored.others f this] at used
        exact .inl ⟨used, by simpa using this, by simp⟩
  | setters f =>
      by_cases this : f = fut
      · subst this
        simp only [queueOf, stored.log, madeAs, if_true] at used
        cases flag with
        | exclusive => cases used
        | shared => cases used
        | queue => exact .inr (.inr ⟨rfl, rfl, (stored.setters rfl ▸ Option.some.inj used).symm⟩)
      · simp only [queueOf, stored.log, madeAs, Ne.symm this, if_false, stored.others f this] at used
        exact .inl ⟨used, by simp, by simpa using this⟩

theorem Handed.stored (h : k.Handed) (stored : Stored k k' fut flag)
    (room : k.nextqid + 2 * flag.queues ≤ c.nqent) (plain : ∀ t, ∀ f ∈ k'.stack t, f.isRet = true) :
    k'.Handed := by
  obtain ⟨n, next⟩ := h.next
  have queues : flag ≠ .exclusive → 1 ≤ flag.queues := by cases flag <;> simp [FutMode.queues]
  refine ⟨⟨n + flag.queues, ?_⟩, ?_, ?_, ?_, plain⟩
  · rw [stored.next]
    push_cast
    omega
  · rw [stored.next]
    exact room
  · intro o q used
    rw [stored.next]
    rcases stored.queueOf_cases used with ⟨old, -, -⟩ | ⟨-, shared, rfl⟩ | ⟨-, rfl, rfl⟩
    · obtain ⟨even, below⟩ := h.ids o q old
      exact ⟨even, by omega⟩
    · have := queues shared
      exact ⟨⟨n, next⟩, by omega⟩
    · simp only [FutMode.queues]
      exact ⟨⟨n + 1, by push_cast; omega⟩, by omega⟩
  · intro o o' q used used'
    rcases stored.queueOf_cases used with ⟨old, -, -⟩ | ⟨rfl, -, rfl⟩ | ⟨rfl, -, rfl⟩ <;>
      rcases stored.queueOf_cases used' with ⟨old', -, -⟩ | ⟨rfl, -, new⟩ | ⟨rfl, -, new⟩
    · exact h.single o o' q old old'
    · have := (h.ids o q old).2
      omega
    · have := (h.ids o q old).2
      omega
    · have := (h.ids _ _ old').2
      omega
    · rfl
    · omega
    · have := (h.ids _ _ old').2
      omega
    · omega
    · rfl

theorem Handed.emit (h : k.Handed) (t : Int) (call : Call) : (k.emit (.call t call)).Handed := by
  refine h.like rfl ?_ h.plain
  funext o
  cases o <;> rfl

theorem Handed.ret (h : k.Handed) (heap : Heap) (v : Int) :
    (({ k with heap } : Kernel c Q).ret v).Handed := by
  have plain (t : Int) : ∀ f ∈ (({ k with heap } : Kernel c Q).ret v).stack t, f.isRet = true :=
    h.ret_plain rfl rfl v t
  refine h.like rfl ?_ plain
  funext o
  cases o <;> rfl

variable [Queues Q]

theorem futureAlloc_stored (memory : k.heap.memget FUTURE_SIZE = some (heap, some fut))
    (room : k.nextqid + 2 * flag.queues ≤ c.nqent) :
    Stored k (k.futureAlloc (some flag)) fut flag ∧
      (k.futureAlloc (some flag)).stack = (k.ret fut).stack := by
  have fits : flag ≠ .exclusive → ¬ k.nextqid > c.nqent := by
    intro shared
    cases flag <;> simp only [FutMode.queues, ne_eq, not_true_eq_false] at room shared <;> omega
  have fits' : flag = .queue → ¬ k.nextqid + 2 > c.nqent := by
    rintro rfl
    simp only [FutMode.queues] at room
    omega
  cases flag with
  | exclusive =>
      simp only [futureAlloc, memory]
      refine ⟨⟨by simp [FutMode.queues], by simp, by simp, by simp, by simp, ?_, by simp, by simp⟩, by simp⟩
      intro f other
      simp [other]
  | shared =>
      have fits := fits (by simp)
      simp only [futureAlloc, memory]
      refine ⟨⟨?_, ?_, ?_, ?_, ?_, ?_, ?_, by simp⟩, ?_⟩ <;>
        simp +contextual [queinit, fits, FutMode.queues]
  | queue =>
      have fits := fits (by simp)
      have fits' := fits' rfl
      simp only [futureAlloc, memory]
      refine ⟨⟨?_, ?_, ?_, ?_, ?_, ?_, ?_, ?_⟩, ?_⟩ <;>
        simp +contextual [queinit, fits, fits', FutMode.queues]
      omega

theorem futureAlloc_full (h : k.Handed) (memory : k.heap.memget FUTURE_SIZE = some (heap, some fut))
    (full : ¬ k.nextqid + 2 * flag.queues ≤ c.nqent) : ¬ (k.futureAlloc (some flag)).QueuesApart := by
  intro apart
  obtain ⟨n, next⟩ := h.next
  have room := h.room
  have fits : ¬ k.nextqid > c.nqent := by omega
  cases flag with
  | exclusive =>
      simp only [FutMode.queues] at full
      omega
  | shared =>
      have used : (k.futureAlloc (some .shared)).queueOf (.getters fut) = some k.nextqid := by
        simp [futureAlloc, memory, queueOf, queinit, fits, madeAs]
      have inside := (apart.inside _ _ used).2
      simp only [FutMode.queues, quetail, Config.nqent] at full inside
      omega
  | queue =>
      have used : (k.futureAlloc (some .queue)).queueOf (.getters fut) = some k.nextqid := by
        by_cases last : k.nextqid + 2 > c.nqent <;>
          simp [futureAlloc, memory, queueOf, queinit, fits, last, madeAs]
      have inside := (apart.inside _ _ used).2
      have fits' : ¬ k.nextqid + 2 > c.nqent := by
        simp only [quetail, Config.nqent] at inside ⊢
        omega
      have used' : (k.futureAlloc (some .queue)).queueOf (.setters fut) = some (k.nextqid + 2) := by
        simp [futureAlloc, memory, queueOf, queinit, fits, fits', madeAs]
      have inside' := (apart.inside _ _ used').2
      simp only [FutMode.queues, quetail, Config.nqent] at full inside'
      omega

theorem Handed.futureAlloc (h : k.Handed) (flag : Option FutMode)
    (roomy : k.roomy (.call (.futureAlloc flag)) = true)
    (ends : (k.futureAlloc flag).stopped = false) : (k.futureAlloc flag).Handed := by
  cases flag with
  | none => exact h.ret k.heap NULL
  | some flag =>
      cases memory : k.heap.memget FUTURE_SIZE with
      | none => simp [Kernel.futureAlloc, memory] at ends
      | some r =>
          obtain ⟨heap, _ | fut⟩ := r
          · simp only [Kernel.futureAlloc, memory]
            exact h.ret k.heap NULL
          · have room : k.nextqid + 2 * flag.queues ≤ c.nqent := by
              simpa [Kernel.roomy, memory] using roomy
            obtain ⟨stored, stack⟩ := futureAlloc_stored memory room
            apply h.stored stored room
            intro t
            rw [stack]
            exact h.ret_plain rfl rfl _ t

theorem Handed.step {x : Act} (h : k.Handed) (calls : allocates x = true) (roomy : k.roomy x = true)
    (action : step x k = some k') : k'.Handed := by
  cases x with
  | tick => cases calls
  | cont =>
      simp only [Kernel.step, Option.filter_eq_some_iff] at action
      obtain ⟨action, -⟩ := action
      cases stack : k.stack k.thrcurrent with
      | nil => simp [stack] at action
      | cons f fs =>
          simp only [stack, Option.some.injEq] at action
          subst action
          have plain : ∀ t, ∀ g ∈ (k.setStack k.thrcurrent fs).stack t, g.isRet = true := by
            intro t g member
            by_cases this : t = k.thrcurrent
            · subst this
              exact h.plain _ g (by rw [stack]; exact List.mem_cons_of_mem f (by simpa using member))
            · exact h.plain t g (by simpa [this] using member)
          have popped : (k.setStack k.thrcurrent fs).Handed := h.like rfl rfl plain
          have isRet := h.plain k.thrcurrent f (by simp [stack])
          cases f with
          | ret v =>
              simp only [runFrame]
              split
              · refine popped.like rfl ?_ popped.plain
                funext o
                cases o <;> rfl
              · exact popped
          | _ => cases isRet
  | call call =>
      obtain ⟨-, rfl, ends⟩ := step_call action
      have called := h.emit k.thrcurrent call
      cases call with
      | futureAlloc flag => exact called.futureAlloc flag roomy ends
      | futureFree fut =>
          simp only [runCall, futureFree] at ends ⊢
          split at ends
          · simp at ends
          · exact called.ret _ _
      | _ => cases calls

theorem boot_handed (c : Config) (p : Platform) : (boot c p).Handed := by
  obtain ⟨fresh, -⟩ := sysinit_fresh (c := c) p (⟨fun _ => ⟨0, 0, 0⟩⟩ : Quetab c)
  have queues (o : Owner) (q : Int) (used : (boot c p).queueOf o = some q) :
      (∃ s, o = .sem s ∧ s < c.nsem ∧ q = c.nthread + 2 * s) ∨
      o = .ready ∧ q = c.nthread + 2 * c.nsem ∨ o = .sleep ∧ q = c.nthread + 2 * c.nsem + 2 := by
    cases o with
    | sem s =>
        simp only [queueOf, boot, fresh.semtab] at used
        split at used
        · rename_i bound
          exact .inl ⟨s, rfl, bound, (Option.some.inj used).symm⟩
        · cases used
    | ready => exact .inr (.inl ⟨rfl, (Option.some.inj used).symm.trans fresh.readylist⟩)
    | sleep => exact .inr (.inr ⟨rfl, (Option.some.inj used).symm.trans fresh.sleepq⟩)
    | getters f => simp [queueOf, boot, fresh.log, madeAs] at used
    | setters f => simp [queueOf, boot, fresh.log, madeAs] at used
  have next : (boot c p).nextqid = c.nthread + 2 * c.nsem + 4 := fresh.nextqid
  refine ⟨⟨c.nsem + 2, by rw [next]; push_cast; omega⟩, ?_, ?_, ?_, ?_⟩
  · rw [next, Config.nqent]
    push_cast
    omega
  · intro o q used
    rw [next]
    rcases queues o q used with ⟨s, -, bound, rfl⟩ | ⟨-, rfl⟩ | ⟨-, rfl⟩
    · exact ⟨⟨s, rfl⟩, by omega⟩
    · exact ⟨⟨c.nsem, rfl⟩, by omega⟩
    · exact ⟨⟨c.nsem + 1, by push_cast; omega⟩, by omega⟩
  · intro o o' q used used'
    rcases queues o q used with ⟨s, rfl, bound, rfl⟩ | ⟨rfl, rfl⟩ | ⟨rfl, rfl⟩ <;>
      rcases queues o' _ used' with ⟨s', rfl, bound', same⟩ | ⟨rfl, same⟩ | ⟨rfl, same⟩ <;>
      first | rfl | (exfalso; omega) | (congr 1; omega)
  · intro t f member
    simp [boot, fresh.stack] at member

end

/-- In every run of `future_alloc` and `future_free` in which there is room for the queues of each
future, all queues in use are apart, and the next `future_alloc` keeps them so if and only if there
is room for it. -/
theorem queues_apart (c : Config) (p : Platform) (k : Kernel c (Quetab c))
    (reach : Reach step (fun k x => allocates x = true ∧ k.roomy x = true) (boot c p) k) :
    k.QueuesApart ∧ ∀ flag k', step (.call (.futureAlloc flag)) k = some k' →
      (k'.QueuesApart ↔ k.roomy (.call (.futureAlloc flag)) = true) := by
  have handed := reach.invariant (P := Handed) (boot_handed c p)
    fun _ _ _ h allowed action => h.step allowed.1 allowed.2 action
  refine ⟨handed.queuesApart, fun flag k' action => ⟨fun apart => ?_, fun roomy => ?_⟩⟩
  · by_contra full
    obtain ⟨-, rfl, -⟩ := step_call action
    cases flag with
    | none => exact full rfl
    | some flag =>
        cases memory : k.heap.memget FUTURE_SIZE with
        | none => simp [roomy, memory] at full
        | some r =>
            obtain ⟨heap, _ | fut⟩ := r
            · simp [roomy, memory] at full
            · refine @futureAlloc_full _ _ _ _ _ heap _ (handed.emit k.thrcurrent _) memory ?_ apart
              simpa [roomy, memory] using full
  · exact (handed.step rfl roomy action).queuesApart

def allocTwo : List Act :=
  [.call (.futureAlloc (some .queue)), .cont, .call (.futureAlloc (some .shared)), .cont]

theorem allocTwo_apart : ∃ k : Kernel armRpi (Quetab armRpi),
    k.QueuesApart ∧ k.queueOf (.getters 0x100000) = some 304 ∧
      k.queueOf (.setters 0x100000) = some 306 ∧ k.queueOf (.getters 0x100018) = some 308 := by
  have ran : (run step (fun k x => allocates x && k.roomy x) allocTwo (boot armRpi rpi)).map
      (fun k => (k.queueOf (.getters 0x100000), k.queueOf (.setters 0x100000),
        k.queueOf (.getters 0x100018))) = some (some 304, some 306, some 308) := by
    decide +kernel
  obtain ⟨k, action, observed⟩ := Option.map_eq_some_iff.mp ran
  simp only [Prod.mk.injEq] at observed
  have sound (k : Kernel armRpi (Quetab armRpi)) (x : Act) (h : (allocates x && k.roomy x) = true) :
      allocates x = true ∧ k.roomy x = true := by simpa using h
  exact ⟨k, (queues_apart armRpi rpi k (Reach.run sound .init action)).1, observed⟩

def allocMany : List Act :=
  (List.replicate 101 [.call (.futureAlloc (some .shared)), .cont]).flatten

theorem allocMany_outside : ∃ k : Kernel armRpi (Quetab armRpi),
    Reach step (fun _ x => allocates x = true) (boot armRpi rpi) k ∧ ¬ k.QueuesApart := by
  have ran : (run step (fun _ x => allocates x) allocMany (boot armRpi rpi)).map
      (fun k => k.queueOf (.getters 0x100960)) = some (some 504) := by
    decide +kernel
  obtain ⟨k, action, observed⟩ := Option.map_eq_some_iff.mp ran
  refine ⟨k, Reach.run (fun _ _ h => h) .init action, fun apart => ?_⟩
  have inside := (apart.inside _ _ observed).2
  revert inside
  decide

end Kernel
end Xinu
