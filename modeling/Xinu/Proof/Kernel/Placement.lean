import Xinu.Proof.Kernel.Frame
import Xinu.Proof.Queue.Represents

namespace Xinu

def Frame.isRet : Frame → Bool
  | .ret _ => true
  | _ => false

def Frame.onFuture : Frame → Bool
  | .getExclusive _ | .getShared _ | .getQueue _ | .setQueue _ _ => true
  | _ => false

namespace Kernel
variable {c : Config}

section
variable {Q : Type} (k : Kernel c Q)

def frame (t : Int) : Option Frame := (k.stack t).find? (!·.isRet)

@[simp] theorem frame_ret (v t : Int) : (k.ret v).frame t = k.frame t := by
  by_cases this : t = k.thrcurrent
  · subst this
    simp [frame, show (Frame.ret v).isRet = true from rfl]
  · simp [frame, this]

theorem frame_nil {k : Kernel c Q} {t : Int} (empty : k.stack t = []) : k.frame t = none := by
  simp [frame, empty]

def waitQueue (t : Int) : Option Int :=
  match k.frame t with
  | some (.getExclusive _) => none
  | some (.getShared f) => some (k.future f).getQueue
  | some (.getQueue f) => some (k.future f).getQueue
  | some (.setQueue f _) => some (k.future f).setQueue
  | _ => some (k.semtab (k.thrtab t).sem).queue

def runQueue (t : Int) : Option Int :=
  match k.frame t with
  | some (.getSignalled f) => some (k.future f).getQueue
  | _ => none

def home (t : Int) : Option Int :=
  if 0 ≤ t ∧ t < c.nthread then
    match (k.thrtab t).state with
    | .ready => some k.readylist
    | .sleep => some k.sleepq
    | .tmout => some k.sleepq
    | .wait => k.waitQueue t
    | .curr => k.runQueue t
    | _ => none
  else none

structure Good (q : Int) : Prop where
  isq : c.IsQueue q
  low : q < k.nextqid

def Apart (c : Config) (q : Int) : Prop := q < c.nthread ∨ c.nthread + 2 * c.nsem + 4 ≤ q

/-- The queue ids as `sysinit` hands them out. -/
structure Layout : Prop where
  ready : k.readylist = c.nthread + 2 * c.nsem
  sleep : k.sleepq = c.nthread + 2 * c.nsem + 2
  next : ∃ i : Nat, k.nextqid = c.nthread + 2 * i ∧ c.nsem + 2 ≤ i
  sems : ∀ s, s < c.nsem → (k.semtab s).queue = c.nthread + 2 * s
  nosem : ∀ s, c.nsem ≤ s → (k.semtab s).queue < c.nthread
  futs : ∀ f, Apart c (k.future f).getQueue ∧ Apart c (k.future f).setQueue

structure Fixed (k' : Kernel c Q) : Prop where
  ready : k'.readylist = k.readylist
  sleep : k'.sleepq = k.sleepq
  next : k'.nextqid = k.nextqid
  sems : ∀ s, (k'.semtab s).queue = (k.semtab s).queue
  futs : ∀ f, (k'.future f).getQueue = (k.future f).getQueue ∧
    (k'.future f).setQueue = (k.future f).setQueue

structure Like (k' : Kernel c Q) : Prop extends Fixed k k' where
  state : ∀ t, (k'.thrtab t).state = (k.thrtab t).state
  sem : ∀ t, (k'.thrtab t).sem = (k.thrtab t).sem
  stack : k'.stack = k.stack
  current : k'.thrcurrent = k.thrcurrent
  resdefer : k'.resdefer = k.resdefer

variable {k}

theorem Fixed.of {k' : Kernel c Q} (same : k'.readylist = k.readylist ∧ k'.sleepq = k.sleepq ∧ k'.nextqid = k.nextqid ∧
    (∀ s, (k'.semtab s).queue = (k.semtab s).queue) ∧
    ∀ f, (k'.future f).getQueue = (k.future f).getQueue ∧ (k'.future f).setQueue = (k.future f).setQueue) : k.Fixed k' where
  ready := same.1
  sleep := same.2.1
  next := same.2.2.1
  sems := same.2.2.2.1
  futs := same.2.2.2.2

theorem Like.of {k' : Kernel c Q} (fixed : k.Fixed k') (same : (∀ t, (k'.thrtab t).state = (k.thrtab t).state) ∧
    (∀ t, (k'.thrtab t).sem = (k.thrtab t).sem) ∧ k'.stack = k.stack ∧ k'.thrcurrent = k.thrcurrent ∧
    k'.resdefer = k.resdefer) : k.Like k' where
  toFixed := fixed
  state := same.1
  sem := same.2.1
  stack := same.2.2.1
  current := same.2.2.2.1
  resdefer := same.2.2.2.2

theorem Fixed.trans {k₁ k₂ : Kernel c Q} (h : k.Fixed k₁) (h' : k₁.Fixed k₂) : k.Fixed k₂ where
  ready := h'.ready.trans h.ready
  sleep := h'.sleep.trans h.sleep
  next := h'.next.trans h.next
  sems s := (h'.sems s).trans (h.sems s)
  futs f := ⟨(h'.futs f).1.trans (h.futs f).1, (h'.futs f).2.trans (h.futs f).2⟩

theorem Like.trans {k₁ k₂ : Kernel c Q} (h : k.Like k₁) (h' : k₁.Like k₂) : k.Like k₂ where
  toFixed := h.toFixed.trans h'.toFixed
  state t := (h'.state t).trans (h.state t)
  sem t := (h'.sem t).trans (h.sem t)
  stack := h'.stack.trans h.stack
  current := h'.current.trans h.current
  resdefer := h'.resdefer.trans h.resdefer

theorem Like.emit {k' : Kernel c Q} (h : k.Like k') (e : Event) : k.Like (k'.emit e) :=
  h.trans (.of (.of (by simp)) (by simp))

theorem like_setThr {t : Int} {e : Thrent} (state : e.state = (k.thrtab t).state)
    (sem : e.sem = (k.thrtab t).sem) : k.Like (k.setThr t e) := by
  refine .of (.of (by simp)) ⟨?_, ?_, by simp⟩
  · intro u
    by_cases this : u = t
    · subst this
      simpa using state
    · simp [this]
  · intro u
    by_cases this : u = t
    · subst this
      simpa using sem
    · simp [this]

theorem like_setSem {s : Nat} {e : Sement} (queue : e.queue = (k.semtab s).queue) :
    k.Like (k.setSem s e) := by
  refine .of (.of ⟨by simp, by simp, by simp, ?_, by simp⟩) (by simp)
  intro s'
  by_cases this : s' = s
  · subst this
    simpa using queue
  · simp [this]

theorem like_setCount (s : Nat) (v : Int) : k.Like (k.setCount s v) := like_setSem rfl

theorem Good.fixed {k' : Kernel c Q} {q : Int} (h : k.Good q) (same : k.Fixed k') : k'.Good q :=
  ⟨h.isq, same.next ▸ h.low⟩

namespace Layout

theorem fixed {k' : Kernel c Q} (h : k.Layout) (same : k.Fixed k') : k'.Layout where
  ready := same.ready.trans h.ready
  sleep := same.sleep.trans h.sleep
  next := by rw [same.next]; exact h.next
  sems s bound := (same.sems s).trans (h.sems s bound)
  nosem s bound := by rw [same.sems]; exact h.nosem s bound
  futs f := by rw [(same.futs f).1, (same.futs f).2]; exact h.futs f

theorem good_ready (h : k.Layout) : k.Good k.readylist := by
  obtain ⟨i, next, bound⟩ := h.next
  exact ⟨⟨c.nsem, h.ready, by rw [h.ready, Config.nqent]; omega⟩, by rw [h.ready]; omega⟩

theorem good_sleep (h : k.Layout) : k.Good k.sleepq := by
  obtain ⟨i, next, bound⟩ := h.next
  exact ⟨⟨c.nsem + 1, by rw [h.sleep]; omega, by rw [h.sleep, Config.nqent]; omega⟩,
    by rw [h.sleep]; omega⟩

theorem good_sem (h : k.Layout) {s : Nat} (bound : s < c.nsem) : k.Good (k.semtab s).queue := by
  obtain ⟨i, next, room⟩ := h.next
  exact ⟨⟨s, h.sems s bound, by rw [h.sems s bound, Config.nqent]; omega⟩,
    by rw [h.sems s bound]; omega⟩

theorem sem_ne_ready (h : k.Layout) {s : Nat} (bound : s < c.nsem) :
    (k.semtab s).queue ≠ k.readylist := by
  rw [h.sems s bound, h.ready]
  omega

end Layout

theorem home_congr {k' : Kernel c Q} {t : Int} (same : k.Fixed k')
    (state : (k'.thrtab t).state = (k.thrtab t).state)
    (sem : (k'.thrtab t).sem = (k.thrtab t).sem) (frames : k'.frame t = k.frame t) :
    k'.home t = k.home t := by
  simp only [home, waitQueue, runQueue, state, sem, frames, same.sems, same.ready, same.sleep,
    fun f => (same.futs f).1, fun f => (same.futs f).2]

theorem home_update {k' : Kernel c Q} {t : Int} (same : k.Fixed k')
    (state : ∀ u, u ≠ t → (k'.thrtab u).state = (k.thrtab u).state)
    (sem : ∀ u, u ≠ t → (k'.thrtab u).sem = (k.thrtab u).sem)
    (frames : ∀ u, u ≠ t → k'.frame u = k.frame u) :
    k'.home = Function.update k.home t (k'.home t) := by
  funext u
  by_cases this : u = t
  · simp [this]
  · rw [Function.update_of_ne this]
    exact home_congr same (state u this) (sem u this) (frames u this)

theorem Like.home {k' : Kernel c Q} (same : k.Like k') (t : Int) : k'.home t = k.home t :=
  home_congr same.toFixed (same.state t) (same.sem t) (by simp [frame, same.stack])

theorem home_some_valid {t q : Int} (h : k.home t = some q) : 0 ≤ t ∧ t < c.nthread := by
  by_contra outside
  simp [home, outside] at h

theorem home_eq_none {t : Int} (h : (k.thrtab t).state = .free ∨ (k.thrtab t).state = .susp ∨
    (k.thrtab t).state = .recv) : k.home t = none := by
  simp only [home]
  split
  · rcases h with h | h | h <;> simp [h]
  · rfl

theorem home_eq_run {t : Int} (lo : 0 ≤ t) (hi : t < c.nthread) (h : (k.thrtab t).state = .curr) :
    k.home t = k.runQueue t := by
  simp [home, lo, hi, h]

theorem home_ready {t : Int} (lo : 0 ≤ t) (hi : t < c.nthread) (h : (k.thrtab t).state = .ready) :
    k.home t = some k.readylist := by
  simp [home, lo, hi, h]

theorem home_sleep {t : Int} (lo : 0 ≤ t) (hi : t < c.nthread)
    (h : (k.thrtab t).state = .sleep ∨ (k.thrtab t).state = .tmout) :
    k.home t = some k.sleepq := by
  rcases h with h | h <;> simp [home, lo, hi, h]

theorem home_wait {t : Int} (lo : 0 ≤ t) (hi : t < c.nthread) (h : (k.thrtab t).state = .wait) :
    k.home t = k.waitQueue t := by
  simp [home, lo, hi, h]

theorem waitQueue_sem {t : Int} (frames : ∀ f, k.frame t = some f → f.onFuture = false) :
    k.waitQueue t = some (k.semtab (k.thrtab t).sem).queue := by
  unfold waitQueue
  split
  all_goals first | rfl | (rename_i eq; exact absurd (frames _ eq) (by simp [Frame.onFuture]))

theorem Layout.waitQueue_cases (h : k.Layout) {t q : Int} (on : k.waitQueue t = some q) :
    Apart c q ∨ q = (k.semtab (k.thrtab t).sem).queue ∧
      ∀ f, k.frame t = some f → f.onFuture = false := by
  unfold waitQueue at on
  split at on
  · cases on
  · rename_i f _
    exact .inl (Option.some.inj on ▸ (h.futs f).1)
  · rename_i f _
    exact .inl (Option.some.inj on ▸ (h.futs f).1)
  · rename_i f _ _
    exact .inl (Option.some.inj on ▸ (h.futs f).2)
  · rename_i exclusive shared queue set
    refine .inr ⟨(Option.some.inj on).symm, ?_⟩
    intro f eq
    cases f with
    | getExclusive g => exact absurd eq (exclusive g)
    | getShared g => exact absurd eq (shared g)
    | getQueue g => exact absurd eq (queue g)
    | setQueue g v => exact absurd eq (set g v)
    | _ => rfl

theorem Layout.runQueue_apart (h : k.Layout) {t q : Int} (on : k.runQueue t = some q) :
    Apart c q := by
  unfold runQueue at on
  split at on
  · rename_i f _
    exact Option.some.inj on ▸ (h.futs f).1
  · cases on

theorem Layout.home_cases (h : k.Layout) {t q : Int} (on : k.home t = some q) :
    (k.thrtab t).state = .ready ∧ q = k.readylist ∨
    ((k.thrtab t).state = .sleep ∨ (k.thrtab t).state = .tmout) ∧ q = k.sleepq ∨
    (k.thrtab t).state = .wait ∧ q = (k.semtab (k.thrtab t).sem).queue ∧
      (∀ f, k.frame t = some f → f.onFuture = false) ∨
    ((k.thrtab t).state = .wait ∨ (k.thrtab t).state = .curr) ∧ Apart c q := by
  obtain ⟨lo, hi⟩ := home_some_valid on
  cases state : (k.thrtab t).state with
  | ready =>
      rw [home_ready lo hi state] at on
      exact .inl ⟨rfl, (Option.some.inj on).symm⟩
  | sleep =>
      rw [home_sleep lo hi (.inl state)] at on
      exact .inr (.inl ⟨.inl rfl, (Option.some.inj on).symm⟩)
  | tmout =>
      rw [home_sleep lo hi (.inr state)] at on
      exact .inr (.inl ⟨.inr rfl, (Option.some.inj on).symm⟩)
  | wait =>
      rw [home_wait lo hi state] at on
      rcases h.waitQueue_cases on with apart | sem
      · exact .inr (.inr (.inr ⟨.inl rfl, apart⟩))
      · exact .inr (.inr (.inl ⟨rfl, sem⟩))
  | curr =>
      rw [home_eq_run lo hi state] at on
      exact .inr (.inr (.inr ⟨.inr rfl, h.runQueue_apart on⟩))
  | free =>
      rw [home_eq_none (.inl state)] at on
      cases on
  | susp =>
      rw [home_eq_none (.inr (.inl state))] at on
      cases on
  | recv =>
      rw [home_eq_none (.inr (.inr state))] at on
      cases on

theorem Layout.sem_cases (h : k.Layout) (s : Nat) :
    s < c.nsem ∧ (k.semtab s).queue = c.nthread + 2 * s ∨
    c.nsem ≤ s ∧ (k.semtab s).queue < c.nthread := by
  rcases Nat.lt_or_ge s c.nsem with bound | bound
  · exact .inl ⟨bound, h.sems s bound⟩
  · exact .inr ⟨bound, h.nosem s bound⟩

theorem Layout.of_ready (h : k.Layout) {t : Int} (on : k.home t = some k.readylist) :
    (k.thrtab t).state = .ready := by
  have ready := h.ready
  have sleep := h.sleep
  rcases h.home_cases on with ⟨state, -⟩ | ⟨-, q⟩ | ⟨-, q, -⟩ | ⟨-, apart⟩
  · exact state
  · omega
  · have := h.sem_cases (k.thrtab t).sem
    omega
  · simp only [Apart] at apart
    omega

theorem Layout.of_sleep (h : k.Layout) {t : Int} (on : k.home t = some k.sleepq) :
    (k.thrtab t).state = .sleep ∨ (k.thrtab t).state = .tmout := by
  have ready := h.ready
  have sleep := h.sleep
  rcases h.home_cases on with ⟨-, q⟩ | ⟨state, -⟩ | ⟨-, q, -⟩ | ⟨-, apart⟩
  · omega
  · exact state
  · have := h.sem_cases (k.thrtab t).sem
    omega
  · simp only [Apart] at apart
    omega

theorem Layout.of_sem (h : k.Layout) {t : Int} {s : Nat} (bound : s < c.nsem)
    (on : k.home t = some (k.semtab s).queue) : (k.thrtab t).state = .wait ∧
      (k.thrtab t).sem = s ∧ ∀ f, k.frame t = some f → f.onFuture = false := by
  have ready := h.ready
  have sleep := h.sleep
  have sem := h.sems s bound
  rcases h.home_cases on with ⟨-, q⟩ | ⟨-, q⟩ | ⟨state, q, frames⟩ | ⟨-, apart⟩
  · omega
  · omega
  · have := h.sem_cases (k.thrtab t).sem
    exact ⟨state, by omega, frames⟩
  · simp only [Apart] at apart
    omega

end

section
variable {k : Kernel c Lists} {home : Int → Option Int} {q : Int}

theorem firstid_lists (l : Lists) (q : Int) :
    Queues.firstid l q = (l.ids q).headD (quetail q) := rfl

theorem nonempty_iff (good : k.Good q) (valid : ∀ t ∈ k.quetab.ids q, 0 ≤ t ∧ t < c.nthread) :
    k.nonempty q = true ↔ k.quetab.ids q ≠ [] := by
  obtain ⟨⟨i, rfl, -⟩, -⟩ := good
  simp only [nonempty, firstid_lists, decide_eq_true_eq]
  cases ids : k.quetab.ids (c.nthread + 2 * i) with
  | nil =>
      simp only [List.headD_nil, quetail, ne_eq, not_true_eq_false, iff_false]
      omega
  | cons t rest =>
      have := (valid t (by simp [ids])).2
      simpa using this

theorem isempty_iff (good : k.Good q) (valid : ∀ t ∈ k.quetab.ids q, 0 ≤ t ∧ t < c.nthread) :
    k.isempty q = true ↔ k.quetab.ids q = [] := by
  have flip : k.isempty q = !k.nonempty q := by
    rw [Bool.eq_iff_iff]
    simp [isempty, nonempty]
  rw [flip, Bool.not_eq_true', ← Bool.not_eq_true, nonempty_iff good valid, not_ne_iff]

theorem dequeue_nil (good : k.Good q) (ids : k.quetab.ids q = []) : k.dequeue q = (k, EMPTY) := by
  have empty : k.isempty q = true := (isempty_iff good (by simp [ids])).mpr ids
  simp [dequeue, good.isq.good, empty]

theorem dequeue_cons {t : Int} {rest : List Int} (good : k.Good q)
    (valid : ∀ t ∈ k.quetab.ids q, 0 ≤ t ∧ t < c.nthread) (ids : k.quetab.ids q = t :: rest) :
    k.dequeue q = (k.getitem t, t) := by
  have busy : k.isempty q = false := by
    rw [← Bool.not_eq_true, isempty_iff good valid, ids]
    simp
  have clear : ∀ u, (k.getitem u).setQuetab (Queues.clear (k.getitem u).quetab u) = k.getitem u :=
    fun _ => rfl
  simp only [dequeue, good.isq.good, busy, firstid_lists, ids, clear, List.headD_cons, ite_self,
    Bool.false_eq_true, if_false]

theorem insert_lists {t v : Int} (isq : c.IsQueue q) (live : k.isbadtid t = false) :
    k.insert t q v = k.setQuetab (k.quetab.insert t q v) := by
  simp only [insert, isq.good, live, Bool.or_self, Bool.false_eq_true, if_false]
  rfl

theorem insertd_lists {t v : Int} (isq : c.IsQueue q) (live : k.isbadtid t = false) :
    k.insertd t q v = (k.setQuetab (k.quetab.insertd t q v), OK) := by
  simp only [insertd, isq.good, live, Bool.or_self, Bool.false_eq_true, if_false]
  rfl

theorem enqueue_lists {t : Int} (isq : c.IsQueue q) (live : k.isbadtid t = false) :
    k.enqueue t q = k.setQuetab (k.quetab.enqueue t q) := by
  simp only [enqueue, isq.good, live, Bool.or_self, Bool.false_eq_true, if_false]
  rfl

end

end Kernel

end Xinu
