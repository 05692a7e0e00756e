import Xinu.Proof.Kernel.Steps

namespace Xinu
namespace Kernel
variable {c : Config}

theorem queinit_eq {Q : Type} [Queues Q] {k : Kernel c Q} (room : k.nextqid ≤ c.nqent) :
    k.queinit = ({ k with nextqid := k.nextqid + 2, quetab := Queues.queinit k.quetab k.nextqid },
      k.nextqid) := by
  have fits : ¬ k.nextqid > c.nqent := by omega
  simp [queinit, fits]

theorem Rel.queinit {k : Kernel c (Quetab c)} {a : Kernel c Lists} (rel : Rel k a)
    (shape : ∃ i : Nat, k.nextqid = c.nthread + 2 * i) (room : k.nextqid ≤ c.nqent) :
    Rel k.queinit.1 a.queinit.1 ∧ k.queinit.2 = a.queinit.2 := by
  cases rel with
  | mk repr =>
      rw [queinit_eq room, queinit_eq (by simpa using room)]
      exact ⟨.mk (repr.queinit shape), rfl⟩

theorem semqueues_eq {Q : Type} [Queues Q] {k : Kernel c Q} {n : Nat} (bound : n ≤ c.nsem)
    (start : k.nextqid = c.nthread) :
    ∃ tab, k.semqueues n = { k with
      quetab := tab, nextqid := c.nthread + 2 * n,
      semtab := fun s => if s < n then ⟨.free, 0, c.nthread + 2 * s⟩ else k.semtab s } := by
  induction n with
  | zero => exact ⟨k.quetab, by simp [semqueues, ← start]⟩
  | succ n ih =>
      obtain ⟨tab, eq⟩ := ih (by omega)
      refine ⟨Queues.queinit tab (c.nthread + 2 * n), ?_⟩
      have room : (k.semqueues n).nextqid ≤ c.nqent := by
        rw [eq, Config.nqent]
        simp only
        omega
      have table : Function.update (fun s => if s < n then ⟨.free, 0, c.nthread + 2 * s⟩ else k.semtab s)
          n ⟨.free, 0, c.nthread + 2 * n⟩ =
          fun s => if s < n + 1 then ⟨.free, 0, c.nthread + 2 * s⟩ else k.semtab s := by
        funext s
        by_cases this : s = n
        · subst this
          simp
        · simp only [Function.update_of_ne this]
          have : s < n ↔ s < n + 1 := by omega
          simp only [this]
      simp only [semqueues, queinit_eq room]
      rw [eq]
      simp only [setSem, table, Kernel.mk.injEq, true_and, and_true]
      push_cast
      omega

structure Fresh {Q : Type} (k : Kernel c Q) : Prop where
  thrtab : k.thrtab = Function.update (fun _ => ⟨.free, 0, 0, 0, 0, 0, 0, false⟩) NULLTHREAD
    ⟨.curr, 0, 0, 0, 0, 0, 0, false⟩
  semtab : k.semtab = fun s => if s < c.nsem then ⟨.free, 0, c.nthread + 2 * s⟩ else ⟨.free, 0, 0⟩
  montab : k.montab = fun _ => ⟨.free, 0, 0, 0⟩
  readylist : k.readylist = c.nthread + 2 * c.nsem
  sleepq : k.sleepq = c.nthread + 2 * c.nsem + 2
  nextqid : k.nextqid = c.nthread + 2 * c.nsem + 4
  thrcount : k.thrcount = 1
  thrcurrent : k.thrcurrent = NULLTHREAD
  resdefer : k.resdefer = 0
  future : k.future = fun _ => ⟨0, .exclusive, .empty, 0, 0, 0⟩
  stack : k.stack = fun _ => []
  stopped : k.stopped = false
  log : k.log = []

theorem sysinit_fresh {Q : Type} [Queues Q] (p : Platform) (tab : Q) :
    (sysinit c p tab).Fresh ∧ (sysinit c p tab).heap = heapInit p := by
  obtain ⟨tab', eq⟩ := semqueues_eq (k := sysinitThreads c p tab) le_rfl rfl
  have room : ((sysinitThreads c p tab).semqueues c.nsem).nextqid ≤ c.nqent := by
    rw [eq, Config.nqent]
    simp only
    omega
  unfold sysinit
  rw [queinit_eq room]
  simp only
  rw [queinit_eq (by rw [eq, Config.nqent]; simp only; omega), eq]
  refine ⟨⟨rfl, rfl, rfl, rfl, rfl, ?_, rfl, rfl, rfl, rfl, rfl, rfl, rfl⟩, rfl⟩
  simp only
  omega

theorem Rel.semqueues {k : Kernel c (Quetab c)} {a : Kernel c Lists} {n : Nat} (rel : Rel k a)
    (bound : n ≤ c.nsem) (start : k.nextqid = c.nthread) :
    Rel (k.semqueues n) (a.semqueues n) := by
  induction n with
  | zero => exact rel
  | succ n ih =>
      obtain ⟨tab, eq⟩ := semqueues_eq (n := n) (by omega) start
      have next : (k.semqueues n).nextqid = c.nthread + 2 * n := by rw [eq]
      have room : (k.semqueues n).nextqid ≤ c.nqent := by
        rw [next, Config.nqent]
        omega
      obtain ⟨moved, same⟩ := (ih (by omega)).queinit ⟨n, next⟩ room
      simp only [Kernel.semqueues, same]
      exact moved.setSem n _

theorem Rel.setReadylist {k : Kernel c (Quetab c)} {a : Kernel c Lists} (rel : Rel k a) (q : Int) :
    Rel { k with readylist := q } { a with readylist := q } := by
  cases rel with | mk repr => exact .mk repr

theorem Rel.setSleepq {k : Kernel c (Quetab c)} {a : Kernel c Lists} (rel : Rel k a) (q : Int) :
    Rel { k with sleepq := q } { a with sleepq := q } := by
  cases rel with | mk repr => exact .mk repr

def bootLists (c : Config) (p : Platform) : Kernel c Lists :=
  sysinit c p ⟨fun _ => [], fun _ => 0, fun _ => 0⟩

theorem boot_rel (c : Config) (p : Platform) : Rel (boot c p) (bootLists c p) := by
  have start : Rel (sysinitThreads c p ⟨fun _ => ⟨0, 0, 0⟩⟩)
      (sysinitThreads c p ⟨fun _ => [], fun _ => 0, fun _ => 0⟩) := .mk (Represents.empty c)
  obtain ⟨tab, eq⟩ := semqueues_eq (k := sysinitThreads c p (⟨fun _ => ⟨0, 0, 0⟩⟩ : Quetab c))
    le_rfl rfl
  have room : ((sysinitThreads c p (⟨fun _ => ⟨0, 0, 0⟩⟩ : Quetab c)).semqueues c.nsem).nextqid ≤
      c.nqent := by
    rw [eq, Config.nqent]
    simp only
    omega
  obtain ⟨ready, sameReady⟩ := (start.semqueues le_rfl rfl).queinit ⟨c.nsem, by rw [eq]⟩ room
  have withReady := ready.setReadylist
    ((sysinitThreads c p (⟨fun _ => ⟨0, 0, 0⟩⟩ : Quetab c)).semqueues c.nsem).queinit.2
  obtain ⟨sleep, sameSleep⟩ := withReady.queinit
    ⟨c.nsem + 1, by rw [queinit_eq room, eq]; push_cast; omega⟩
    (by rw [queinit_eq room, eq, Config.nqent]; simp only; omega)
  unfold boot bootLists sysinit
  simp only [← sameReady]
  simp only [← sameSleep]
  exact sleep.setSleepq _

theorem queinit_quetab {k : Kernel c Lists} (empty : k.quetab.ids = fun _ => []) :
    k.queinit.1.quetab = k.quetab := by
  have same : Function.update k.quetab.ids k.nextqid [] = k.quetab.ids := by
    rw [empty]
    exact Function.update_eq_self k.nextqid _
  unfold queinit
  split
  · rfl
  · show { k.quetab with ids := Function.update k.quetab.ids k.nextqid [] } = k.quetab
    rw [same]

theorem semqueues_quetab {k : Kernel c Lists} (empty : k.quetab.ids = fun _ => []) (n : Nat) :
    (k.semqueues n).quetab = k.quetab := by
  induction n with
  | zero => rfl
  | succ n ih =>
      have next := queinit_quetab (k := k.semqueues n) (by rw [ih]; exact empty)
      simpa [semqueues, ih] using next

theorem bootLists_quetab (c : Config) (p : Platform) :
    (bootLists c p).quetab = ⟨fun _ => [], fun _ => 0, fun _ => 0⟩ := by
  have sems := semqueues_quetab (k := sysinitThreads c p
    (⟨fun _ => [], fun _ => 0, fun _ => 0⟩ : Lists)) rfl c.nsem
  have ready := queinit_quetab (k := (sysinitThreads c p
    (⟨fun _ => [], fun _ => 0, fun _ => 0⟩ : Lists)).semqueues c.nsem) (by rw [sems]; rfl)
  rw [sems] at ready
  unfold bootLists sysinit
  simp only
  rw [queinit_quetab]
  · exact ready
  · simp only [ready]
    rfl

theorem bootLists_inv (c : Config) (p : Platform) : (bootLists c p).Inv := by
  obtain ⟨fresh, -⟩ := sysinit_fresh (c := c) p (⟨fun _ => [], fun _ => 0, fun _ => 0⟩ : Lists)
  have zero : (NULLTHREAD : Int) < c.nthread := by exact_mod_cast c.nthread_pos
  have curr : ∀ t, ((bootLists c p).thrtab t).state = .curr → t = NULLTHREAD := by
    intro t state
    by_contra other
    rw [bootLists, fresh.thrtab, Function.update_of_ne other] at state
    cases state
  have idle : ∀ t, (bootLists c p).home t = none := by
    intro t
    by_cases this : t = NULLTHREAD
    · subst this
      rw [home_eq_run (by decide) zero (by rw [bootLists, fresh.thrtab]; rfl)]
      simp [runQueue, frame, bootLists, fresh.stack]
    · refine home_eq_none (.inl ?_)
      rw [bootLists, fresh.thrtab, Function.update_of_ne this]
  refine ⟨⟨⟨?_, ?_, ?_, ?_, fresh.resdefer, ?_, ?_, ?_, ?_⟩, ?_, ?_⟩, ?_⟩
  · exact fresh.thrcurrent ▸ (by decide : (0 : Int) ≤ NULLTHREAD)
  · exact fresh.thrcurrent ▸ zero
  · intro t _ _ state
    rw [curr t state, bootLists, fresh.thrcurrent]
  · rw [bootLists, fresh.thrtab]; simp
  · simp [bootLists, fresh.stack]
  · simp [frame, bootLists, fresh.stack]
  · simp [bootLists, fresh.stack]
  · simp [bootLists, fresh.stack]
  · rw [bootLists_quetab, funext idle]
    exact ⟨by simp, by simp, by simp⟩
  · refine ⟨fresh.readylist, fresh.sleepq, ⟨c.nsem + 2, ?_, le_rfl⟩, ?_, ?_, ?_⟩
    · rw [bootLists, fresh.nextqid]; push_cast; omega
    · intro s bound
      rw [bootLists, fresh.semtab]
      simp [bound]
    · intro s bound
      rw [bootLists, fresh.semtab]
      have := c.nthread_pos
      simp [show ¬ s < c.nsem by omega]
      omega
    · intro f
      rw [bootLists, fresh.future]
      exact ⟨.inl zero, .inl zero⟩
  · rw [bootLists, fresh.thrcurrent, fresh.thrtab]
    rfl

/-- Calls of the kernel proper, made by threads that may block. -/
def basicCalls {Q : Type} (k : Kernel c Q) (x : Act) : Bool :=
  k.nullRuns x && match x with
    | .call call => call.basic
    | _ => true

theorem Moves.keep {x : Act} {b a a' : Kernel c Lists} {J : Kernel c Lists → Prop}
    (keep : ∀ a a', a.Inv → J a → Move x b a a' → J a') (moves : Moves x b a a') (inv : a.Inv)
    (holds : J a) (within : ∀ t, ∀ f ∈ a.stack t, f.basic = true) :
    a'.Inv ∧ J a' ∧ ∀ t, ∀ f ∈ a'.stack t, f.basic = true := by
  induction moves with
  | refl => exact ⟨inv, holds, within⟩
  | tail _ move ih =>
      obtain ⟨inv, holds, within⟩ := ih
      refine ⟨move.inv inv, keep _ _ inv holds move, ?_⟩
      intro t f member
      exact (move.stack_mem member).elim (within t f) id

theorem start_inv {b : Kernel c Lists} (inv : b.Inv) (x : Act) : (b.start x).Inv := by
  cases x with
  | call call => exact inv.emit _
  | cont => exact inv
  | tick => exact inv

@[simp] theorem start_frame (b : Kernel c Lists) (x : Act) :
    (b.start x).thrtab = b.thrtab ∧ (b.start x).semtab = b.semtab ∧
    (b.start x).quetab = b.quetab ∧ (b.start x).thrcurrent = b.thrcurrent ∧
    (b.start x).stack = b.stack ∧ (b.start x).readylist = b.readylist ∧
    (b.start x).sleepq = b.sleepq ∧ (b.start x).thrcount = b.thrcount ∧
    (b.start x).heap = b.heap := by
  cases x <;> simp [start]

section
variable {p : Platform} {ok : Kernel c (Quetab c) → Act → Prop} {k : Kernel c (Quetab c)}

structure Kept (ok : Kernel c (Quetab c) → Act → Prop) (P : Kernel c Lists → Prop)
    (J : Act → Kernel c Lists → Kernel c Lists → Prop) : Prop where
  basic : ∀ k call, ok k (.call call) → call.basic = true
  null : ∀ k x, ok k x → k.nullRuns x = true
  legal : ∀ k a x, Rel k a → a.Inv → P a → ok k x → k.legal x = true
  enter : ∀ k k' x b, Rel k b → ok k x → b.Inv → P b → step x k = some k' → J x b (b.start x)
  keep : ∀ k x b a a', Rel k b → ok k x → b.Inv → P b → a.Inv → J x b a → Move x b a a' → J x b a'
  leave : ∀ k k' x b a, Rel k b → ok k x → step x k = some k' → Rel k' a → J x b a → P a

def Holding (P : Kernel c Lists → Prop) (k : Kernel c (Quetab c)) : Prop :=
  ∃ a, Rel k a ∧ a.Inv ∧ P a ∧ ∀ t, ∀ f ∈ a.stack t, f.basic = true

theorem boot_holding {P : Kernel c Lists → Prop} (start : P (bootLists c p)) :
    Holding P (boot c p) := by
  refine ⟨bootLists c p, boot_rel c p, bootLists_inv c p, start, ?_⟩
  have fresh := (sysinit_fresh (c := c) p (⟨fun _ => [], fun _ => 0, fun _ => 0⟩ : Lists)).1
  simp [bootLists, fresh.stack]

theorem Kept.preserves {P : Kernel c Lists → Prop} {J : Act → Kernel c Lists → Kernel c Lists → Prop}
    (kept : Kept ok P J) {k' : Kernel c (Quetab c)} {x : Act} (holding : Holding P k)
    (allowed : ok k x) (action : Kernel.step x k = some k') : Holding P k' := by
  obtain ⟨b, rel, inv, holds, within⟩ := holding
  obtain ⟨⟨a, moves, rel'⟩, -⟩ := step_does rel inv within
    (fun call eq => kept.basic k call (eq ▸ allowed)) (kept.null k x allowed)
    (kept.legal k b x rel inv holds allowed) action
  obtain ⟨inv', holds', within'⟩ := moves.keep
    (fun a a' => kept.keep k x b a a' rel allowed inv holds) (start_inv inv x)
    (kept.enter k k' x b rel allowed inv holds action) (by simpa using within)
  exact ⟨a, rel', inv', kept.leave k k' x b a rel allowed action rel' holds', within'⟩

theorem Kept.reach {P : Kernel c Lists → Prop} {J : Act → Kernel c Lists → Kernel c Lists → Prop}
    (kept : Kept ok P J) (start : P (bootLists c p)) (reach : Lib.Reach Kernel.step ok (boot c p) k) :
    Holding P k :=
  reach.invariant (P := Holding P) (boot_holding start)
    fun _ _ _ holding allowed action => kept.preserves holding allowed action

end

end Kernel
end Xinu
