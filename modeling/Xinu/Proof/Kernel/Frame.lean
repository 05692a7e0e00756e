import Xinu.System.Machine

namespace Xinu.Kernel
variable {c : Config} {Q : Type} (k : Kernel c Q) (t q v : Int)

@[simp] theorem emit_frame (e : Event) :
    (k.emit e).thrtab = k.thrtab ∧ (k.emit e).semtab = k.semtab ∧ (k.emit e).montab = k.montab ∧
    (k.emit e).quetab = k.quetab ∧ (k.emit e).readylist = k.readylist ∧
    (k.emit e).sleepq = k.sleepq ∧ (k.emit e).thrcount = k.thrcount ∧
    (k.emit e).thrcurrent = k.thrcurrent ∧ (k.emit e).resdefer = k.resdefer ∧
    (k.emit e).nextqid = k.nextqid ∧ (k.emit e).heap = k.heap ∧ (k.emit e).future = k.future ∧
    (k.emit e).stack = k.stack ∧ (k.emit e).stopped = k.stopped ∧ (k.emit e).log = e :: k.log := by
  simp [emit]

@[simp] theorem stop_frame :
    k.stop.thrtab = k.thrtab ∧ k.stop.semtab = k.semtab ∧ k.stop.montab = k.montab ∧
    k.stop.quetab = k.quetab ∧ k.stop.readylist = k.readylist ∧ k.stop.sleepq = k.sleepq ∧
    k.stop.thrcount = k.thrcount ∧ k.stop.thrcurrent = k.thrcurrent ∧ k.stop.resdefer = k.resdefer ∧
    k.stop.nextqid = k.nextqid ∧ k.stop.heap = k.heap ∧ k.stop.future = k.future ∧
    k.stop.stack = k.stack ∧ k.stop.stopped = true ∧ k.stop.log = k.log := by
  simp [stop]

@[simp] theorem setQuetab_frame (tab : Q) :
    (k.setQuetab tab).thrtab = k.thrtab ∧ (k.setQuetab tab).semtab = k.semtab ∧
    (k.setQuetab tab).montab = k.montab ∧ (k.setQuetab tab).quetab = tab ∧
    (k.setQuetab tab).readylist = k.readylist ∧ (k.setQuetab tab).sleepq = k.sleepq ∧
    (k.setQuetab tab).thrcount = k.thrcount ∧ (k.setQuetab tab).thrcurrent = k.thrcurrent ∧
    (k.setQuetab tab).resdefer = k.resdefer ∧ (k.setQuetab tab).nextqid = k.nextqid ∧
    (k.setQuetab tab).heap = k.heap ∧ (k.setQuetab tab).future = k.future ∧
    (k.setQuetab tab).stack = k.stack ∧ (k.setQuetab tab).stopped = k.stopped ∧
    (k.setQuetab tab).log = k.log := by
  simp [setQuetab]

@[simp] theorem setThr_frame (e : Thrent) :
    (k.setThr t e).thrtab = Function.update k.thrtab t e ∧ (k.setThr t e).semtab = k.semtab ∧
    (k.setThr t e).montab = k.montab ∧ (k.setThr t e).quetab = k.quetab ∧
    (k.setThr t e).readylist = k.readylist ∧ (k.setThr t e).sleepq = k.sleepq ∧
    (k.setThr t e).thrcount = k.thrcount ∧ (k.setThr t e).thrcurrent = k.thrcurrent ∧
    (k.setThr t e).resdefer = k.resdefer ∧ (k.setThr t e).nextqid = k.nextqid ∧
    (k.setThr t e).heap = k.heap ∧ (k.setThr t e).future = k.future ∧
    (k.setThr t e).stack = k.stack ∧ (k.setThr t e).stopped = k.stopped ∧
    (k.setThr t e).log = k.log := by
  simp [setThr]

@[simp] theorem setState_frame (s : ThrState) :
    (k.setState t s).thrtab = Function.update k.thrtab t { k.thrtab t with state := s } ∧
    (k.setState t s).semtab = k.semtab ∧ (k.setState t s).montab = k.montab ∧
    (k.setState t s).quetab = k.quetab ∧ (k.setState t s).readylist = k.readylist ∧
    (k.setState t s).sleepq = k.sleepq ∧ (k.setState t s).thrcount = k.thrcount ∧
    (k.setState t s).thrcurrent = k.thrcurrent ∧ (k.setState t s).resdefer = k.resdefer ∧
    (k.setState t s).nextqid = k.nextqid ∧ (k.setState t s).heap = k.heap ∧
    (k.setState t s).future = k.future ∧ (k.setState t s).stack = k.stack ∧
    (k.setState t s).stopped = k.stopped ∧ (k.setState t s).log = k.log := by
  simp [setState]

@[simp] theorem setSem_frame (s : Nat) (e : Sement) :
    (k.setSem s e).thrtab = k.thrtab ∧ (k.setSem s e).semtab = Function.update k.semtab s e ∧
    (k.setSem s e).montab = k.montab ∧ (k.setSem s e).quetab = k.quetab ∧
    (k.setSem s e).readylist = k.readylist ∧ (k.setSem s e).sleepq = k.sleepq ∧
    (k.setSem s e).thrcount = k.thrcount ∧ (k.setSem s e).thrcurrent = k.thrcurrent ∧
    (k.setSem s e).resdefer = k.resdefer ∧ (k.setSem s e).nextqid = k.nextqid ∧
    (k.setSem s e).heap = k.heap ∧ (k.setSem s e).future = k.future ∧
    (k.setSem s e).stack = k.stack ∧ (k.setSem s e).stopped = k.stopped ∧
    (k.setSem s e).log = k.log := by
  simp [setSem]

@[simp] theorem setCount_frame (s : Nat) :
    (k.setCount s v).thrtab = k.thrtab ∧
    (k.setCount s v).semtab = Function.update k.semtab s { k.semtab s with count := v } ∧
    (k.setCount s v).montab = k.montab ∧ (k.setCount s v).quetab = k.quetab ∧
    (k.setCount s v).readylist = k.readylist ∧ (k.setCount s v).sleepq = k.sleepq ∧
    (k.setCount s v).thrcount = k.thrcount ∧ (k.setCount s v).thrcurrent = k.thrcurrent ∧
    (k.setCount s v).resdefer = k.resdefer ∧ (k.setCount s v).nextqid = k.nextqid ∧
    (k.setCount s v).heap = k.heap ∧ (k.setCount s v).future = k.future ∧
    (k.setCount s v).stack = k.stack ∧ (k.setCount s v).stopped = k.stopped ∧
    (k.setCount s v).log = k.log := by
  simp [setCount]

@[simp] theorem setMon_frame (m : Nat) (e : Monent) :
    (k.setMon m e).thrtab = k.thrtab ∧ (k.setMon m e).semtab = k.semtab ∧
    (k.setMon m e).montab = Function.update k.montab m e ∧ (k.setMon m e).quetab = k.quetab ∧
    (k.setMon m e).readylist = k.readylist ∧ (k.setMon m e).sleepq = k.sleepq ∧
    (k.setMon m e).thrcount = k.thrcount ∧ (k.setMon m e).thrcurrent = k.thrcurrent ∧
    (k.setMon m e).resdefer = k.resdefer ∧ (k.setMon m e).nextqid = k.nextqid ∧
    (k.setMon m e).heap = k.heap ∧ (k.setMon m e).future = k.future ∧
    (k.setMon m e).stack = k.stack ∧ (k.setMon m e).stopped = k.stopped ∧
    (k.setMon m e).log = k.log := by
  simp [setMon]

@[simp] theorem setFuture_frame (f : Nat) (e : Futent) :
    (k.setFuture f e).thrtab = k.thrtab ∧ (k.setFuture f e).semtab = k.semtab ∧
    (k.setFuture f e).montab = k.montab ∧ (k.setFuture f e).quetab = k.quetab ∧
    (k.setFuture f e).readylist = k.readylist ∧ (k.setFuture f e).sleepq = k.sleepq ∧
    (k.setFuture f e).thrcount = k.thrcount ∧ (k.setFuture f e).thrcurrent = k.thrcurrent ∧
    (k.setFuture f e).resdefer = k.resdefer ∧ (k.setFuture f e).nextqid = k.nextqid ∧
    (k.setFuture f e).heap = k.heap ∧ (k.setFuture f e).future = Function.update k.future f e ∧
    (k.setFuture f e).stack = k.stack ∧ (k.setFuture f e).stopped = k.stopped ∧
    (k.setFuture f e).log = k.log := by
  simp [setFuture]

@[simp] theorem setStack_frame (fs : List Frame) :
    (k.setStack t fs).thrtab = k.thrtab ∧ (k.setStack t fs).semtab = k.semtab ∧
    (k.setStack t fs).montab = k.montab ∧ (k.setStack t fs).quetab = k.quetab ∧
    (k.setStack t fs).readylist = k.readylist ∧ (k.setStack t fs).sleepq = k.sleepq ∧
    (k.setStack t fs).thrcount = k.thrcount ∧ (k.setStack t fs).thrcurrent = k.thrcurrent ∧
    (k.setStack t fs).resdefer = k.resdefer ∧ (k.setStack t fs).nextqid = k.nextqid ∧
    (k.setStack t fs).heap = k.heap ∧ (k.setStack t fs).future = k.future ∧
    (k.setStack t fs).stack = Function.update k.stack t fs ∧ (k.setStack t fs).stopped = k.stopped ∧
    (k.setStack t fs).log = k.log := by
  simp [setStack]

@[simp] theorem push_frame (f : Frame) :
    (k.push f).thrtab = k.thrtab ∧ (k.push f).semtab = k.semtab ∧ (k.push f).montab = k.montab ∧
    (k.push f).quetab = k.quetab ∧ (k.push f).readylist = k.readylist ∧
    (k.push f).sleepq = k.sleepq ∧ (k.push f).thrcount = k.thrcount ∧
    (k.push f).thrcurrent = k.thrcurrent ∧ (k.push f).resdefer = k.resdefer ∧
    (k.push f).nextqid = k.nextqid ∧ (k.push f).heap = k.heap ∧ (k.push f).future = k.future ∧
    (k.push f).stack = Function.update k.stack k.thrcurrent (f :: k.stack k.thrcurrent) ∧
    (k.push f).stopped = k.stopped ∧ (k.push f).log = k.log := by
  simp [push]

@[simp] theorem ret_frame :
    (k.ret v).thrtab = k.thrtab ∧ (k.ret v).semtab = k.semtab ∧ (k.ret v).montab = k.montab ∧
    (k.ret v).quetab = k.quetab ∧ (k.ret v).readylist = k.readylist ∧ (k.ret v).sleepq = k.sleepq ∧
    (k.ret v).thrcount = k.thrcount ∧ (k.ret v).thrcurrent = k.thrcurrent ∧
    (k.ret v).resdefer = k.resdefer ∧ (k.ret v).nextqid = k.nextqid ∧ (k.ret v).heap = k.heap ∧
    (k.ret v).future = k.future ∧
    (k.ret v).stack = Function.update k.stack k.thrcurrent (.ret v :: k.stack k.thrcurrent) ∧
    (k.ret v).stopped = k.stopped ∧ (k.ret v).log = k.log := by
  simp [ret]

@[simp] theorem deposit_frame (m : Int) :
    (k.deposit t m).thrtab =
      Function.update k.thrtab t { k.thrtab t with msg := m, hasmsg := true } ∧
    (k.deposit t m).semtab = k.semtab ∧ (k.deposit t m).montab = k.montab ∧
    (k.deposit t m).quetab = k.quetab ∧ (k.deposit t m).readylist = k.readylist ∧
    (k.deposit t m).sleepq = k.sleepq ∧ (k.deposit t m).thrcount = k.thrcount ∧
    (k.deposit t m).thrcurrent = k.thrcurrent ∧ (k.deposit t m).resdefer = k.resdefer ∧
    (k.deposit t m).nextqid = k.nextqid ∧ (k.deposit t m).heap = k.heap ∧
    (k.deposit t m).future = k.future ∧ (k.deposit t m).stack = k.stack ∧
    (k.deposit t m).stopped = k.stopped ∧ (k.deposit t m).log = .sent t m :: k.log := by
  simp [deposit]

theorem deposit_state (m u : Int) : ((k.deposit t m).thrtab u).state = (k.thrtab u).state := by
  by_cases this : u = t <;> simp [this]

@[simp] theorem takeMessage_frame :
    k.takeMessage.thrtab =
      Function.update k.thrtab k.thrcurrent { k.thrtab k.thrcurrent with hasmsg := false } ∧
    k.takeMessage.semtab = k.semtab ∧ k.takeMessage.montab = k.montab ∧
    k.takeMessage.quetab = k.quetab ∧ k.takeMessage.readylist = k.readylist ∧
    k.takeMessage.sleepq = k.sleepq ∧ k.takeMessage.thrcount = k.thrcount ∧
    k.takeMessage.thrcurrent = k.thrcurrent ∧ k.takeMessage.resdefer = k.resdefer ∧
    k.takeMessage.nextqid = k.nextqid ∧ k.takeMessage.heap = k.heap ∧
    k.takeMessage.future = k.future ∧ k.takeMessage.stack =
      Function.update k.stack k.thrcurrent (.ret (k.thrtab k.thrcurrent).msg :: k.stack k.thrcurrent) ∧
    k.takeMessage.stopped = k.stopped ∧
    k.takeMessage.log = .received k.thrcurrent (k.thrtab k.thrcurrent).msg :: k.log := by
  simp [takeMessage]

theorem takeMessage_state (u : Int) : (k.takeMessage.thrtab u).state = (k.thrtab u).state := by
  by_cases this : u = k.thrcurrent <;> simp [this]

@[simp] theorem isbadtid_eq_false :
    k.isbadtid t = false ↔ 0 ≤ t ∧ t < c.nthread ∧ (k.thrtab t).state ≠ .free := by
  simp only [isbadtid, Bool.or_eq_false_iff, decide_eq_false_iff_not]
  constructor
  · rintro ⟨⟨hi, lo⟩, live⟩
    exact ⟨by omega, by omega, live⟩
  · rintro ⟨lo, hi, live⟩
    exact ⟨⟨by omega, by omega⟩, live⟩

theorem semalloc_cases :
    ∃ i, k.semalloc = ({ k with nextsem := i }, none) ∨
      ∃ s, s < c.nsem ∧ (k.semtab s).state = .free ∧
        k.semalloc = (({ k with nextsem := i } : Kernel c Q).setSem s
          { k.semtab s with state := .used }, some s) := by
  unfold semalloc
  obtain ⟨⟨i, found⟩, scan⟩ : ∃ r : Nat × Option Nat,
      rotate c.nsem (fun s => (k.semtab s).state = .free) c.nsem k.nextsem = r := ⟨_, rfl⟩
  refine ⟨i, ?_⟩
  rw [scan]
  cases found with
  | none => exact .inl rfl
  | some s =>
      have pos : 0 < c.nsem := by
        by_contra zero
        rw [show c.nsem = 0 by omega] at scan
        simp [rotate] at scan
      obtain ⟨bound, free⟩ := rotate_some pos scan
      exact .inr ⟨s, bound, by simpa using free, rfl⟩

theorem thrnew_cases :
    ∃ i, k.thrnew = ({ k with nexttid := i }, none) ∨
      ∃ t, t < c.nthread ∧ (k.thrtab (t : Nat)).state = .free ∧
        k.thrnew = ({ k with nexttid := i }, some t) := by
  unfold thrnew
  obtain ⟨⟨i, found⟩, scan⟩ : ∃ r : Nat × Option Nat,
      rotate c.nthread (fun t => (k.thrtab t).state = .free) c.nthread k.nexttid = r := ⟨_, rfl⟩
  refine ⟨i, ?_⟩
  rw [scan]
  cases found with
  | none => exact .inl rfl
  | some t =>
      obtain ⟨bound, free⟩ := rotate_some c.nthread_pos scan
      exact .inr ⟨t, bound, by simpa using free, rfl⟩

theorem semcreate_frame (n : Int) :
    (k.semcreate n).1.stack = k.stack ∧ (k.semcreate n).1.thrcurrent = k.thrcurrent := by
  unfold semcreate
  split
  · simp
  · obtain ⟨i, eq | ⟨s, -, -, eq⟩⟩ := k.semalloc_cases <;> simp [eq]

variable [Queues Q]

@[simp] theorem enqueue_frame :
    (k.enqueue t q).thrtab = k.thrtab ∧ (k.enqueue t q).semtab = k.semtab ∧
    (k.enqueue t q).montab = k.montab ∧ (k.enqueue t q).readylist = k.readylist ∧
    (k.enqueue t q).sleepq = k.sleepq ∧ (k.enqueue t q).thrcount = k.thrcount ∧
    (k.enqueue t q).thrcurrent = k.thrcurrent ∧ (k.enqueue t q).resdefer = k.resdefer ∧
    (k.enqueue t q).nextqid = k.nextqid ∧ (k.enqueue t q).heap = k.heap ∧
    (k.enqueue t q).future = k.future ∧ (k.enqueue t q).stack = k.stack ∧
    (k.enqueue t q).stopped = k.stopped ∧ (k.enqueue t q).log = k.log := by
  unfold enqueue
  split <;> simp

@[simp] theorem getitem_frame :
    (k.getitem t).thrtab = k.thrtab ∧ (k.getitem t).semtab = k.semtab ∧
    (k.getitem t).montab = k.montab ∧ (k.getitem t).quetab = Queues.getitem k.quetab t ∧
    (k.getitem t).readylist = k.readylist ∧ (k.getitem t).sleepq = k.sleepq ∧
    (k.getitem t).thrcount = k.thrcount ∧ (k.getitem t).thrcurrent = k.thrcurrent ∧
    (k.getitem t).resdefer = k.resdefer ∧ (k.getitem t).nextqid = k.nextqid ∧
    (k.getitem t).heap = k.heap ∧ (k.getitem t).future = k.future ∧ (k.getitem t).stack = k.stack ∧
    (k.getitem t).stopped = k.stopped ∧ (k.getitem t).log = k.log := by
  simp [getitem]

@[simp] theorem dequeue_frame :
    (k.dequeue q).1.thrtab = k.thrtab ∧ (k.dequeue q).1.semtab = k.semtab ∧
    (k.dequeue q).1.montab = k.montab ∧ (k.dequeue q).1.readylist = k.readylist ∧
    (k.dequeue q).1.sleepq = k.sleepq ∧ (k.dequeue q).1.thrcount = k.thrcount ∧
    (k.dequeue q).1.thrcurrent = k.thrcurrent ∧ (k.dequeue q).1.resdefer = k.resdefer ∧
    (k.dequeue q).1.nextqid = k.nextqid ∧ (k.dequeue q).1.heap = k.heap ∧
    (k.dequeue q).1.future = k.future ∧ (k.dequeue q).1.stack = k.stack ∧
    (k.dequeue q).1.stopped = k.stopped ∧ (k.dequeue q).1.log = k.log := by
  unfold dequeue
  split
  · simp
  split
  · simp
  simp only
  split <;> simp

@[simp] theorem insert_frame :
    (k.insert t q v).thrtab = k.thrtab ∧ (k.insert t q v).semtab = k.semtab ∧
    (k.insert t q v).montab = k.montab ∧ (k.insert t q v).readylist = k.readylist ∧
    (k.insert t q v).sleepq = k.sleepq ∧ (k.insert t q v).thrcount = k.thrcount ∧
    (k.insert t q v).thrcurrent = k.thrcurrent ∧ (k.insert t q v).resdefer = k.resdefer ∧
    (k.insert t q v).nextqid = k.nextqid ∧ (k.insert t q v).heap = k.heap ∧
    (k.insert t q v).future = k.future ∧ (k.insert t q v).stack = k.stack ∧
    (k.insert t q v).log = k.log := by
  unfold insert
  split
  · simp
  split <;> simp

@[simp] theorem insertd_frame :
    (k.insertd t q v).1.thrtab = k.thrtab ∧ (k.insertd t q v).1.semtab = k.semtab ∧
    (k.insertd t q v).1.montab = k.montab ∧ (k.insertd t q v).1.readylist = k.readylist ∧
    (k.insertd t q v).1.sleepq = k.sleepq ∧ (k.insertd t q v).1.thrcount = k.thrcount ∧
    (k.insertd t q v).1.thrcurrent = k.thrcurrent ∧ (k.insertd t q v).1.resdefer = k.resdefer ∧
    (k.insertd t q v).1.nextqid = k.nextqid ∧ (k.insertd t q v).1.heap = k.heap ∧
    (k.insertd t q v).1.future = k.future ∧ (k.insertd t q v).1.stack = k.stack ∧
    (k.insertd t q v).1.log = k.log := by
  unfold insertd
  split
  · simp
  split <;> simp

@[simp] theorem unsleep_frame :
    (k.unsleep t).1.thrtab = k.thrtab ∧ (k.unsleep t).1.semtab = k.semtab ∧
    (k.unsleep t).1.montab = k.montab ∧ (k.unsleep t).1.readylist = k.readylist ∧
    (k.unsleep t).1.sleepq = k.sleepq ∧ (k.unsleep t).1.thrcount = k.thrcount ∧
    (k.unsleep t).1.thrcurrent = k.thrcurrent ∧ (k.unsleep t).1.resdefer = k.resdefer ∧
    (k.unsleep t).1.nextqid = k.nextqid ∧ (k.unsleep t).1.heap = k.heap ∧
    (k.unsleep t).1.future = k.future ∧ (k.unsleep t).1.stack = k.stack ∧
    (k.unsleep t).1.stopped = k.stopped ∧ (k.unsleep t).1.log = k.log := by
  unfold unsleep
  split
  · simp
  split
  · simp
  simp only
  split <;> simp

@[simp] theorem makeReady_frame :
    (k.makeReady t).thrtab = Function.update k.thrtab t { k.thrtab t with state := .ready } ∧
    (k.makeReady t).semtab = k.semtab ∧ (k.makeReady t).montab = k.montab ∧
    (k.makeReady t).readylist = k.readylist ∧ (k.makeReady t).sleepq = k.sleepq ∧
    (k.makeReady t).thrcount = k.thrcount ∧ (k.makeReady t).thrcurrent = k.thrcurrent ∧
    (k.makeReady t).resdefer = k.resdefer ∧ (k.makeReady t).nextqid = k.nextqid ∧
    (k.makeReady t).heap = k.heap ∧ (k.makeReady t).future = k.future ∧
    (k.makeReady t).stack = k.stack ∧ (k.makeReady t).log = .ready t :: k.log := by
  simp [makeReady]

@[simp] theorem switch_frame :
    k.switch.thrtab = Function.update k.thrtab (k.dequeue k.readylist).2
      { k.thrtab (k.dequeue k.readylist).2 with state := .curr } ∧
    k.switch.semtab = k.semtab ∧ k.switch.montab = k.montab ∧
    k.switch.quetab = (k.dequeue k.readylist).1.quetab ∧ k.switch.readylist = k.readylist ∧
    k.switch.sleepq = k.sleepq ∧ k.switch.thrcount = k.thrcount ∧
    k.switch.thrcurrent = (k.dequeue k.readylist).2 ∧ k.switch.resdefer = k.resdefer ∧
    k.switch.nextqid = k.nextqid ∧ k.switch.heap = k.heap ∧ k.switch.future = k.future ∧
    k.switch.stack = k.stack ∧ k.switch.stopped = k.stopped ∧
    k.switch.log = .chosen (k.dequeue k.readylist).2 :: k.log := by
  simp [switch, setState, setThr]

@[simp] theorem resched_frame :
    k.resched.semtab = k.semtab ∧ k.resched.montab = k.montab ∧ k.resched.readylist = k.readylist ∧
    k.resched.sleepq = k.sleepq ∧ k.resched.thrcount = k.thrcount ∧ k.resched.nextqid = k.nextqid ∧
    k.resched.heap = k.heap ∧ k.resched.future = k.future ∧ k.resched.stack = k.stack := by
  unfold resched
  split
  · simp
  simp only
  split
  · split <;> simp
  · simp

@[simp] theorem ready_frame (b : Bool) :
    (k.ready t b).semtab = k.semtab ∧ (k.ready t b).montab = k.montab ∧
    (k.ready t b).readylist = k.readylist ∧ (k.ready t b).sleepq = k.sleepq ∧
    (k.ready t b).thrcount = k.thrcount ∧ (k.ready t b).nextqid = k.nextqid ∧
    (k.ready t b).heap = k.heap ∧ (k.ready t b).future = k.future ∧
    (k.ready t b).stack = k.stack := by
  unfold ready
  split
  · simp
  · cases b <;> simp

theorem ready_false_frame :
    (k.ready t false).stack = k.stack ∧ (k.ready t false).thrcurrent = k.thrcurrent := by
  unfold ready
  split <;> simp

theorem signalOnce_false_frame (s : Nat) :
    (k.signalOnce s false).stack = k.stack ∧
    (k.signalOnce s false).thrcurrent = k.thrcurrent ∧
    ∀ u, ((k.signalOnce s false).semtab u).state = (k.semtab u).state := by
  have state : ∀ v u, (Function.update k.semtab s { k.semtab s with count := v } u).state =
      (k.semtab u).state := by
    intro v u
    by_cases this : u = s
    · subst this
      simp
    · simp [this]
  unfold signalOnce
  simp only
  split
  · simp [ready_false_frame, state]
  · simp [state]

theorem signalnLoop_frame (s n : Nat) :
    (signalnLoop s n k).stack = k.stack ∧ (signalnLoop s n k).thrcurrent = k.thrcurrent := by
  induction n generalizing k with
  | zero => simp [signalnLoop]
  | succ n ih => simp [signalnLoop, ih, signalOnce_false_frame]

theorem semfreeLoop_frame (n : Nat) :
    (semfreeLoop q n k).stack = k.stack ∧ (semfreeLoop q n k).thrcurrent = k.thrcurrent := by
  induction n generalizing k with
  | zero => simp [semfreeLoop]
  | succ n ih =>
      unfold semfreeLoop
      split
      · simp only [ih, ready_false_frame, dequeue_frame, and_self]
      · simp

theorem semfree_frame (s : Nat) :
    (k.semfree s).1.stack = k.stack ∧ (k.semfree s).1.thrcurrent = k.thrcurrent := by
  unfold semfree
  split
  · simp
  · simp [semfreeLoop_frame]

end Xinu.Kernel
