import Xinu.Proof.Gates
import Xinu.Proof.Kernel.Boot
import Xinu.Proof.Memory.Sizes
import Xinu.System.Mailbox

namespace Xinu.Kernel

variable {c : Config} {Q : Type} [Queues Q] {k k' : Kernel c Q} {call : Call}

structure Served (k : Kernel c Q) (call : Call) (k' : Kernel c Q) : Prop where
  runs : ∃ k₁, step (.call call) k = some k₁ ∧ k₁.thrcurrent = k.thrcurrent ∧
    k₁.stack k₁.thrcurrent ≠ [] ∧ step .cont k₁ = some k'
  current : k'.thrcurrent = k.thrcurrent
  out : k'.stack k'.thrcurrent = []
  running : k'.stopped = false

theorem served_of_ret {k₁ : Kernel c Q} {v : Int} (typed : call.typed = true) (out : k.stack k.thrcurrent = [])
    (runs : (k.emit (.call k.thrcurrent call)).runCall call = k₁.ret v) (stack : k₁.stack = k.stack)
    (current : k₁.thrcurrent = k.thrcurrent) (running : k₁.stopped = false) :
    ∃ k', Served k call k' ∧ k'.heap = k₁.heap ∧ k'.semtab = k₁.semtab ∧ k'.quetab = k₁.quetab := by
  have called : step (.call call) k = some (k₁.ret v) := by
    simp [step, typed, out, runs, running]
  have here : (k₁.ret v).stack (k₁.ret v).thrcurrent = [.ret v] := by
    simp [ret, push, setStack, stack, current, out]
  let k' := ((k₁.ret v).setStack k₁.thrcurrent []).emit (.ret k₁.thrcurrent v)
  have continued : step .cont (k₁.ret v) = some k' := by
    have alive : k'.stopped = false := running
    have runs : ((k₁.ret v).setStack (k₁.ret v).thrcurrent []).runFrame (.ret v) = k' :=
      if_pos (Function.update_self ..)
    simp only [step, here, runs, Option.filter_some, alive]
    rfl
  exact ⟨k', ⟨⟨k₁.ret v, called, current, by rw [here]; simp, continued⟩, current, Function.update_self .., running⟩,
    rfl, rfl, rfl⟩

omit [Queues Q] in
theorem semcreate_kept (k : Kernel c Q) (n : Int) : (k.semcreate n).1.heap = k.heap ∧
    (k.semcreate n).1.quetab = k.quetab ∧ (k.semcreate n).1.stopped = k.stopped ∧
    ∀ s, ((k.semcreate n).1.semtab s).queue = (k.semtab s).queue := by
  unfold semcreate
  split
  · exact ⟨rfl, rfl, rfl, fun _ => rfl⟩
  · obtain ⟨i, none | ⟨u, -, -, some⟩⟩ := k.semalloc_cases
    · rw [none]
      exact ⟨rfl, rfl, rfl, fun _ => rfl⟩
    · rw [some]
      refine ⟨rfl, rfl, rfl, fun s => ?_⟩
      by_cases this : s = u
      · simp [this]
      · simp [this]

omit [Queues Q] in
theorem semcreate_eq_none {n : Int} : (k.semcreate n).2 = none ↔
    n < 0 ∨ ∀ s < c.nsem, (k.semtab s).state ≠ .free := by
  by_cases negative : n < 0
  · simp [semcreate, negative]
  · cases made : (k.semcreate n).2 with
    | some s =>
        obtain ⟨-, bound, free, -⟩ := semcreate_effect made
        refine iff_of_false (by simp) ?_
        rintro (less | used)
        · exact negative less
        · exact used s bound free
    | none =>
        refine iff_of_true rfl (.inr fun s bound => ?_)
        rcases scan : rotate c.nsem (fun s => (k.semtab s).state = .free) c.nsem k.nextsem with ⟨i, _ | u⟩
        · exact of_decide_eq_false (rotate_full scan bound)
        · simp [semcreate, semalloc, negative, scan] at made

structure Made (k : Kernel c Q) (n : Int) (k' : Kernel c Q) : Prop where
  served : Served k (.semcreate n) k'
  heap : k'.heap = k.heap
  quetab : k'.quetab = k.quetab
  queue : ∀ s, (k'.semtab s).queue = (k.semtab s).queue
  failed : (k.semcreate n).2 = none → k'.semtab = k.semtab
  made : ∀ s, (k.semcreate n).2 = some s → s < c.nsem ∧ (k.semtab s).state = .free ∧
    (k'.semtab s).state = .used ∧ ∀ u, u ≠ s → k'.semtab u = k.semtab u

theorem exists_made (out : k.stack k.thrcurrent = []) (running : k.stopped = false) (n : Int) :
    ∃ k', Made k n k' := by
  let b := k.emit (.call k.thrcurrent (.semcreate n))
  have kept := semcreate_kept b n
  have frame := b.semcreate_frame n
  obtain ⟨k', served, heap, semtab, quetab⟩ :=
    @served_of_ret _ _ _ _ (.semcreate n) (b.semcreate n).1 _ rfl out rfl frame.1 frame.2 (kept.2.2.1.trans running)
  refine ⟨k', served, heap.trans kept.1, quetab.trans kept.2.1, fun s => ?_, fun failed => ?_, fun s made => ?_⟩
  · rw [semtab]
    exact kept.2.2.2 s
  · rw [semtab]
    exact (semcreate_none ((semcreate_emit _ n).trans failed)).semtab
  · obtain ⟨touches, bound, free, used, -⟩ := semcreate_effect ((semcreate_emit (.call k.thrcurrent (.semcreate n)) n).trans made)
    rw [semtab]
    exact ⟨bound, free, used, fun u other => touches.semtab u other⟩

theorem exists_freed (out : k.stack k.thrcurrent = []) (running : k.stopped = false) {s : Nat}
    (idle : k.nonempty (k.semtab s).queue = false) : ∃ k', Served k (.semfree s) k' ∧ k'.heap = k.heap := by
  let b := k.emit (.call k.thrcurrent (.semfree s))
  have loop : semfreeLoop (b.semtab s).queue (c.nthread + 1) b = b := by
    have idle : b.nonempty (b.semtab s).queue = false := idle
    simp [semfreeLoop, idle]
  have frame := b.semfree_frame s
  have kept : (b.semfree s).1.heap = k.heap ∧ (b.semfree s).1.stopped = false := by
    unfold semfree
    split
    · exact ⟨rfl, running⟩
    · rw [loop]
      exact ⟨rfl, running⟩
  obtain ⟨k', served, heap, -, -⟩ :=
    @served_of_ret _ _ _ _ (.semfree s) (b.semfree s).1 _ rfl out rfl frame.1 frame.2 kept.2
  exact ⟨k', served, heap.trans kept.1⟩

end Xinu.Kernel

namespace Xinu.Mail
open Lib Heap

variable {c : Config} {n : Nat} {Q : Type} [Queues Q] {m m' : Mail c n Q} {free : List (Nat × Nat)}
  {count : UInt32} {retval : Int} {box : Nat}

inductive Finishes : Mail c n Q → Int → Mail c n Q → Prop
  | known {m : Mail c n Q} {retval : Int} (out : m.kernel.stack m.current = [])
      (here : m.frames m.current = some (.tabDone retval)) : Finishes m retval m
  | go {m m₁ m' : Mail c n Q} {f : Mframe} {retval : Int} (out : m.kernel.stack m.current = [])
      (here : m.frames m.current = some f) (inside : ∀ v, f ≠ .tabDone v) (action : m.step .go = some m₁)
      (rest : Finishes m₁ retval m') : Finishes m retval m'
  | cont {m m₁ m' : Mail c n Q} {retval : Int} (within : m.kernel.stack m.current ≠ [])
      (action : m.step (.kernel .cont) = some m₁) (rest : Finishes m₁ retval m') : Finishes m retval m'

theorem Finishes.unique {retval' : Int} {m'' : Mail c n Q} (finishes : Finishes m retval m')
    (finishes' : Finishes m retval' m'') : retval = retval' ∧ m' = m'' := by
  induction finishes with
  | known out here =>
      cases finishes' with
      | known out' here' =>
          rw [here] at here'
          cases here'
          exact ⟨rfl, rfl⟩
      | go out' here' inside' =>
          rw [here] at here'
          cases here'
          exact absurd rfl (inside' _)
      | cont within' => exact absurd out within'
  | go out here inside action rest ih =>
      cases finishes' with
      | known out' here' =>
          rw [here] at here'
          cases here'
          exact absurd rfl (inside _)
      | go out' here' inside' action' rest' =>
          rw [action] at action'
          cases action'
          exact ih rest'
      | cont within' => exact absurd out within'
  | cont within action rest ih =>
      cases finishes' with
      | known out' => exact absurd out' within
      | go out' => exact absurd out' within
      | cont within' action' rest' =>
          rw [action] at action'
          cases action'
          exact ih rest'

theorem step_go_eq {f : Mframe} (out : m.kernel.stack m.current = []) (here : m.frames m.current = some f) :
    m.step .go = m.goOn f := by
  simp [step, out, here]

theorem Finishes.served {m₁ : Mail c n Q} {f : Mframe} {f' : Option Mframe} {call : Call} {k : Kernel c Q}
    (out : m.kernel.stack m.current = []) (here : m.frames m.current = some f) (inside : ∀ v, f ≠ .tabDone v)
    (goes : m.goOn f = m₁.call call f') (same : m₁.kernel = m.kernel) (served : Kernel.Served m.kernel call k)
    (rest : Finishes { m₁.setFrame f' with kernel := k } retval m') : Finishes m retval m' := by
  obtain ⟨k₁, called, current, within, continued⟩ := served.runs
  have calls : m₁.call call f' = some { m₁.setFrame f' with kernel := k₁ } := by
    rw [Mail.call, same, called]
    rfl
  refine .go out here inside ((step_go_eq out here).trans (goes.trans calls)) (.cont within ?_ rest)
  simp [step, permits, continued]

structure Able (m : Mail c n Q) : Prop where
  out : m.kernel.stack m.current = []
  running : m.kernel.stopped = false
  idle : ∀ s < c.nsem, (m.kernel.semtab s).state = .free → m.kernel.nonempty (m.kernel.semtab s).queue = false

def TwoSems (k : Kernel c Q) : Prop :=
  ∃ s < c.nsem, ∃ u < c.nsem, s ≠ u ∧ (k.semtab s).state = .free ∧ (k.semtab u).state = .free

theorem both_made {k k' : Kernel c Q} {v : Int} (made : Kernel.Made k v k') :
    (k.semcreate v).2 ≠ none ∧ (k'.semcreate 0).2 ≠ none ↔ 0 ≤ v ∧ TwoSems k := by
  constructor
  · rintro ⟨first, second⟩
    obtain ⟨s, eq⟩ := Option.ne_none_iff_exists'.mp first
    obtain ⟨bound, free, used, others⟩ := made.made s eq
    rw [ne_eq, Kernel.semcreate_eq_none] at first second
    push Not at first second
    obtain ⟨u, bound', free'⟩ := second.2
    have other : u ≠ s := by
      rintro rfl
      rw [used] at free'
      cases free'
    rw [others u other] at free'
    exact ⟨first.1, s, bound, u, bound', other.symm, free, free'⟩
  · rintro ⟨nonneg, s, bound, u, bound', other, free, free'⟩
    have first : (k.semcreate v).2 ≠ none := by
      rw [ne_eq, Kernel.semcreate_eq_none]
      rintro (negative | used)
      · omega
      · exact used s bound free
    refine ⟨first, ?_⟩
    obtain ⟨w, eq⟩ := Option.ne_none_iff_exists'.mp first
    obtain ⟨-, -, -, others⟩ := made.made w eq
    rw [ne_eq, Kernel.semcreate_eq_none]
    rintro (negative | used)
    · cases negative
    · by_cases this : s = w
      · exact used u bound' (by rwa [others u (this ▸ other.symm)])
      · exact used s bound (by rwa [others s this])

theorem int32_nonneg (count : UInt32) : 0 ≤ (Int32.ofUInt32 count).toInt ↔ count.toNat < 2 ^ 31 := by
  have range := count.toNat_lt
  rw [show (Int32.ofUInt32 count).toInt = (count.toBitVec).toInt from rfl, BitVec.toInt_eq_toNat_cond]
  rw [show count.toBitVec.toNat = count.toNat from rfl]
  split <;> omega

structure AtCheck (m : Mail c n Q) (box : Nat) (count : UInt32) (m' : Mail c n Q) : Prop where
  leads : ∀ retval m'', Finishes m' retval m'' → Finishes m retval m''
  out : m'.kernel.stack m'.current = []
  running : m'.kernel.stopped = false
  here : m'.frames m'.current = some (.allocReceiver box)
  heap : m'.kernel.heap = m.kernel.heap
  msgs : (m'.mboxtab box).msgs = (m.mboxtab box).msgs
  max : (m'.mboxtab box).max = count.toNat
  both : (m'.mboxtab box).sender ≠ none ∧ (m'.mboxtab box).receiver ≠ none ↔ count.toNat < 2 ^ 31 ∧ TwoSems m.kernel
  idle : ∀ s, (m'.mboxtab box).sender = some s ∨ (m'.mboxtab box).receiver = some s →
    m'.kernel.nonempty (m'.kernel.semtab s).queue = false

theorem Able.atCheck (able : m.Able) (here : m.frames m.current = some (.allocMemory box count)) :
    ∃ m', AtCheck m box count m' := by
  obtain ⟨k, made⟩ := Kernel.exists_made able.out able.running (Int32.ofUInt32 count).toInt
  obtain ⟨k', made'⟩ := Kernel.exists_made made.served.out made.served.running 0
  let b : Mbox := { m.mboxtab box with
    count := 0, start := 0, max := count.toNat, sender := (m.kernel.semcreate (Int32.ofUInt32 count).toInt).2 }
  let m₁ : Mail c n Q := { (m.setMbox box b).setFrame (some (.allocSender box)) with kernel := k }
  let m₂ : Mail c n Q :=
    { (m₁.setMbox box { m₁.mboxtab box with receiver := (k.semcreate 0).2 }).setFrame
        (some (.allocReceiver box)) with kernel := k' }
  have entry : m₂.mboxtab box = { b with receiver := (k.semcreate 0).2 } := by
    simp [m₂, m₁, setMbox, setFrame]
  have idle : ∀ s, (m.kernel.nonempty (m.kernel.semtab s).queue = false) →
      k'.nonempty (k'.semtab s).queue = false := by
    intro s free
    rwa [Kernel.nonempty, made'.quetab, made.quetab, made'.queue, made.queue]
  have current : k'.thrcurrent = k.thrcurrent := made'.served.current
  refine ⟨m₂, ?_, made'.served.out, made'.served.running, ?_, made'.heap.trans made.heap, ?_, ?_, ?_, ?_⟩
  · intro retval m'' rest
    have second : Finishes m₁ retval m'' := by
      refine .served made.served.out (f := .allocSender box) ?_ (by simp) rfl rfl made'.served rest
      show Function.update m.frames m.current _ k.thrcurrent = _
      rw [made.served.current]
      exact Function.update_self ..
    exact .served able.out here (by simp) rfl rfl made.served second
  · show Function.update _ k.thrcurrent _ k'.thrcurrent = _
    rw [current]
    exact Function.update_self ..
  · rw [entry]
  · rw [entry]
  · rw [entry, ← int32_nonneg]
    exact both_made made
  · intro s either
    apply idle
    rw [entry] at either
    rcases either with sender | receiver
    · obtain ⟨bound, free, -⟩ := made.made s sender
      exact able.idle s bound free
    · obtain ⟨bound, free, -⟩ := made'.made s receiver
      have old : (m.kernel.semtab s).state = .free := by
        cases first : (m.kernel.semcreate (Int32.ofUInt32 count).toInt).2 with
        | none => rwa [made.failed first] at free
        | some u =>
            obtain ⟨-, -, used, others⟩ := made.made u first
            have other : s ≠ u := by
              rintro rfl
              rw [used] at free
              cases free
            rwa [others s other] at free
      exact able.idle s bound old

theorem AtCheck.succeeds (check : AtCheck m box count m') (small : count.toNat < 2 ^ 31) (sems : TwoSems m.kernel) :
    ∃ m'', Finishes m box m'' ∧ m''.kernel.heap = m.kernel.heap ∧ (m''.mboxtab box).msgs = (m.mboxtab box).msgs ∧
      (m''.mboxtab box).max = count.toNat ∧ (m''.mboxtab box).state = .alloc := by
  obtain ⟨sender, receiver⟩ := check.both.mpr ⟨small, sems⟩
  let m'' := ((m'.setMbox box { m'.mboxtab box with state := .alloc }).emit (.allocated box)).setFrame (some (.tabDone box))
  have entry : m''.mboxtab box = { m'.mboxtab box with state := .alloc } := Function.update_self ..
  have goes : m'.goOn (.allocReceiver box) = some m'' := if_neg (not_or.mpr ⟨sender, receiver⟩)
  refine ⟨m'', ?_, check.heap, ?_, ?_, ?_⟩
  · apply check.leads
    exact .go check.out check.here (by simp) ((step_go_eq check.out check.here).trans goes)
      (.known check.out (Function.update_self ..))
  · rw [entry]
    exact check.msgs
  · rw [entry]
    exact check.max
  · rw [entry]

theorem callSem_of_none {sem : Option Nat} {op : Nat → Call} {f : Option Mframe} (none : sem = none) :
    m.callSem sem op f = some (m.setFrame f) := by
  rw [none]
  rfl

theorem callSem_of_some {sem : Option Nat} {op : Nat → Call} {f : Option Mframe} {s : Nat} (some : sem = some s) :
    m.callSem sem op f = m.call (op s) f := by
  rw [some]
  rfl

theorem finishes_undo (out : m.kernel.stack m.current = []) (running : m.kernel.stopped = false)
    (here : m.frames m.current = some (.undoSender box))
    (missing : (m.mboxtab box).sender = none ∨ (m.mboxtab box).receiver = none)
    (idle : ∀ s, (m.mboxtab box).sender = some s ∨ (m.mboxtab box).receiver = some s →
      m.kernel.nonempty (m.kernel.semtab s).queue = false) :
    ∃ m', Finishes m SYSERR m' ∧ m'.kernel.heap = m.kernel.heap := by
  let m₁ := m.setFrame (some (.undoReceiver box))
  have here₁ : m₁.frames m₁.current = some (.undoReceiver box) := Function.update_self ..
  have skip : (m.mboxtab box).sender = none → ∀ retval m', Finishes m₁ retval m' → Finishes m retval m' := by
    intro sender retval m' rest
    exact .go out here (by simp) ((step_go_eq out here).trans (callSem_of_none sender)) rest
  have frees : ∀ s k', (m.mboxtab box).sender = some s → Kernel.Served m.kernel (.semfree s) k' →
      ∀ retval m', Finishes { m₁ with kernel := k' } retval m' → Finishes m retval m' := by
    intro s k' sender served retval m' rest
    exact .served out here (by simp) (callSem_of_some sender) rfl served rest
  cases sender : (m.mboxtab box).sender with
  | none =>
      cases receiver : (m.mboxtab box).receiver with
      | none =>
          let m₂ := m₁.setFrame (some (.tabDone SYSERR))
          have action : m₁.step .go = some m₂ := (step_go_eq (m := m₁) out here₁).trans (callSem_of_none receiver)
          have rest : Finishes m₁ SYSERR m₂ := .go out here₁ (by simp) action (.known out (Function.update_self ..))
          exact ⟨m₂, skip sender _ _ rest, rfl⟩
      | some r =>
          obtain ⟨k, served, heap⟩ := Kernel.exists_freed out running (idle r (.inr receiver))
          let m₂ : Mail c n Q := { m₁.setFrame (some (.tabDone SYSERR)) with kernel := k }
          have ends : Finishes m₂ SYSERR m₂ := by
            refine .known served.out ?_
            show Function.update m₁.frames m₁.current _ k.thrcurrent = _
            rw [served.current]
            exact Function.update_self ..
          have rest : Finishes m₁ SYSERR m₂ := .served out here₁ (by simp) (callSem_of_some receiver) rfl served ends
          exact ⟨m₂, skip sender _ _ rest, heap⟩
  | some s =>
      have receiver : (m.mboxtab box).receiver = none := by
        rcases missing with none | none
        · rw [sender] at none
          cases none
        · exact none
      obtain ⟨k, served, heap⟩ := Kernel.exists_freed out running (idle s (.inl sender))
      let m₂ : Mail c n Q := { m₁ with kernel := k }
      let m₃ := m₂.setFrame (some (.tabDone SYSERR))
      have here₂ : m₂.frames m₂.current = some (.undoReceiver box) := by
        show Function.update m.frames m.current _ k.thrcurrent = _
        rw [served.current]
        exact Function.update_self ..
      have action : m₂.step .go = some m₃ := (step_go_eq (m := m₂) served.out here₂).trans (callSem_of_none receiver)
      have rest : Finishes m₂ SYSERR m₃ :=
        .go served.out here₂ (by simp) action (.known served.out (Function.update_self ..))
      exact ⟨m₃, frees s k sender served _ _ rest, heap⟩

theorem AtCheck.fails {heap : Heap} {r : Int} (check : AtCheck m box count m')
    (short : ¬ (count.toNat < 2 ^ 31 ∧ TwoSems m.kernel))
    (freed : m.kernel.heap.memfree (m.mboxtab box).msgs (msgsSize count.toNat) = some (heap, r)) :
    ∃ m'', Finishes m SYSERR m'' ∧ m''.kernel.heap = heap := by
  have missing : (m'.mboxtab box).sender = none ∨ (m'.mboxtab box).receiver = none := by
    have := mt check.both.mp short
    tauto
  let m₁ : Mail c n Q := { m' with kernel := { m'.kernel with heap } }.setFrame (some (.undoSender box))
  obtain ⟨m'', finishes, same⟩ := finishes_undo (m := m₁) check.out check.running
    (Function.update_self ..) missing check.idle
  refine ⟨m'', check.leads _ _ (.go check.out check.here (by simp) ((step_go_eq check.out check.here).trans ?_) finishes), same⟩
  rw [goOn, allocCheck, if_pos missing, freeMsgs, check.msgs, check.heap, check.max, freed]

/-- `mailboxAlloc` fails and leaves the heap as it was, or the buffer of the mailbox was free and has room for
all of its messages. -/
def AllocSound (m : Mail c n Q) (free : List (Nat × Nat)) (count : UInt32) : Prop :=
  ∃ retval m', Finishes (m.setFrame (some (.alloc count))) retval m' ∧
    (retval = SYSERR ∧ Restored m.kernel.heap m'.kernel.heap free ∨
      ∃ box : Nat, retval = box ∧ (m'.mboxtab box).state = .alloc ∧ (m'.mboxtab box).max = count.toNat ∧
        ∃ size ≥ 4 * (m'.mboxtab box).max, Grants m'.kernel.heap free (m'.mboxtab box).msgs size)

section
variable {i : Nat} {heap : Heap}

abbrev entered (m : Mail c n Q) (count : UInt32) : Mail c n Q := m.setFrame (some (.alloc count))

theorem Able.step_entered (able : m.Able) : (m.entered count).step .go = (m.entered count).allocScan count :=
  step_go_eq (m := m.entered count) able.out (Function.update_self ..)

theorem Able.scans (able : m.Able) (scanned : (m.entered count).allocScan count = some m')
    {m'' : Mail c n Q} (rest : Finishes m' retval m'') : Finishes (m.entered count) retval m'' :=
  .go able.out (Function.update_self ..) (by simp) (able.step_entered.trans scanned) rest

theorem Able.gives_up (able : m.Able) (list : FreeList m.kernel.heap m.kernel.heap.maxaddr free)
    (scanned : (m.entered count).allocScan count = some (m'.setFrame (some (.tabDone SYSERR))))
    (same : m'.kernel = m.kernel) : AllocSound m free count := by
  let m'' := m'.setFrame (some (.tabDone SYSERR))
  have out : m''.kernel.stack m''.current = [] := by
    show m'.kernel.stack m'.kernel.thrcurrent = []
    rw [same]
    exact able.out
  refine ⟨SYSERR, m'', ?_, .inl ⟨rfl, ?_⟩⟩
  · exact able.scans scanned (.known out (Function.update_self ..))
  · show Restored m.kernel.heap m'.kernel.heap free
    rw [same]
    exact .refl list

theorem Able.allocates {p : Nat} (able : m.Able)
    (scan : rotate n (fun j => (m.mboxtab j).state = .free) n m.nextmbx = (i, some box))
    (got : m.kernel.heap.memget (msgsSize count.toNat) = some (heap, some p)) :
    ∃ m₁ m₂ : Mail c n Q, m₁.kernel = { m.kernel with heap } ∧ (m₁.mboxtab box).msgs = p ∧ AtCheck m₁ box count m₂ ∧
      ∀ retval m', Finishes m₁ retval m' → Finishes (m.entered count) retval m' := by
  let m' : Mail c n Q := { m.entered count with nextmbx := i, kernel := { m.kernel with heap } }
  let m₁ := (m'.setMbox box { m.mboxtab box with msgs := p }).setFrame (some (.allocMemory box count))
  have scanned : (m.entered count).allocScan count = some m₁ := by
    have scan : rotate n (fun j => ((m.entered count).mboxtab j).state = .free) n (m.entered count).nextmbx = (i, some box) :=
      scan
    have got : (m.entered count).kernel.heap.memget (msgsSize count.toNat) = some (heap, some p) := got
    simp only [allocScan, scan, got, m₁, m']
    rfl
  have able₁ : m₁.Able := ⟨able.out, able.running, able.idle⟩
  obtain ⟨m₂, check⟩ := able₁.atCheck (show m₁.frames m₁.current = some (.allocMemory box count) from Function.update_self ..)
  refine ⟨m₁, m₂, rfl, ?_, check, fun retval m'' rest => able.scans scanned rest⟩
  simp [m₁, setMbox, setFrame]

theorem Able.sound_iff {p : Nat} (able : m.Able)
    (scan : rotate n (fun j => (m.mboxtab j).state = .free) n m.nextmbx = (i, some box))
    (got : m.kernel.heap.memget (msgsSize count.toNat) = some (heap, some p))
    {heap' : Heap} {r : Int} (freed : heap.memfree p (msgsSize count.toNat) = some (heap', r)) :
    AllocSound m free count ↔
      (count.toNat < 2 ^ 31 ∧ TwoSems m.kernel) ∧ (∃ size ≥ 4 * count.toNat, Grants heap free p size) ∨
        ¬ (count.toNat < 2 ^ 31 ∧ TwoSems m.kernel) ∧ Restored m.kernel.heap heap' free := by
  obtain ⟨m₁, m₂, kernel, msgs, check, leads⟩ := able.allocates scan got
  have sems : TwoSems m₁.kernel ↔ TwoSems m.kernel := by
    rw [kernel]
    exact Iff.rfl
  have memory : m₁.kernel.heap = heap := by rw [kernel]
  by_cases both : count.toNat < 2 ^ 31 ∧ TwoSems m.kernel
  · obtain ⟨m', finishes, same, at_, max, state⟩ := check.succeeds both.1 (sems.mpr both.2)
    have ends := leads _ _ finishes
    constructor
    · rintro ⟨retval, m'', finishes', sound⟩
      obtain ⟨rfl, rfl⟩ := ends.unique finishes'
      rcases sound with ⟨error, -⟩ | ⟨box', eq, -, -, size, enough, grants⟩
      · exact absurd error (by rw [SYSERR]; omega)
      · obtain rfl : box = box' := by exact_mod_cast eq
        rw [max] at enough
        rw [at_, msgs, same, memory] at grants
        exact .inl ⟨both, size, enough, grants⟩
    · rintro (⟨-, size, enough, grants⟩ | ⟨short, -⟩)
      swap
      · exact absurd both short
      refine ⟨_, m', ends, .inr ⟨box, rfl, state, max, size, ?_, ?_⟩⟩
      · rwa [max]
      · rwa [at_, msgs, same, memory]
  · have short : ¬ (count.toNat < 2 ^ 31 ∧ TwoSems m₁.kernel) := by rwa [sems]
    obtain ⟨m', finishes, same⟩ := check.fails short (by rw [msgs, memory]; exact freed)
    have ends := leads _ _ finishes
    constructor
    · rintro ⟨retval, m'', finishes', sound⟩
      obtain ⟨rfl, rfl⟩ := ends.unique finishes'
      rcases sound with ⟨-, restored⟩ | ⟨box', eq, -⟩
      · exact .inr ⟨both, by rwa [same] at restored⟩
      · exact absurd eq (by rw [SYSERR]; omega)
    · rintro (⟨both', -⟩ | ⟨-, restored⟩)
      · exact absurd both' both
      · exact ⟨_, m', ends, .inl ⟨rfl, by rwa [same]⟩⟩

end

theorem Able.sound_full {i : Nat} (able : m.Able) (list : FreeList m.kernel.heap m.kernel.heap.maxaddr free)
    (scan : rotate n (fun j => (m.mboxtab j).state = .free) n m.nextmbx = (i, none)) :
    AllocSound m free count ∧ ∀ j < n, (m.mboxtab j).state ≠ .free := by
  constructor
  · let m' : Mail c n Q := { m.entered count with nextmbx := i }
    have scan : rotate n (fun j => ((m.entered count).mboxtab j).state = .free) n (m.entered count).nextmbx = (i, none) :=
      scan
    refine able.gives_up list (?_ : _ = some (m'.setFrame (some (.tabDone SYSERR)))) rfl
    simp only [allocScan, scan]
    rfl
  · intro j bound
    exact of_decide_eq_false (rotate_full scan bound)

theorem Able.sound_none {i : Nat} {heap : Heap} (able : m.Able)
    (list : FreeList m.kernel.heap m.kernel.heap.maxaddr free)
    (scan : rotate n (fun j => (m.mboxtab j).state = .free) n m.nextmbx = (i, some box))
    (got : m.kernel.heap.memget (msgsSize count.toNat) = some (heap, none)) : AllocSound m free count := by
  let m' : Mail c n Q := { m.entered count with nextmbx := i }
  have scan : rotate n (fun j => ((m.entered count).mboxtab j).state = .free) n (m.entered count).nextmbx = (i, some box) :=
    scan
  have got : (m.entered count).kernel.heap.memget (msgsSize count.toNat) = some (heap, none) := got
  let m'' := m'.setMbox box { m'.mboxtab box with msgs := WORD - 1 }
  refine able.gives_up list (?_ : _ = some (m''.setFrame (some (.tabDone SYSERR)))) rfl
  simp only [allocScan, scan, got]
  rfl

theorem Able.sound_took {i : Nat} {p : Nat} {heap : Heap} {free' : List (Nat × Nat)} (able : m.Able)
    (list : FreeList m.kernel.heap m.kernel.heap.maxaddr free) (aligned : Aligned free)
    (word : m.kernel.heap.memlist.length < WORD)
    (scan : rotate n (fun j => (m.mboxtab j).state = .free) n m.nextmbx = (i, some box))
    (nonzero : msgsSize count.toNat ≠ 0) (small : msgsSize count.toNat ≤ 0xFFFFFFF8)
    (got : m.kernel.heap.memget (msgsSize count.toNat) = some (heap, some p))
    (took : Took m.kernel.heap heap m.kernel.heap.maxaddr p (roundmb (msgsSize count.toNat)) free free') :
    AllocSound m free count ↔ count.toNat ≤ 0x3FFFFFFE ∨ ¬ (count.toNat < 2 ^ 31 ∧ TwoSems m.kernel) := by
  obtain ⟨heap', freed, restored⟩ :=
    (alloc_free_restores list word).1 .heap _ heap p (Nat.pos_of_ne_zero nonzero) small got
  have range : count.toNat < 2 ^ 32 := count.toNat_lt
  have granted : (∃ size ≥ 4 * count.toNat, Grants heap free p size) ↔ count.toNat ≤ 0x3FFFFFFE := by
    constructor
    · rintro ⟨size, enough, grants⟩
      have := grants.size_le list aligned
      omega
    · intro few
      have exactly : msgsSize count.toNat = 4 * count.toNat := Nat.mod_eq_of_lt (by rw [WORD]; omega)
      refine ⟨_, ?_, took.grants⟩
      rw [← exactly]
      exact (roundmb_spec small).1
  rw [able.sound_iff scan got freed, granted]
  constructor
  · rintro (⟨-, few⟩ | ⟨short, -⟩)
    · exact .inl few
    · exact .inr short
  · intro either
    by_cases both : count.toNat < 2 ^ 31 ∧ TwoSems m.kernel
    · exact .inl ⟨both, either.resolve_right fun short => short both⟩
    · exact .inr ⟨both, restored⟩

theorem Able.not_sound_wraps {i : Nat} {b : Nat × Nat} (able : m.Able)
    (list : FreeList m.kernel.heap m.kernel.heap.maxaddr (b :: free)) (aligned : Aligned (b :: free))
    (scan : rotate n (fun j => (m.mboxtab j).state = .free) n m.nextmbx = (i, some box))
    (large : 0xFFFFFFF8 < msgsSize count.toNat) : ¬ AllocSound m (b :: free) count := by
  have nonzero : msgsSize count.toNat ≠ 0 := by omega
  have wraps : roundmb (msgsSize count.toNat) = 0 := roundmb_large large (Nat.mod_lt _ (by decide))
  have bounds := list.whole.ordered.bounds b (.head _)
  have top := list.whole.top
  obtain ⟨heap, got, first, low, high⟩ := memget_wraps list nonzero wraps
  obtain ⟨heap', freed, empty⟩ := memfree_wraps (h := heap) first (list.whole.nonnull b (.head _)) (by omega) (by omega)
    (by omega) nonzero wraps
  rw [able.sound_iff scan got freed]
  rintro (⟨-, size, enough, grants⟩ | ⟨-, restored⟩)
  · have := grants.size_le list aligned
    have : msgsSize count.toNat ≤ 4 * count.toNat := Nat.mod_le _ _
    omega
  · have length : (heap'.block b.1).length = b.2 := restored.list.whole.listed.lengths b (.head _)
    rw [empty] at length
    simp only at length
    omega

theorem alloc_sound_iff (able : m.Able) (list : FreeList m.kernel.heap m.kernel.heap.maxaddr free)
    (aligned : Aligned free) (word : m.kernel.heap.memlist.length < WORD) :
    AllocSound m free count ↔ count.toNat ≤ 0x3FFFFFFE ∨ (∀ j < n, (m.mboxtab j).state ≠ .free) ∨
      msgsSize count.toNat = 0 ∨ (∀ b ∈ free, b.2 < roundmb (msgsSize count.toNat)) ∨
      msgsSize count.toNat ≤ 0xFFFFFFF8 ∧ ¬ (count.toNat < 2 ^ 31 ∧ TwoSems m.kernel) := by
  rcases scan : rotate n (fun j => (m.mboxtab j).state = .free) n m.nextmbx with ⟨i, _ | box⟩
  · have full : AllocSound m free count ∧ _ := able.sound_full list scan
    exact iff_of_true full.1 (.inr (.inl full.2))
  · have room : 0 < n := by
      by_contra none
      obtain rfl : n = 0 := by omega
      cases scan
    obtain ⟨bound, found⟩ := rotate_some room scan
    have found : (m.mboxtab box).state = .free := of_decide_eq_true found
    have free_box : ¬ ∀ j < n, (m.mboxtab j).state ≠ .free := fun used => used box bound found
    by_cases zero : msgsSize count.toNat = 0
    · have got : m.kernel.heap.memget (msgsSize count.toNat) = some (m.kernel.heap, none) := by rw [zero, memget, if_pos rfl]
      exact iff_of_true (able.sound_none list scan got) (.inr (.inr (.inl zero)))
    by_cases small : msgsSize count.toNat ≤ 0xFFFFFFF8
    · rcases memget_took list zero small with ⟨short, none⟩ | ⟨p, heap, free', got, took⟩
      · exact iff_of_true (able.sound_none list scan none) (.inr (.inr (.inr (.inl short))))
      · have long : ¬ ∀ b ∈ free, b.2 < roundmb (msgsSize count.toNat) := by
          intro short
          obtain ⟨b, member, start, fin⟩ := took.inside
          have := short b member
          omega
        rw [able.sound_took list aligned word scan zero small got took]
        tauto
    · have many : ¬ count.toNat ≤ 0x3FFFFFFE := by
        intro few
        have : msgsSize count.toNat ≤ 4 * count.toNat := Nat.mod_le _ _
        omega
      cases free with
      | nil =>
          exact iff_of_true (able.sound_none list scan (memget_empty list _))
            (.inr (.inr (.inr (.inl (List.forall_mem_nil _)))))
      | cons b rest =>
          have large : 0xFFFFFFF8 < msgsSize count.toNat := by omega
          refine iff_of_false (able.not_sound_wraps list aligned scan large) ?_
          have wraps : roundmb (msgsSize count.toNat) = 0 := roundmb_large large (Nat.mod_lt _ (by decide))
          rintro (few | full | zero' | short | ⟨small', -⟩)
          · exact many few
          · exact free_box full
          · exact zero zero'
          · have := short b (.head _)
            omega
          · exact small small'

/-- The requests that are granted what they ask for, or nothing. -/
theorem sizes_sound (able : m.Able) (list : FreeList m.kernel.heap m.kernel.heap.maxaddr free) (aligned : Aligned free)
    (word : m.kernel.heap.memlist.length < WORD) :
    (∀ nbytes, 0 < nbytes → nbytes < WORD →
        (MemgetSound m.kernel.heap free nbytes ↔ nbytes ≤ 0xFFFFFFF8 ∨ free = []) ∧
        (StkgetSound m.kernel.heap free nbytes ↔ nbytes ≤ 0xFFFFFFF8 ∨ free = [])) ∧
      ∀ count, AllocSound m free count ↔ count.toNat ≤ 0x3FFFFFFE ∨ (∀ j < n, (m.mboxtab j).state ≠ .free) ∨
        msgsSize count.toNat = 0 ∨ (∀ b ∈ free, b.2 < roundmb (msgsSize count.toNat)) ∨
        msgsSize count.toNat ≤ 0xFFFFFFF8 ∧ ¬ (count.toNat < 2 ^ 31 ∧ TwoSems m.kernel) :=
  ⟨fun _ nonzero small => ⟨memget_sound_iff list aligned nonzero small, stkget_sound_iff list aligned nonzero small⟩,
    fun _ => alloc_sound_iff able list aligned word⟩

theorem bootMail_heap (c : Config) (n : Nat) (p : Platform) : (bootMail c n p).kernel.heap = heapInit p :=
  (Kernel.semcreate_kept (boot c p) 1).1.trans (Kernel.sysinit_fresh p _).2

theorem bootMail_able (c : Config) (n : Nat) (p : Platform) : (bootMail c n p).Able := by
  obtain ⟨fresh, -⟩ := Kernel.sysinit_fresh (c := c) p (⟨fun _ => ⟨0, 0, 0⟩⟩ : Quetab c)
  have settled : (bootMail c n p).kernel.Settled := (Kernel.boot_settled c p).semcreate 1
  refine ⟨?_, ?_, fun s bound free => settled.idle bound free⟩
  · have stack : (bootMail c n p).kernel.stack = fun _ => [] :=
      (Kernel.semcreate_frame (boot c p) 1).1.trans fresh.stack
    rw [stack]
  · exact (Kernel.semcreate_kept (boot c p) 1).2.2.1.trans fresh.stopped

def freeAtBoot : List (Nat × Nat) := [(0x100000, 0xBEFFFF8)]

theorem sizes_sound_boot : MemgetSound (bootMail armRpi 5 rpi).kernel.heap freeAtBoot 24 ∧
    StkgetSound (bootMail armRpi 5 rpi).kernel.heap freeAtBoot 4096 ∧
    AllocSound (bootMail armRpi 5 rpi) freeAtBoot 3 ∧ AllocSound (bootMail armRpi 5 rpi) freeAtBoot 0x80000001 := by
  have heap := bootMail_heap armRpi 5 rpi
  have list := heapInit_list rpi (by decide)
  have atBoot : FreeList (bootMail armRpi 5 rpi).kernel.heap (bootMail armRpi 5 rpi).kernel.heap.maxaddr freeAtBoot := by
    rw [heap]
    exact list.1
  have sound := sizes_sound (bootMail_able armRpi 5 rpi) atBoot list.2.1 (by rw [heap]; decide)
  refine ⟨(sound.1 24 (by decide) (by decide)).1.mpr (.inl (by decide)),
    (sound.1 4096 (by decide) (by decide)).2.mpr (.inl (by decide)), (sound.2 3).mpr (.inl (by decide)), ?_⟩
  exact (sound.2 0x80000001).mpr (.inr (.inr (.inr (.inr ⟨by decide, fun both => absurd both.1 (by decide)⟩))))

theorem sizes_unsound : ¬ MemgetSound (heapInit rpi) freeAtBoot 0xFFFFFFFF ∧
    ¬ StkgetSound (heapInit rpi) freeAtBoot 0xFFFFFFFF ∧ ¬ AllocSound (bootMail armRpi 5 rpi) freeAtBoot 0x40000001 := by
  have heap := bootMail_heap armRpi 5 rpi
  have list := heapInit_list rpi (by decide)
  refine ⟨fun sound => ?_, fun sound => ?_, fun sound => ?_⟩
  · exact absurd ((memget_sound_iff list.1 list.2.1 (by decide) (by decide)).mp sound) (by decide)
  · exact absurd ((stkget_sound_iff list.1 list.2.1 (by decide) (by decide)).mp sound) (by decide)
  · have condition := (alloc_sound_iff (bootMail_able armRpi 5 rpi) (by rw [heap]; exact list.1) list.2.1
      (by rw [heap]; decide)).mp sound
    have sems : TwoSems (bootMail armRpi 5 rpi).kernel :=
      ⟨2, by decide, 3, by decide, by decide, by decide +kernel, by decide +kernel⟩
    rcases condition with few | full | zero | short | ⟨-, short⟩
    · exact absurd few (by decide)
    · exact full 0 (by decide) rfl
    · exact absurd zero (by decide)
    · exact absurd (short (0x100000, 0xBEFFFF8) (.head _)) (by decide)
    · exact short ⟨by decide, sems⟩

end Xinu.Mail
