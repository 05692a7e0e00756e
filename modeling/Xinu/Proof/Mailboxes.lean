import Xinu.System.Mailbox
import Xinu.Proof.Gates
import Xinu.Lib.Ring

/-!
# Mailboxes

Both semaphores of a mailbox are gates, to the free places and to the messages in the buffer, and
`mboxtabsem` is the gate to the table. A thread that is let in by the semaphores of a mailbox after
the mailbox has been freed finds it free, unless it has been allocated again.
-/

namespace Xinu

inductive SemOwner
  | table
  | sender (box : Nat)
  | receiver (box : Nat)
  deriving DecidableEq

namespace Mframe

def sends (box : Nat) : Mframe → Bool
  | .send b _ => b = box
  | _ => false

def receives (box : Nat) : Mframe → Bool
  | .receive b => b = box
  | _ => false

def table : Mframe → Bool
  | .send _ _ | .receive _ => false
  | _ => true

def queued : Mframe → Bool
  | .alloc _ | .free _ => true
  | _ => false

def works (box : Nat) : Mframe → Bool
  | .allocMemory b _ | .allocSender b | .allocReceiver b | .undoSender b | .undoReceiver b
  | .freeSender b | .freeReceiver b | .freeMemory b => b = box
  | _ => false

def keeps : SemOwner → Mframe → Bool
  | .sender box, .allocSender b | .sender box, .allocReceiver b | .sender box, .undoSender b
  | .sender box, .freeSender b | .receiver box, .allocReceiver b | .receiver box, .undoSender b
  | .receiver box, .undoReceiver b | .receiver box, .freeSender b | .receiver box, .freeReceiver b =>
      b = box
  | _, _ => false

def busy (f : Mframe) : Bool := f.table && !f.queued

theorem busy_of_works {f : Mframe} {box : Nat} (h : f.works box = true) : f.busy = true := by
  cases f <;> simp_all [works, busy, table, queued]

theorem not_sends {f : Mframe} {box : Nat} (h : f.table = true) : f.sends box = false := by
  cases f <;> simp_all [sends, table]

theorem not_receives {f : Mframe} {box : Nat} (h : f.table = true) : f.receives box = false := by
  cases f <;> simp_all [receives, table]

theorem busy_of_keeps {f : Mframe} {o : SemOwner} (h : f.keeps o = true) : f.busy = true := by
  cases o <;> cases f <;> simp_all [keeps, busy, table, queued]

end Mframe

def sentInto (box : Nat) : List MailEvent → List Int
  | [] => []
  | .allocated b :: log => if b = box then [] else sentInto box log
  | .sent _ b mailmsg _ :: log => if b = box then sentInto box log ++ [mailmsg] else sentInto box log
  | _ :: log => sentInto box log

def takenFrom (box : Nat) : List MailEvent → List Int
  | [] => []
  | .allocated b :: log => if b = box then [] else takenFrom box log
  | .received _ b retval :: log => if b = box then takenFrom box log ++ [retval] else takenFrom box log
  | _ :: log => takenFrom box log

def outdated (tid : Int) (box : Nat) : List MailEvent → Bool
  | [] => false
  | .freed b :: log => b = box || outdated tid box log
  | .began t b :: log => if t = tid ∧ b = box then false else outdated tid box log
  | _ :: log => outdated tid box log

namespace Mail
open Lib Kernel
variable {c : Config} {n : Nat}

section
variable {Q : Type}

def inside (m : Mail c n Q) (P : Mframe → Bool) (t : Int) : Bool := (m.frames t).any P

def semOf (m : Mail c n Q) : SemOwner → Option Nat
  | .table => some m.mboxtabsem
  | .sender box => (m.mboxtab box).sender
  | .receiver box => (m.mboxtab box).receiver

def live (m : Mail c n Q) : SemOwner → Prop
  | .table => True
  | .sender box | .receiver box => (m.mboxtab box).state = .alloc

def holds (m : Mail c n Q) (o : SemOwner) : Prop := m.live o ∨ ∃ t, m.inside (Mframe.keeps o) t = true

def Owns (m : Mail c n Q) (s : Nat) (o : SemOwner) : Prop := m.semOf o = some s ∧ m.holds o

def bystander (m : Mail c n Q) : Act → Prop
  | .call (.wait s) | .call (.signal s) | .call (.semfree s) => ∀ o, ¬ m.Owns s o
  | .call (.semcreate _) => True
  | x => aloofActs x = true

end

variable (m : Mail c n (Quetab c))

structure Box (box s r : Nat) : Prop where
  sender : (m.mboxtab box).sender = some s
  receiver : (m.mboxtab box).receiver = some r
  places : m.kernel.Gate s (m.inside (Mframe.sends box))
    ((m.mboxtab box).max - (m.mboxtab box).count : Int)
  messages : m.kernel.Gate r (m.inside (Mframe.receives box)) (m.mboxtab box).count
  size : (m.mboxtab box).max < 2 ^ 30
  start : 0 < (m.mboxtab box).max → (m.mboxtab box).start < (m.mboxtab box).max
  stored : sentInto box m.log = takenFrom box m.log ++
    ring (m.mboxtab box).cells (m.mboxtab box).max (m.mboxtab box).start (m.mboxtab box).count

def Forming : Mframe → Prop
  | .alloc count | .allocMemory _ count => 4 * count.toNat < WORD
  | .allocSender box =>
      (m.mboxtab box).count = 0 ∧ (m.mboxtab box).start = 0 ∧ (m.mboxtab box).max < 2 ^ 30 ∧
      ∀ s, (m.mboxtab box).sender = some s → m.kernel.Gate s (fun _ => false) (m.mboxtab box).max
  | .allocReceiver box =>
      (m.mboxtab box).count = 0 ∧ (m.mboxtab box).start = 0 ∧ (m.mboxtab box).max < 2 ^ 30 ∧
      (∀ s, (m.mboxtab box).sender = some s →
        m.kernel.Gate s (fun _ => false) (m.mboxtab box).max) ∧
      ∀ r, (m.mboxtab box).receiver = some r → m.kernel.Gate r (fun _ => false) 0
  | _ => True

def Vacant (box : Nat) : Prop :=
  ∀ t, m.inside (Mframe.sends box) t = false ∧ m.inside (Mframe.receives box) t = false

structure Sane (B : Nat → Prop) : Prop where
  settled : m.kernel.Settled
  quiet : m.kernel.Quiet
  valid : ∀ t, m.frames t ≠ none → 0 ≤ t ∧ t < c.nthread
  table : m.kernel.Gate m.mboxtabsem (m.inside Mframe.table) 1
  queue : ∀ ids, waiters m.mboxtabsem m.kernel.log = some ids → ∀ t ∈ ids, m.inside Mframe.queued t = true
  used : ∀ s o, m.Owns s o → m.kernel.isbadsem s = false
  single : ∀ s o o', m.Owns s o → m.Owns s o' → o = o'
  works : ∀ t box, m.inside (Mframe.works box) t = true → (m.mboxtab box).state = .free
  forming : ∀ t f, m.frames t = some f → m.Forming f
  sems : ∀ box, (m.mboxtab box).state = .alloc →
    (∃ s, (m.mboxtab box).sender = some s) ∧ ∃ r, (m.mboxtab box).receiver = some r
  boxes : ∀ box, B box → (m.mboxtab box).state = .alloc → ∃ s r, m.Box box s r
  stale : ∀ t box, B box → m.inside (Mframe.sends box) t = true ∨ m.inside (Mframe.receives box) t = true →
    outdated t box m.log = true → (m.mboxtab box).state = .free

structure Calls (k : Kernel c (Quetab c)) (call : Call) (k' : Kernel c (Quetab c)) : Prop where
  action : Kernel.step (.call call) k = some k'
  settled : k'.Settled
  quiet : k'.Quiet

theorem Calls.made_spares {k k' : Kernel c (Quetab c)} {v : Int} {s : Nat}
    (calls : Calls k (.semcreate v) k') (used : k.isbadsem s = false) : Spares s k k' := by
  cases made : (k.semcreate v).2 with
  | none => exact (step_semcreate_none made calls.action).spares s
  | some u =>
      obtain ⟨touches, -, free, -⟩ := step_semcreate made calls.action
      refine touches.spares ?_
      rintro rfl
      rw [(isbadsem_eq_false.mp used).2] at free
      cases free

inductive Move (B : Nat → Prop) : Mail c n (Quetab c) → Prop
  | bystand {kernel : Kernel c (Quetab c)} (settled : kernel.Settled) (quiet : kernel.Quiet)
      (spares : ∀ s o, m.Owns s o → Spares s m.kernel kernel) : Move B { m with kernel }
  | enter {f : Mframe} {kernel : Kernel c (Quetab c)} (outside : m.frames m.current = none)
      (queued : f.queued = true) (forming : m.Forming f)
      (calls : Calls m.kernel (.wait m.mboxtabsem) kernel) : Move B { m.setFrame (some f) with kernel }
  | leave {v : Int} {kernel : Kernel c (Quetab c)} (here : m.frames m.current = some (.tabDone v))
      (calls : Calls m.kernel (.signal m.mboxtabsem) kernel) :
      Move B { (m.emit (.ended m.current v)).setFrame none with kernel }
  | fail : Move B (m.emit (.ended m.current SYSERR))
  | beginSend {box s : Nat} {mailmsg : Int} {kernel : Kernel c (Quetab c)}
      (outside : m.frames m.current = none) (state : (m.mboxtab box).state = .alloc)
      (sender : (m.mboxtab box).sender = some s) (calls : Calls m.kernel (.wait s) kernel) :
      Move B { (m.emit (.began m.current box)).setFrame (some (.send box mailmsg)) with kernel }
  | beginReceive {box r : Nat} {kernel : Kernel c (Quetab c)}
      (outside : m.frames m.current = none) (state : (m.mboxtab box).state = .alloc)
      (receiver : (m.mboxtab box).receiver = some r) (calls : Calls m.kernel (.wait r) kernel) :
      Move B { (m.emit (.began m.current box)).setFrame (some (.receive box)) with kernel }
  | send {box r : Nat} {mailmsg : Int} {kernel : Kernel c (Quetab c)}
      (here : m.frames m.current = some (.send box mailmsg)) (state : (m.mboxtab box).state = .alloc)
      (receiver : (m.mboxtab box).receiver = some r) (calls : Calls m.kernel (.signal r) kernel) :
      Move B { ((m.setMbox box { m.mboxtab box with
        cells := Function.update (m.mboxtab box).cells
          (add32 (m.mboxtab box).start (m.mboxtab box).count % (m.mboxtab box).max) mailmsg
        count := add32 (m.mboxtab box).count 1 }).emit (.sent m.current box mailmsg OK)).setFrame none with kernel }
  | receive {box s : Nat} {kernel : Kernel c (Quetab c)}
      (here : m.frames m.current = some (.receive box)) (state : (m.mboxtab box).state = .alloc)
      (sender : (m.mboxtab box).sender = some s) (calls : Calls m.kernel (.signal s) kernel) :
      Move B { ((m.setMbox box { m.mboxtab box with
        start := add32 (m.mboxtab box).start 1 % (m.mboxtab box).max
        count := sub32 (m.mboxtab box).count 1 }).emit (.received m.current box
          ((m.mboxtab box).cells (m.mboxtab box).start))).setFrame none with kernel }
  | refuse {box : Nat} {f : Mframe} (here : m.frames m.current = some f)
      (op : f.sends box = true ∨ f.receives box = true)
      (state : (m.mboxtab box).state = .free) :
      Move B ((m.emit (.refused m.current box SYSERR)).setFrame none)
  | plan {m' : Mail c n (Quetab c)} {f f' : Mframe} (here : m.frames m.current = some f)
      (table : f.table = true) (busy : f'.busy = true)
      (works : ∀ box, f'.works box = true → (m.mboxtab box).state = .free)
      (keeps : ∀ o, f'.keeps o = true → f.keeps o = true) (forming : m.Forming f')
      (settled : m'.kernel.Settled) (aside : m.kernel.Aside m'.kernel)
      (frames : m'.frames = Function.update m.frames m.current (some f'))
      (sem : m'.mboxtabsem = m.mboxtabsem) (log : m'.log = m.log)
      (boxes : ∀ box, ∃ msgs, m'.mboxtab box = { m.mboxtab box with msgs }) : Move B m'
  | makeSender {box : Nat} {count : UInt32} {kernel : Kernel c (Quetab c)}
      (here : m.frames m.current = some (.allocMemory box count))
      (calls : Calls m.kernel (.semcreate (Int32.ofUInt32 count).toInt) kernel) :
      Move B { (m.setMbox box { m.mboxtab box with
        count := 0, start := 0, max := count.toNat
        sender := (m.kernel.semcreate (Int32.ofUInt32 count).toInt).2 }).setFrame
          (some (.allocSender box)) with kernel }
  | makeReceiver {box : Nat} {kernel : Kernel c (Quetab c)}
      (here : m.frames m.current = some (.allocSender box)) (calls : Calls m.kernel (.semcreate 0) kernel) :
      Move B { (m.setMbox box { m.mboxtab box with receiver := (m.kernel.semcreate 0).2 }).setFrame
        (some (.allocReceiver box)) with kernel }
  | publish {box s r : Nat} (here : m.frames m.current = some (.allocReceiver box))
      (sender : (m.mboxtab box).sender = some s) (receiver : (m.mboxtab box).receiver = some r)
      (vacant : B box → m.Vacant box) :
      Move B (((m.setMbox box { m.mboxtab box with state := .alloc }).emit (.allocated box)).setFrame
        (some (.tabDone box)))
  | unmark {box : Nat} (here : m.frames m.current = some (.free box))
      (state : (m.mboxtab box).state = .alloc) :
      Move B (((m.setMbox box { m.mboxtab box with state := .free }).emit (.freed box)).setFrame
        (some (.freeSender box)))
  | destroy {o : SemOwner} {f f' : Mframe} {s : Nat} {kernel : Kernel c (Quetab c)}
      (here : m.frames m.current = some f) (owner : f.keeps o = true) (sem : m.semOf o = some s)
      (busy : f'.busy = true) (works : ∀ box, f'.works box = true → f.works box = true)
      (keeps : ∀ o', f'.keeps o' = true → f.keeps o' = true ∧ o' ≠ o) (forming : m.Forming f')
      (calls : Calls m.kernel (.semfree s) kernel) : Move B { m.setFrame (some f') with kernel }

section
variable {m} {m' : Mail c n (Quetab c)} {B : Nat → Prop} {P : Mframe → Bool} {f : Option Mframe}
  {s u box : Nat} {o o' : SemOwner} {k' : Kernel c (Quetab c)}

theorem inside_update (frames : m'.frames = Function.update m.frames m.current f) (P : Mframe → Bool) :
    m'.inside P = Function.update (m.inside P) m.current (f.any P) := by
  funext t
  by_cases this : t = m.current
  · subst this
    simp [inside, frames]
  · simp [inside, frames, this]

theorem inside_same (frames : m'.frames = Function.update m.frames m.current f)
    (same : f.any P = (m.frames m.current).any P) : m'.inside P = m.inside P := by
  rw [inside_update frames, same]
  exact Function.update_eq_self m.current (m.inside P)

theorem holds_back (frames : m'.frames = Function.update m.frames m.current f)
    (live : m'.live o → m.holds o) (keeps : f.any (Mframe.keeps o) = true → m.holds o)
    (holds : m'.holds o) : m.holds o := by
  rcases holds with now | ⟨t, keeper⟩
  · exact live now
  · rw [inside_update frames] at keeper
    by_cases this : t = m.current
    · subst this
      exact keeps (by simpa using keeper)
    · exact .inr ⟨t, by simpa [this] using keeper⟩

theorem live_of_state (state : ∀ box, (m'.mboxtab box).state = (m.mboxtab box).state)
    (live : m'.live o) : m.live o := by
  cases o with
  | table => trivial
  | sender box => exact (state box).symm.trans live
  | receiver box => exact (state box).symm.trans live

theorem semOf_setMbox {b : Mbox} (tab : m'.mboxtab = Function.update m.mboxtab box b)
    (sem : m'.mboxtabsem = m.mboxtabsem) (sender : b.sender = (m.mboxtab box).sender)
    (receiver : b.receiver = (m.mboxtab box).receiver) (o : SemOwner) (_ : m'.holds o) :
    m'.semOf o = m.semOf o := by
  cases o with
  | table => simp [semOf, sem]
  | sender b => by_cases this : b = box <;> simp [semOf, tab, this, sender]
  | receiver b => by_cases this : b = box <;> simp [semOf, tab, this, receiver]

theorem state_setMbox {b : Mbox} (tab : m'.mboxtab = Function.update m.mboxtab box b)
    (state : b.state = (m.mboxtab box).state) (box' : Nat) :
    (m'.mboxtab box').state = (m.mboxtab box').state := by
  by_cases this : box' = box <;> simp [tab, this, state]

theorem holds_of_idle (frames : m'.frames = Function.update m.frames m.current f)
    (state : ∀ box, (m'.mboxtab box).state = (m.mboxtab box).state) (idle : f.any Mframe.busy = false)
    (holds : m'.holds o) : m.holds o := by
  refine holds_back frames (fun live => .inl (live_of_state state live)) (fun keeps => ?_) holds
  cases f with
  | none => cases keeps
  | some f =>
      rw [Option.any_some] at keeps idle
      rw [Mframe.busy_of_keeps keeps] at idle
      cases idle

theorem holds_of_frame {f : Mframe} (here : m.frames m.current = some f) (keeps : f.keeps o = true) :
    m.holds o := .inr ⟨m.current, by simpa [inside, here] using keeps⟩

theorem owns_table (m : Mail c n (Quetab c)) : m.Owns m.mboxtabsem .table := ⟨rfl, .inl trivial⟩

namespace Sane

theorem alone (sane : m.Sane B) (here : m.inside Mframe.table m.current = true) {t : Int}
    (other : t ≠ m.current) : m.inside Mframe.busy t = false := by
  rw [Bool.eq_false_iff]
  intro busy
  obtain ⟨ids, w⟩ := sane.settled.waiting sane.table.bound
  have length := w.length (isbadsem_eq_false.mp sane.table.good).2
  have queue := sane.queue ids w.order
  have off : t ∉ ids := by
    intro member
    have queued := queue t member
    cases frame : m.frames t <;> simp_all [inside, Mframe.busy]
  have table : m.inside Mframe.table t = true := by
    cases frame : m.frames t <;> simp_all [inside, Mframe.busy]
  have present : m.frames t ≠ none := by
    intro none
    simp [inside, none] at table
  have few : (m.current :: t :: ids).length ≤ census c (m.inside Mframe.table) := length_le_census
    (by simp [w.nodup, off, w.off, Ne.symm other])
    (by
      intro v member
      simp only [List.mem_cons] at member
      rcases member with rfl | rfl | member
      · exact sane.settled.running.2
      · exact sane.valid _ present
      · exact w.valid v member)
    (by
      intro v member
      simp only [List.mem_cons] at member
      rcases member with rfl | rfl | member
      · exact here
      · exact table
      · exact sane.table.queue ids w.order v member)
  have := sane.table.total
  simp only [List.length_cons] at few
  omega

theorem apart (sane : m.Sane B) {p : SemOwner} (owns : m.Owns s o) (owner : m.Owns u p) (other : o ≠ p) : s ≠ u :=
  fun same => other (sane.single u o p (same ▸ owns) owner)

theorem owned (sane : m.Sane B) (sems : ∀ o, m'.holds o → m'.semOf o = m.semOf o)
    (back : ∀ o, m'.holds o → m.holds o)
    (good : ∀ s o, m'.Owns s o → m'.kernel.isbadsem s = m.kernel.isbadsem s) :
    (∀ s o, m'.Owns s o → m'.kernel.isbadsem s = false) ∧
      ∀ s o o', m'.Owns s o → m'.Owns s o' → o = o' := by
  have owns : ∀ s o, m'.Owns s o → m.Owns s o :=
    fun s o own => ⟨(sems o own.2).symm.trans own.1, back o own.2⟩
  refine ⟨fun s o own => ?_, fun s o o' own own' => ?_⟩
  · rw [good s o own]
    exact sane.used s o (owns s o own)
  · exact sane.single s o o' (owns s o own) (owns s o' own')

theorem keeper (sane : m.Sane B) {f : Mframe} (here : m.frames m.current = some f)
    (table : f.table = true) {t : Int} (keeps : m.inside (Mframe.keeps o) t = true) : t = m.current := by
  by_contra other
  have idle := sane.alone (by simpa [inside, here] using table) other
  cases frame : m.frames t with
  | none => simp [inside, frame] at keeps
  | some g =>
      simp only [inside, frame, Option.any_some] at keeps idle
      rw [Mframe.busy_of_keeps keeps] at idle
      cases idle

theorem owned_made (sane : m.Sane B) {v : Int} (calls : Calls m.kernel (.semcreate v) m'.kernel)
    (own : m'.semOf o = (m.kernel.semcreate v).2) (sems : ∀ o', o' ≠ o → m'.semOf o' = m.semOf o')
    (back : ∀ o', o' ≠ o → m'.holds o' → m.holds o') :
    (∀ s o, m'.Owns s o → m'.kernel.isbadsem s = false) ∧
      ∀ s o o', m'.Owns s o → m'.Owns s o' → o = o' := by
  have owns : ∀ s o', o' ≠ o → m'.Owns s o' → m.Owns s o' :=
    fun s o' other owns => ⟨(sems o' other).symm.trans owns.1, back o' other owns.2⟩
  cases made : (m.kernel.semcreate v).2 with
  | none =>
      have old : ∀ s o', m'.Owns s o' → m.Owns s o' := by
        intro s o' own'
        refine owns s o' ?_ own'
        rintro rfl
        have := own'.1
        rw [own, made] at this
        cases this
      have aside := step_semcreate_none made calls.action
      refine ⟨fun s o' own' => ?_, fun s o' o'' own' own'' => ?_⟩
      · rw [(aside.spares s).isbadsem]
        exact sane.used s o' (old s o' own')
      · exact sane.single s o' o'' (old s o' own') (old s o'' own'')
  | some u =>
      obtain ⟨touches, bound, free, used, -⟩ := step_semcreate made calls.action
      have fresh : ∀ o', ¬ m.Owns u o' := by
        intro o' owns
        have := (isbadsem_eq_false.mp (sane.used u o' owns)).2
        rw [free] at this
        cases this
      have new : ∀ s, m'.Owns s o → s = u := by
        intro s owns
        have := owns.1
        rw [own, made] at this
        exact (Option.some.inj this).symm
      refine ⟨fun s o' own' => ?_, fun s o' o'' own' own'' => ?_⟩
      · by_cases this : o' = o
        · subst this
          rw [new s own']
          exact isbadsem_eq_false.mpr ⟨bound, used⟩
        · have old := owns s o' this own'
          have other : s ≠ u := fun same => fresh o' (same ▸ old)
          rw [(touches.spares other).isbadsem]
          exact sane.used s o' old
      · by_cases this : o' = o
        · subst this
          by_contra other
          exact fresh o'' (owns u o'' (Ne.symm other) (new s own' ▸ own''))
        · by_cases that : o'' = o
          · subst that
            exact absurd (owns u o' this (new s own'' ▸ own')) (fresh o')
          · exact sane.single s o' o'' (owns s o' this own') (owns s o'' that own'')

theorem not_live (sane : m.Sane B) {f : Mframe} (here : m.frames m.current = some f)
    (keeps : f.keeps o = true) : ¬ m.live o := by
  have works : ∀ box, f.works box = true → (m.mboxtab box).state = .free := fun box works =>
    sane.works m.current box (by simpa [inside, here] using works)
  intro live
  cases o with
  | table => cases f <;> cases keeps
  | sender box =>
      have : f.works box = true := by cases f <;> simp_all [Mframe.keeps, Mframe.works]
      cases live.symm.trans (works box this)
  | receiver box =>
      have : f.works box = true := by cases f <;> simp_all [Mframe.keeps, Mframe.works]
      cases live.symm.trans (works box this)

end Sane

theorem Sane.table_spared (sane : m.Sane B) (frames : m'.frames = Function.update m.frames m.current f)
    (same : f.any Mframe.table = (m.frames m.current).any Mframe.table)
    (sem : m'.mboxtabsem = m.mboxtabsem) (spares : Spares m.mboxtabsem m.kernel m'.kernel) :
    m'.kernel.Gate m'.mboxtabsem (m'.inside Mframe.table) 1 ∧
      ∀ ids, waiters m'.mboxtabsem m'.kernel.log = some ids →
        ∀ t ∈ ids, m'.inside Mframe.queued t = true := by
  rw [sem, inside_same frames same, spares.2]
  refine ⟨sane.table.spared spares, fun ids order t member => ?_⟩
  obtain ⟨ids', w⟩ := sane.settled.waiting sane.table.bound
  obtain rfl : ids' = ids := Option.some.inj (w.order.symm.trans order)
  have other : t ≠ m.current := by
    rintro rfl
    exact w.off member
  rw [inside_update frames, Function.update_of_ne other]
  exact sane.queue ids' order t member

theorem Move.table (sane : m.Sane B) (move : m.Move B m') :
    m'.kernel.Gate m'.mboxtabsem (m'.inside Mframe.table) 1 ∧
      ∀ ids, waiters m'.mboxtabsem m'.kernel.log = some ids →
        ∀ t ∈ ids, m'.inside Mframe.queued t = true := by
  obtain ⟨ids, w⟩ := sane.settled.waiting sane.table.bound
  have own := m.owns_table
  cases move with
  | bystand settled quiet spares =>
      have spares := spares _ _ own
      refine ⟨sane.table.spared spares, ?_⟩
      rw [spares.2]
      exact sane.queue
  | @enter f kernel outside queued forming calls =>
      have table : f.table = true := by cases f <;> simp_all [Mframe.queued, Mframe.table]
      obtain ⟨-, waits⟩ := step_wait sane.table.good w.order calls.action
      refine ⟨?_, fun ids' order t member => ?_⟩
      · rw [inside_update (m := m) (f := some f) rfl, Option.any_some, table]
        exact sane.table.enter sane.settled (by simp [inside, outside]) calls.action
      · rw [inside_update (m := m) (f := some f) rfl]
        by_cases this : t = m.current
        · simp [this, queued]
        · rw [Function.update_of_ne this]
          apply sane.queue ids w.order
          obtain rfl := Option.some.inj (waits.symm.trans order)
          split at member
          · simpa [this] using member
          · exact member
  | @leave v kernel here calls =>
      have inside : m.inside Mframe.table m.current = true := by simp [inside, here, Mframe.table]
      refine ⟨?_, fun ids' order t member => ?_⟩
      · rw [inside_update (m := m) (f := none) rfl]
        exact (sane.table.leave sane.settled inside).signal sane.settled calls.action
      · have waits := step_signal sane.table.good w.order calls.action order t member
        have other : t ≠ m.current := by
          rintro rfl
          exact w.off waits
        rw [inside_update (m := m) (f := none) rfl, Function.update_of_ne other]
        exact sane.queue ids w.order t waits
  | fail => exact ⟨sane.table.spared ⟨rfl, rfl⟩, sane.queue⟩
  | beginSend outside state sender calls =>
      have apart := sane.apart own ⟨sender, .inl state⟩ (p := .sender _) (by simp)
      refine sane.table_spared rfl (by simp [outside, Mframe.table]) rfl ?_
      exact (step_touches (.inl rfl) calls.action).spares apart
  | beginReceive outside state receiver calls =>
      have apart := sane.apart own ⟨receiver, .inl state⟩ (p := .receiver _) (by simp)
      refine sane.table_spared rfl (by simp [outside, Mframe.table]) rfl ?_
      exact (step_touches (.inl rfl) calls.action).spares apart
  | send here state receiver calls =>
      have apart := sane.apart own ⟨receiver, .inl state⟩ (p := .receiver _) (by simp)
      refine sane.table_spared rfl (by simp [here, Mframe.table]) rfl ?_
      exact (step_touches (.inr (.inl rfl)) calls.action).spares apart
  | receive here state sender calls =>
      have apart := sane.apart own ⟨sender, .inl state⟩ (p := .sender _) (by simp)
      refine sane.table_spared rfl (by simp [here, Mframe.table]) rfl ?_
      exact (step_touches (.inr (.inl rfl)) calls.action).spares apart
  | @refuse box f here op state =>
      refine sane.table_spared rfl ?_ rfl ⟨rfl, rfl⟩
      rw [here]
      cases f <;> simp_all [Mframe.table, Mframe.sends, Mframe.receives]
  | @plan _ f f' here table busy works keeps forming settled aside frames sem log boxes =>
      simp only [Mframe.busy, Bool.and_eq_true] at busy
      exact sane.table_spared frames (by simp [here, table, busy.1]) sem (aside.spares _)
  | makeSender here calls =>
      refine sane.table_spared rfl (by simp [here, Mframe.table]) rfl ?_
      exact calls.made_spares (sane.used _ _ own)
  | makeReceiver here calls =>
      refine sane.table_spared rfl (by simp [here, Mframe.table]) rfl ?_
      exact calls.made_spares (sane.used _ _ own)
  | publish here sender receiver vacant =>
      exact sane.table_spared rfl (by simp [here, Mframe.table]) rfl ⟨rfl, rfl⟩
  | unmark here state =>
      exact sane.table_spared rfl (by simp [here, Mframe.table]) rfl ⟨rfl, rfl⟩
  | @destroy o f f' s kernel here owner sem busy works keeps forming calls =>
      have table := Mframe.busy_of_keeps owner
      simp only [Mframe.busy, Bool.and_eq_true] at busy table
      have other : SemOwner.table ≠ o := by
        rintro rfl
        cases f <;> cases owner
      have apart := sane.apart own ⟨sem, holds_of_frame here owner⟩ other
      refine sane.table_spared rfl (by simp [here, table.1, busy.1]) rfl ?_
      exact (step_touches (.inr (.inr rfl)) calls.action).spares apart

theorem Move.owned (sane : m.Sane B) (move : m.Move B m') :
    (∀ s o, m'.Owns s o → m'.kernel.isbadsem s = false) ∧
      ∀ s o o', m'.Owns s o → m'.Owns s o' → o = o' := by
  cases move with
  | bystand settled quiet spares =>
      exact sane.owned (fun o _ => by cases o <;> rfl) (fun o holds => holds)
        fun s o own => (spares s o own).isbadsem
  | @enter f kernel outside queued forming calls =>
      refine sane.owned (fun o _ => by cases o <;> rfl) (fun o => ?_)
        fun s o own => step_isbadsem (.inl rfl) calls.action s
      exact holds_of_idle rfl (fun _ => rfl) (by simp [Mframe.busy, queued])
  | leave here calls =>
      refine sane.owned (fun o _ => by cases o <;> rfl) (fun o => ?_)
        fun s o own => step_isbadsem (.inr rfl) calls.action s
      exact holds_of_idle rfl (fun _ => rfl) rfl
  | fail => exact sane.owned (fun o _ => by cases o <;> rfl) (fun o holds => holds) fun s o own => rfl
  | beginSend outside state sender calls =>
      refine sane.owned (fun o _ => by cases o <;> rfl) (fun o => ?_)
        fun s o own => step_isbadsem (.inl rfl) calls.action s
      exact holds_of_idle rfl (fun _ => rfl) rfl
  | beginReceive outside state receiver calls =>
      refine sane.owned (fun o _ => by cases o <;> rfl) (fun o => ?_)
        fun s o own => step_isbadsem (.inl rfl) calls.action s
      exact holds_of_idle rfl (fun _ => rfl) rfl
  | @send box r mailmsg kernel here state receiver calls =>
      refine sane.owned (semOf_setMbox rfl rfl rfl rfl) (fun o => ?_)
        fun s o own => step_isbadsem (.inr rfl) calls.action s
      exact holds_of_idle rfl (state_setMbox rfl rfl) rfl
  | @receive box s kernel here state sender calls =>
      refine sane.owned (semOf_setMbox rfl rfl rfl rfl) (fun o => ?_)
        fun s o own => step_isbadsem (.inr rfl) calls.action s
      exact holds_of_idle rfl (state_setMbox rfl rfl) rfl
  | refuse here op state =>
      refine sane.owned (fun o _ => by cases o <;> rfl) (fun o => ?_) fun s o own => rfl
      exact holds_of_idle rfl (fun _ => rfl) rfl
  | @plan _ f f' here table busy works keeps forming settled aside frames sem log boxes =>
      have same : ∀ box, (m'.mboxtab box).state = (m.mboxtab box).state ∧
          (m'.mboxtab box).sender = (m.mboxtab box).sender ∧
          (m'.mboxtab box).receiver = (m.mboxtab box).receiver := by
        intro box
        obtain ⟨msgs, eq⟩ := boxes box
        rw [eq]
        exact ⟨rfl, rfl, rfl⟩
      refine sane.owned (fun o _ => ?_) (fun o => ?_) fun s o own => (aside.spares s).isbadsem
      · cases o with
        | table => simp [semOf, sem]
        | sender box => exact (same box).2.1
        | receiver box => exact (same box).2.2
      · refine holds_back frames (fun live => .inl (live_of_state (fun box => (same box).1) live)) ?_
        exact fun keep => holds_of_frame here (keeps o keep)
  | @makeSender box count kernel here calls =>
      refine sane.owned_made (o := .sender box) calls (by simp [semOf, setMbox, setFrame]) ?_ ?_
      · rintro (_ | b | b) other
        · rfl
        · simp_all [semOf, setMbox, setFrame]
        · by_cases this : b = box <;> simp [semOf, setMbox, setFrame, this]
      · intro o other
        refine holds_back rfl (fun live => .inl (live_of_state ?_ live)) ?_
        · exact state_setMbox rfl rfl
        · cases o <;> simp_all [Mframe.keeps, eq_comm]
  | @makeReceiver box kernel here calls =>
      refine sane.owned_made (o := .receiver box) calls (by simp [semOf, setMbox, setFrame]) ?_ ?_
      · rintro (_ | b | b) other
        · rfl
        · by_cases this : b = box <;> simp [semOf, setMbox, setFrame, this]
        · simp_all [semOf, setMbox, setFrame]
      · intro o other
        refine holds_back rfl (fun live => .inl (live_of_state ?_ live)) fun keeps => ?_
        · exact state_setMbox rfl rfl
        · refine holds_of_frame here ?_
          cases o <;> simp_all [Mframe.keeps, eq_comm]
  | @publish box s r here sender receiver vacant =>
      refine sane.owned (semOf_setMbox rfl rfl rfl rfl) (fun o => ?_) fun s o own => rfl
      refine holds_back rfl (fun now => ?_) (by cases o <;> simp [Mframe.keeps])
      by_cases this : m.live o
      · exact .inl this
      · refine holds_of_frame here ?_
        cases o with
        | table => exact absurd trivial this
        | sender b =>
            by_contra other
            simp only [Mframe.keeps, decide_eq_true_eq] at other
            exact this (by simpa [live, setMbox, setFrame, emit, Ne.symm other] using now)
        | receiver b =>
            by_contra other
            simp only [Mframe.keeps, decide_eq_true_eq] at other
            exact this (by simpa [live, setMbox, setFrame, emit, Ne.symm other] using now)
  | @unmark box here state =>
      refine sane.owned (semOf_setMbox rfl rfl rfl rfl) (fun o => ?_) fun s o own => rfl
      refine holds_back rfl (fun now => .inl ?_) (fun keeps => .inl ?_)
      · cases o with
        | table => trivial
        | sender b => by_cases this : b = box <;> simp_all [live, setMbox, setFrame, emit]
        | receiver b => by_cases this : b = box <;> simp_all [live, setMbox, setFrame, emit]
      · cases o <;> simp_all [Mframe.keeps, live]
  | @destroy o f f' s kernel here owner sem busy works keeps forming calls =>
      have back : ∀ o', ({ m.setFrame (some f') with kernel } : Mail c n (Quetab c)).holds o' →
          m.holds o' ∧ o' ≠ o := by
        intro o' holds
        refine ⟨holds_back (f := some f') rfl (fun live => .inl ?_)
          (fun keep => holds_of_frame here (keeps o' keep).1) holds, ?_⟩
        · exact live_of_state (fun _ => rfl) live
        rintro rfl
        rcases holds with live | ⟨t, keep⟩
        · exact sane.not_live here owner (live_of_state (fun _ => rfl) live)
        · rw [inside_update rfl] at keep
          by_cases this : t = m.current
          · subst this
            rw [Function.update_self] at keep
            exact (keeps o' keep).2 rfl
          · rw [Function.update_of_ne this] at keep
            refine this (sane.keeper here ?_ keep)
            have := Mframe.busy_of_keeps owner
            simp only [Mframe.busy, Bool.and_eq_true] at this
            exact this.1
      refine sane.owned (fun o _ => by cases o <;> rfl) (fun o' holds => (back o' holds).1) ?_
      intro u o' own
      have owns : m.Owns u o' := ⟨by cases o' <;> exact own.1, (back o' own.2).1⟩
      have other := sane.apart owns ⟨sem, holds_of_frame here owner⟩ (back o' own.2).2
      exact ((step_touches (.inr (.inr rfl)) calls.action).spares other).isbadsem

theorem Sane.idle (sane : m.Sane B) {f : Mframe} (here : m.frames m.current = some f)
    (table : f.table = true) {t : Int} (other : t ≠ m.current) {g : Mframe}
    (frame : m.frames t = some g) : g.busy = false := by
  have := sane.alone (by simpa [inside, here] using table) other
  simpa [inside, frame] using this

theorem Forming.idle {f : Mframe} (forming : m.Forming f) (idle : f.busy = false) : m'.Forming f := by
  cases f with
  | alloc count => exact forming
  | allocMemory _ _ => cases idle
  | allocSender _ => cases idle
  | allocReceiver _ => cases idle
  | _ => trivial

theorem Forming.spared {f : Mframe} (forming : m.Forming f)
    (tab : ∀ box, f.works box = true → ∃ msgs, m'.mboxtab box = { m.mboxtab box with msgs })
    (spares : ∀ s o, f.keeps o = true → m.semOf o = some s → Spares s m.kernel m'.kernel) :
    m'.Forming f := by
  cases f with
  | alloc count => exact forming
  | allocMemory box count => exact forming
  | allocSender box =>
      obtain ⟨msgs, eq⟩ := tab box (by simp [Mframe.works])
      obtain ⟨count, start, size, senders⟩ := forming
      simp only [Forming, eq]
      refine ⟨count, start, size, fun s sender => ?_⟩
      exact (senders s sender).spared (spares s (.sender box) (by simp [Mframe.keeps]) sender)
  | allocReceiver box =>
      obtain ⟨msgs, eq⟩ := tab box (by simp [Mframe.works])
      obtain ⟨count, start, size, senders, receivers⟩ := forming
      simp only [Forming, eq]
      refine ⟨count, start, size, fun s sender => ?_, fun r receiver => ?_⟩
      · exact (senders s sender).spared (spares s (.sender box) (by simp [Mframe.keeps]) sender)
      · exact (receivers r receiver).spared (spares r (.receiver box) (by simp [Mframe.keeps]) receiver)
  | _ => trivial

structure Working (m : Mail c n (Quetab c)) (f : Mframe) : Prop where
  works : ∀ box, f.works box = true → (m.mboxtab box).state = .free
  forming : m.Forming f

theorem Sane.working (sane : m.Sane B) {t : Int} {f : Mframe} (frame : m.frames t = some f) :
    m.Working f :=
  ⟨fun box works => sane.works t box (by simpa [inside, frame] using works), sane.forming t f frame⟩

theorem Working.idle {f : Mframe} (working : m.Working f) (idle : f.busy = false) : m'.Working f := by
  refine ⟨fun box works => ?_, working.forming.idle idle⟩
  rw [Mframe.busy_of_works works] at idle
  cases idle

theorem Working.spared {f : Mframe} (working : m.Working f)
    (tab : ∀ box, f.works box = true → ∃ msgs, m'.mboxtab box = { m.mboxtab box with msgs })
    (spares : ∀ s o, f.keeps o = true → m.semOf o = some s → Spares s m.kernel m'.kernel) :
    m'.Working f := by
  refine ⟨fun box works => ?_, working.forming.spared tab spares⟩
  obtain ⟨msgs, eq⟩ := tab box works
  rw [eq]
  exact working.works box works

theorem Sane.working_apart (sane : m.Sane B) {p : SemOwner} {t : Int} {f : Mframe} (frame : m.frames t = some f)
    (tab : ∀ b, (m.mboxtab b).state = .free → m'.mboxtab b = m.mboxtab b)
    (touches : Touches u m.kernel m'.kernel) (owns : m.Owns u p)
    (other : p = .table ∨ m.live p) : m'.Working f := by
  have working := sane.working frame
  refine working.spared (fun b works => ⟨_, tab b (working.works b works)⟩) ?_
  intro s o keeps sem
  have holds : m.holds o := .inr ⟨t, by simpa [inside, frame] using keeps⟩
  refine touches.spares (sane.apart ⟨sem, holds⟩ owns ?_)
  rintro rfl
  rcases other with rfl | live
  · cases f <;> cases keeps
  · have : ∀ box, f.works box = true → (m.mboxtab box).state ≠ .alloc := by
      intro box works
      rw [working.works box works]
      simp
    cases o with
    | table => cases f <;> cases keeps
    | sender box => exact this box (by cases f <;> simp_all [Mframe.keeps, Mframe.works]) live
    | receiver box => exact this box (by cases f <;> simp_all [Mframe.keeps, Mframe.works]) live

theorem working_of (frames : m'.frames = Function.update m.frames m.current f)
    (own : ∀ g, f = some g → m'.Working g)
    (others : ∀ t g, t ≠ m.current → m.frames t = some g → m'.Working g) (t : Int) (g : Mframe)
    (frame : m'.frames t = some g) : m'.Working g := by
  rw [frames] at frame
  by_cases this : t = m.current
  · subst this
    exact own g (by simpa using frame)
  · exact others t g this (by simpa [this] using frame)

theorem Int32_toInt_small {count : UInt32} (small : 4 * count.toNat < WORD) :
    (Int32.ofUInt32 count).toInt = count.toNat := by
  have : count.toNat < 2 ^ 30 := by
    rw [WORD] at small
    omega
  show count.toBitVec.toInt = count.toBitVec.toNat
  apply BitVec.toInt_eq_toNat_of_lt
  show 2 * count.toNat < 2 ^ 32
  omega

theorem Move.working (sane : m.Sane B) (move : m.Move B m') :
    ∀ t g, m'.frames t = some g → m'.Working g := by
  cases move with
  | bystand settled quiet spares =>
      intro t g frame
      refine (sane.working frame).spared (fun box _ => ⟨_, rfl⟩) fun s o keeps sem => ?_
      exact spares s o ⟨sem, .inr ⟨t, by simpa [inside, show m.frames t = some g from frame] using keeps⟩⟩
  | @enter f kernel outside queued forming calls =>
      refine working_of rfl ?_ fun t g other frame => ?_
      · rintro g ⟨⟩
        have idle : f.busy = false := by simp [Mframe.busy, queued]
        exact Working.idle ⟨fun box works => by simp [Mframe.busy_of_works works] at idle, forming⟩ idle
      · exact sane.working_apart frame (fun _ _ => rfl) (step_touches (.inl rfl) calls.action)
          m.owns_table (.inl rfl)
  | leave here calls =>
      refine working_of rfl (by rintro g ⟨⟩) fun t g other frame => ?_
      exact (sane.working frame).idle (sane.idle here rfl other frame)
  | fail =>
      intro t g frame
      exact (sane.working frame).spared (fun box _ => ⟨_, rfl⟩) fun s o _ _ => ⟨rfl, rfl⟩
  | beginSend outside state sender calls =>
      refine working_of rfl ?_ fun t g other frame => ?_
      · rintro g ⟨⟩
        exact ⟨by simp [Mframe.works], trivial⟩
      · exact sane.working_apart frame (fun _ _ => rfl) (step_touches (.inl rfl) calls.action)
          (p := .sender _) ⟨sender, .inl state⟩ (.inr state)
  | beginReceive outside state receiver calls =>
      refine working_of rfl ?_ fun t g other frame => ?_
      · rintro g ⟨⟩
        exact ⟨by simp [Mframe.works], trivial⟩
      · exact sane.working_apart frame (fun _ _ => rfl) (step_touches (.inl rfl) calls.action)
          (p := .receiver _) ⟨receiver, .inl state⟩ (.inr state)
  | @send box r mailmsg kernel here state receiver calls =>
      refine working_of rfl (by rintro g ⟨⟩) fun t g other frame => ?_
      refine sane.working_apart frame (fun b free => ?_) (step_touches (.inr (.inl rfl)) calls.action)
        (p := .receiver _) ⟨receiver, .inl state⟩ (.inr state)
      refine Function.update_of_ne ?_ _ _
      rintro rfl
      cases free.symm.trans state
  | @receive box s kernel here state sender calls =>
      refine working_of rfl (by rintro g ⟨⟩) fun t g other frame => ?_
      refine sane.working_apart frame (fun b free => ?_) (step_touches (.inr (.inl rfl)) calls.action)
        (p := .sender _) ⟨sender, .inl state⟩ (.inr state)
      refine Function.update_of_ne ?_ _ _
      rintro rfl
      cases free.symm.trans state
  | refuse here op state =>
      refine working_of rfl (by rintro g ⟨⟩) fun t g other frame => ?_
      exact (sane.working frame).spared (fun box _ => ⟨_, rfl⟩) fun s o _ _ => ⟨rfl, rfl⟩
  | @plan _ f f' here table busy works keeps forming settled aside frames sem log boxes =>
      refine working_of frames ?_ fun t g other frame =>
        (sane.working frame).idle (sane.idle here table other frame)
      rintro g ⟨⟩
      exact Working.spared ⟨works, forming⟩ (fun box _ => boxes box) fun s o _ _ => aside.spares s
  | @makeSender box count kernel here calls =>
      have old := sane.working here
      refine working_of rfl ?_ fun t g other frame =>
        (sane.working frame).idle (sane.idle here rfl other frame)
      rintro g ⟨⟩
      have small : 4 * count.toNat < WORD := old.forming
      refine ⟨fun b works => ?_, ?_⟩
      · obtain rfl : box = b := by simpa [Mframe.works] using works
        simpa [setMbox, setFrame] using old.works box (by simp [Mframe.works])
      · simp only [Forming, setMbox, setFrame, Function.update_self]
        refine ⟨trivial, trivial, ?_, fun s made => ?_⟩
        · rw [WORD] at small
          omega
        · rw [← Int32_toInt_small small]
          exact Gate.made calls.settled made calls.action
  | @makeReceiver box kernel here calls =>
      have old := sane.working here
      refine working_of rfl ?_ fun t g other frame =>
        (sane.working frame).idle (sane.idle here rfl other frame)
      rintro g ⟨⟩
      obtain ⟨count, start, size, senders⟩ := old.forming
      refine ⟨fun b works => ?_, ?_⟩
      · obtain rfl : box = b := by simpa [Mframe.works] using works
        simpa [setMbox, setFrame] using old.works box (by simp [Mframe.works])
      · simp only [Forming, setMbox, setFrame, Function.update_self]
        refine ⟨count, start, size, fun s sender => ?_, fun r made => ?_⟩
        · exact (senders s sender).spared (calls.made_spares (senders s sender).good)
        · exact Gate.made calls.settled made calls.action
  | publish here sender receiver vacant =>
      refine working_of rfl ?_ fun t g other frame =>
        (sane.working frame).idle (sane.idle here rfl other frame)
      rintro g ⟨⟩
      exact ⟨by simp [Mframe.works], trivial⟩
  | @unmark box here state =>
      refine working_of rfl ?_ fun t g other frame =>
        (sane.working frame).idle (sane.idle here rfl other frame)
      rintro g ⟨⟩
      refine ⟨fun b works => ?_, trivial⟩
      obtain rfl : box = b := by simpa [Mframe.works] using works
      simp [setMbox, setFrame, emit]
  | @destroy o f f' s kernel here owner sem busy works keeps forming calls =>
      have table := Mframe.busy_of_keeps owner
      simp only [Mframe.busy, Bool.and_eq_true] at table
      have old := sane.working here
      refine working_of rfl ?_ fun t g other frame =>
        (sane.working frame).idle (sane.idle here table.1 other frame)
      rintro g ⟨⟩
      refine Working.spared ⟨fun box work => old.works box (works box work), forming⟩
        (fun box _ => ⟨_, rfl⟩) fun u o' keep sem' => ?_
      have apart := sane.apart ⟨sem', holds_of_frame here (keeps o' keep).1⟩
        ⟨sem, holds_of_frame here owner⟩ (keeps o' keep).2
      exact (step_touches (.inr (.inr rfl)) calls.action).spares apart

theorem Move.sems (sane : m.Sane B) (move : m.Move B m') (box : Nat)
    (state : (m'.mboxtab box).state = .alloc) :
    (∃ s, (m'.mboxtab box).sender = some s) ∧ ∃ r, (m'.mboxtab box).receiver = some r := by
  cases move with
  | @send b r mailmsg kernel here used receiver calls =>
      by_cases this : box = b
      · subst this
        simpa [setMbox, setFrame, emit] using sane.sems box used
      · simp only [setMbox, setFrame, emit, Function.update_of_ne this] at state ⊢
        exact sane.sems box state
  | @receive b s kernel here used sender calls =>
      by_cases this : box = b
      · subst this
        simpa [setMbox, setFrame, emit] using sane.sems box used
      · simp only [setMbox, setFrame, emit, Function.update_of_ne this] at state ⊢
        exact sane.sems box state
  | plan here table busy works keeps forming settled aside frames sem log boxes =>
      obtain ⟨msgs, eq⟩ := boxes box
      rw [eq] at state ⊢
      exact sane.sems box state
  | @makeSender b count kernel here calls =>
      by_cases this : box = b
      · subst this
        have free := (sane.working here).works box (by simp [Mframe.works])
        simp [setMbox, setFrame, free] at state
      · simp only [setMbox, setFrame, Function.update_of_ne this] at state ⊢
        exact sane.sems box state
  | @makeReceiver b kernel here calls =>
      by_cases this : box = b
      · subst this
        have free := (sane.working here).works box (by simp [Mframe.works])
        simp [setMbox, setFrame, free] at state
      · simp only [setMbox, setFrame, Function.update_of_ne this] at state ⊢
        exact sane.sems box state
  | @publish b s r here sender receiver vacant =>
      by_cases this : box = b
      · subst this
        simp [setMbox, setFrame, emit, sender, receiver]
      · simp only [setMbox, setFrame, emit, Function.update_of_ne this] at state ⊢
        exact sane.sems box state
  | @unmark b here used =>
      by_cases this : box = b
      · subst this
        simp [setMbox, setFrame, emit] at state
      · simp only [setMbox, setFrame, emit, Function.update_of_ne this] at state ⊢
        exact sane.sems box state
  | _ => exact sane.sems box state

theorem Box.kept {b s r : Nat} (h : m.Box b s r) (state : (m.mboxtab b).state = .alloc)
    (tab : ∃ msgs, m'.mboxtab b = { m.mboxtab b with msgs })
    (sends : m'.inside (Mframe.sends b) = m.inside (Mframe.sends b))
    (receives : m'.inside (Mframe.receives b) = m.inside (Mframe.receives b))
    (spares : ∀ s o, o = .sender b ∨ o = .receiver b → m.Owns s o → Spares s m.kernel m'.kernel)
    (sent : sentInto b m'.log = sentInto b m.log) (taken : takenFrom b m'.log = takenFrom b m.log) :
    m'.Box b s r := by
  obtain ⟨msgs, eq⟩ := tab
  have first := spares s (.sender b) (.inl rfl) ⟨h.sender, .inl state⟩
  have second := spares r (.receiver b) (.inr rfl) ⟨h.receiver, .inl state⟩
  refine ⟨?_, ?_, ?_, ?_, ?_, ?_, ?_⟩ <;> rw [eq]
  · exact h.sender
  · exact h.receiver
  · rw [sends]
    exact h.places.spared first
  · rw [receives]
    exact h.messages.spared second
  · exact h.size
  · exact h.start
  · rw [sent, taken]
    exact h.stored

theorem Sane.spares_of (sane : m.Sane B) {p : SemOwner} {b : Nat} (touches : Touches u m.kernel k') (owns : m.Owns u p)
    (sender : p ≠ .sender b) (receiver : p ≠ .receiver b) (s : Nat) (o : SemOwner)
    (own : o = .sender b ∨ o = .receiver b) (holds : m.Owns s o) : Spares s m.kernel k' := by
  refine touches.spares (sane.apart holds owns ?_)
  rintro rfl
  exact own.elim sender receiver

theorem Box.send (sane : m.Sane B) {b s r : Nat} (h : m.Box b s r) {mailmsg : Int}
    {kernel : Kernel c (Quetab c)} (here : m.frames m.current = some (.send b mailmsg))
    (state : (m.mboxtab b).state = .alloc) (calls : Calls m.kernel (.signal r) kernel) :
    Box ({ ((m.setMbox b { m.mboxtab b with
        cells := Function.update (m.mboxtab b).cells
          (add32 (m.mboxtab b).start (m.mboxtab b).count % (m.mboxtab b).max) mailmsg
        count := add32 (m.mboxtab b).count 1 }).emit (.sent m.current b mailmsg OK)).setFrame none with
        kernel } : Mail c n (Quetab c)) b s r := by
  have inside : m.inside (Mframe.sends b) m.current = true := by simp [inside, here, Mframe.sends]
  have room := h.places.room sane.settled inside
  have size := h.size
  have start := h.start (by omega)
  have apart : s ≠ r := sane.apart (o := .sender b) (p := .receiver b) ⟨h.sender, .inl state⟩
    ⟨h.receiver, .inl state⟩ (by simp)
  have more : add32 (m.mboxtab b).count 1 = (m.mboxtab b).count + 1 := by
    rw [add32, Nat.mod_eq_of_lt]
    rw [WORD]
    omega
  have place : add32 (m.mboxtab b).start (m.mboxtab b).count = (m.mboxtab b).start + (m.mboxtab b).count := by
    rw [add32, Nat.mod_eq_of_lt]
    rw [WORD]
    omega
  rw [more, place]
  refine ⟨?_, ?_, ?_, ?_, ?_, ?_, ?_⟩ <;>
    simp only [setMbox, emit, setFrame, Function.update_self]
  · exact h.sender
  · exact h.receiver
  · rw [inside_update (m := m) (f := none) rfl]
    have left := (h.places.leave sane.settled inside).spared
      ((step_touches (.inr (.inl rfl)) calls.action).spares apart)
    have count : ((m.mboxtab b).max - (m.mboxtab b).count - 1 : Int) =
        (m.mboxtab b).max - ((m.mboxtab b).count + 1 : Nat) := by
      push_cast
      omega
    exact count ▸ left
  · rw [inside_same (m := m) (f := none) rfl (by simp [here, Mframe.receives])]
    exact_mod_cast h.messages.signal sane.settled calls.action
  · exact size
  · exact fun _ => start
  · simp only [sentInto, takenFrom, if_true]
    rw [ring_push (by omega), h.stored, List.append_assoc]

theorem Box.receive (sane : m.Sane B) {b s r : Nat} (h : m.Box b s r)
    {kernel : Kernel c (Quetab c)} (here : m.frames m.current = some (.receive b))
    (state : (m.mboxtab b).state = .alloc) (calls : Calls m.kernel (.signal s) kernel) :
    Box ({ ((m.setMbox b { m.mboxtab b with
        start := add32 (m.mboxtab b).start 1 % (m.mboxtab b).max
        count := sub32 (m.mboxtab b).count 1 }).emit (.received m.current b
          ((m.mboxtab b).cells (m.mboxtab b).start))).setFrame none with kernel } : Mail c n (Quetab c))
      b s r := by
  have inside : m.inside (Mframe.receives b) m.current = true := by simp [inside, here, Mframe.receives]
  have room := h.messages.room sane.settled inside
  have bound := h.places.nonneg sane.settled
  have size := h.size
  have start := h.start (by omega)
  have apart : r ≠ s := sane.apart (o := .receiver b) (p := .sender b) ⟨h.receiver, .inl state⟩
    ⟨h.sender, .inl state⟩ (by simp)
  obtain ⟨count, some⟩ : ∃ count, (m.mboxtab b).count = count + 1 := ⟨(m.mboxtab b).count - 1, by omega⟩
  have fewer : sub32 (m.mboxtab b).count 1 = count := by
    rw [some, sub32, WORD]
    omega
  have next : add32 (m.mboxtab b).start 1 = (m.mboxtab b).start + 1 := by
    rw [add32, Nat.mod_eq_of_lt]
    rw [WORD]
    omega
  rw [fewer, next]
  refine ⟨?_, ?_, ?_, ?_, ?_, ?_, ?_⟩ <;>
    simp only [setMbox, emit, setFrame, Function.update_self]
  · exact h.sender
  · exact h.receiver
  · rw [inside_same (m := m) (f := none) rfl (by simp [here, Mframe.sends])]
    have places := h.places.signal sane.settled calls.action
    have total : ((m.mboxtab b).max - (m.mboxtab b).count + 1 : Int) = (m.mboxtab b).max - count := by
      rw [some]
      push_cast
      omega
    exact total ▸ places
  · rw [inside_update (m := m) (f := none) rfl]
    have left := (h.messages.leave sane.settled inside).spared
      ((step_touches (.inr (.inl rfl)) calls.action).spares apart)
    have total : ((m.mboxtab b).count - 1 : Int) = count := by
      rw [some]
      push_cast
      omega
    exact total ▸ left
  · exact size
  · exact fun positive => Nat.mod_lt _ positive
  · simp only [sentInto, takenFrom, if_true]
    rw [h.stored, some, ring_pop start, List.append_assoc]
    rfl

theorem Box.beginSend (sane : m.Sane B) {b s r : Nat} (h : m.Box b s r) {mailmsg : Int}
    {kernel : Kernel c (Quetab c)} (outside : m.frames m.current = none)
    (state : (m.mboxtab b).state = .alloc) (calls : Calls m.kernel (.wait s) kernel) :
    Box ({ (m.emit (.began m.current b)).setFrame (some (.send b mailmsg)) with kernel } :
      Mail c n (Quetab c)) b s r := by
  have apart : r ≠ s := sane.apart (o := .receiver b) (p := .sender b) ⟨h.receiver, .inl state⟩
    ⟨h.sender, .inl state⟩ (by simp)
  refine ⟨h.sender, h.receiver, ?_, ?_, h.size, h.start, h.stored⟩
  · rw [inside_update (m := m) (f := some (.send b mailmsg)) rfl]
    have entered := h.places.enter sane.settled (by simp [inside, outside]) calls.action
    exact entered.congr (by simp [Mframe.sends])
  · rw [inside_same (m := m) (f := some (.send b mailmsg)) rfl (by simp [outside, Mframe.receives])]
    exact h.messages.spared ((step_touches (.inl rfl) calls.action).spares apart)

theorem Box.beginReceive (sane : m.Sane B) {b s r : Nat} (h : m.Box b s r)
    {kernel : Kernel c (Quetab c)} (outside : m.frames m.current = none)
    (state : (m.mboxtab b).state = .alloc) (calls : Calls m.kernel (.wait r) kernel) :
    Box ({ (m.emit (.began m.current b)).setFrame (some (.receive b)) with kernel } :
      Mail c n (Quetab c)) b s r := by
  have apart : s ≠ r := sane.apart (o := .sender b) (p := .receiver b) ⟨h.sender, .inl state⟩
    ⟨h.receiver, .inl state⟩ (by simp)
  refine ⟨h.sender, h.receiver, ?_, ?_, h.size, h.start, h.stored⟩
  · rw [inside_same (m := m) (f := some (.receive b)) rfl (by simp [outside, Mframe.sends])]
    exact h.places.spared ((step_touches (.inl rfl) calls.action).spares apart)
  · rw [inside_update (m := m) (f := some (.receive b)) rfl]
    have entered := h.messages.enter sane.settled (by simp [inside, outside]) calls.action
    exact entered.congr (by simp [Mframe.receives])

theorem Sane.published (sane : m.Sane B) {b s r : Nat} (here : m.frames m.current = some (.allocReceiver b))
    (sender : (m.mboxtab b).sender = some s) (receiver : (m.mboxtab b).receiver = some r)
    (vacant : m.Vacant b) :
    Box (((m.setMbox b { m.mboxtab b with state := .alloc }).emit (.allocated b)).setFrame
      (some (.tabDone b))) b s r := by
  obtain ⟨count, start, size, senders, receivers⟩ := (sane.working here).forming
  refine ⟨?_, ?_, ?_, ?_, ?_, ?_, ?_⟩ <;>
    simp only [setMbox, emit, setFrame, Function.update_self]
  · exact sender
  · exact receiver
  · rw [inside_same (m := m) (f := some (.tabDone b)) rfl (by simp [here, Mframe.sends]), count]
    exact (by simpa using senders s sender : m.kernel.Gate s (fun _ => false)
      ((m.mboxtab b).max - (0 : Nat) : Int)).congr fun t => (vacant t).1
  · rw [inside_same (m := m) (f := some (.tabDone b)) rfl (by simp [here, Mframe.receives]), count]
    exact (receivers r receiver).congr fun t => (vacant t).2
  · exact size
  · rw [start]
    exact id
  · simp [sentInto, takenFrom, count]

theorem Sane.boxes_kept (sane : m.Sane B) {b : Nat} (watched : B b) (state' : (m'.mboxtab b).state = .alloc)
    (tab : ∃ msgs, m'.mboxtab b = { m.mboxtab b with msgs })
    (frames : m'.frames = Function.update m.frames m.current f)
    (sends : f.any (Mframe.sends b) = (m.frames m.current).any (Mframe.sends b))
    (receives : f.any (Mframe.receives b) = (m.frames m.current).any (Mframe.receives b))
    (spares : ∀ s o, o = .sender b ∨ o = .receiver b → m.Owns s o → Spares s m.kernel m'.kernel)
    (sent : sentInto b m'.log = sentInto b m.log) (taken : takenFrom b m'.log = takenFrom b m.log) :
    ∃ s r, m'.Box b s r := by
  have state : (m.mboxtab b).state = .alloc := by
    obtain ⟨msgs, eq⟩ := tab
    rwa [eq] at state'
  obtain ⟨s, r, h⟩ := sane.boxes b watched state
  exact ⟨s, r, h.kept state tab (inside_same frames sends) (inside_same frames receives) spares sent taken⟩

theorem Move.boxes (sane : m.Sane B) (move : m.Move B m') (b : Nat) (watched : B b)
    (state' : (m'.mboxtab b).state = .alloc) : ∃ s r, m'.Box b s r := by
  cases move with
  | bystand settled quiet spares =>
      obtain ⟨s, r, h⟩ := sane.boxes b watched state'
      exact ⟨s, r, h.kept state' ⟨_, rfl⟩ rfl rfl (fun s o _ own => spares s o own) rfl rfl⟩
  | @enter f kernel outside queued forming calls =>
      have table : f.table = true := by cases f <;> simp_all [Mframe.queued, Mframe.table]
      refine sane.boxes_kept watched state' ⟨_, rfl⟩ rfl ?_ ?_ ?_ rfl rfl
      · simp [outside, Mframe.not_sends table]
      · simp [outside, Mframe.not_receives table]
      · exact sane.spares_of (step_touches (.inl rfl) calls.action) m.owns_table (by simp) (by simp)
  | leave here calls =>
      refine sane.boxes_kept watched state' ⟨_, rfl⟩ rfl ?_ ?_ ?_ rfl rfl
      · simp [here, Mframe.sends]
      · simp [here, Mframe.receives]
      · exact sane.spares_of (step_touches (.inr (.inl rfl)) calls.action) m.owns_table (by simp) (by simp)
  | fail =>
      obtain ⟨s, r, h⟩ := sane.boxes b watched state'
      exact ⟨s, r, h.kept state' ⟨_, rfl⟩ rfl rfl (fun s o _ own => ⟨rfl, rfl⟩) rfl rfl⟩
  | @beginSend box s mailmsg kernel outside state sender calls =>
      by_cases this : b = box
      · subst this
        obtain ⟨s', r, h⟩ := sane.boxes b watched state
        obtain rfl : s' = s := Option.some.inj (h.sender.symm.trans sender)
        exact ⟨s', r, h.beginSend sane outside state calls⟩
      · refine sane.boxes_kept watched state' ⟨_, rfl⟩ rfl ?_ ?_ ?_ rfl rfl
        · simp [outside, Mframe.sends, Ne.symm this]
        · simp [outside, Mframe.receives]
        · exact sane.spares_of (step_touches (.inl rfl) calls.action) (p := .sender box) ⟨sender, .inl state⟩
            (by simp [Ne.symm this]) (by simp)
  | @beginReceive box r kernel outside state receiver calls =>
      by_cases this : b = box
      · subst this
        obtain ⟨s, r', h⟩ := sane.boxes b watched state
        obtain rfl : r' = r := Option.some.inj (h.receiver.symm.trans receiver)
        exact ⟨s, r', h.beginReceive sane outside state calls⟩
      · refine sane.boxes_kept watched state' ⟨_, rfl⟩ rfl ?_ ?_ ?_ rfl rfl
        · simp [outside, Mframe.sends]
        · simp [outside, Mframe.receives, Ne.symm this]
        · exact sane.spares_of (step_touches (.inl rfl) calls.action) (p := .receiver box)
            ⟨receiver, .inl state⟩ (by simp) (by simp [Ne.symm this])
  | @send box r mailmsg kernel here state receiver calls =>
      by_cases this : b = box
      · subst this
        obtain ⟨s, r', h⟩ := sane.boxes b watched state
        obtain rfl : r' = r := Option.some.inj (h.receiver.symm.trans receiver)
        exact ⟨s, r', h.send sane here state calls⟩
      · refine sane.boxes_kept watched state' ⟨_, Function.update_of_ne this _ _⟩ rfl ?_ ?_ ?_ ?_ rfl
        · simp [here, Mframe.sends, Ne.symm this]
        · simp [here, Mframe.receives]
        · exact sane.spares_of (step_touches (.inr (.inl rfl)) calls.action) (p := .receiver box)
            ⟨receiver, .inl state⟩ (by simp) (by simp [Ne.symm this])
        · exact if_neg (Ne.symm this)
  | @receive box s kernel here state sender calls =>
      by_cases this : b = box
      · subst this
        obtain ⟨s', r, h⟩ := sane.boxes b watched state
        obtain rfl : s' = s := Option.some.inj (h.sender.symm.trans sender)
        exact ⟨s', r, h.receive sane here state calls⟩
      · refine sane.boxes_kept watched state' ⟨_, Function.update_of_ne this _ _⟩ rfl ?_ ?_ ?_ rfl ?_
        · simp [here, Mframe.sends]
        · simp [here, Mframe.receives, Ne.symm this]
        · exact sane.spares_of (step_touches (.inr (.inl rfl)) calls.action) (p := .sender box)
            ⟨sender, .inl state⟩ (by simp [Ne.symm this]) (by simp)
        · exact if_neg (Ne.symm this)
  | @refuse box f here op state =>
      have other : box ≠ b := by
        rintro rfl
        cases state.symm.trans state'
      refine sane.boxes_kept watched state' ⟨_, rfl⟩ rfl ?_ ?_ (fun _ _ _ _ => ⟨rfl, rfl⟩) rfl rfl
      · rw [here]
        cases f <;> simp_all [Mframe.sends, Mframe.receives]
      · rw [here]
        cases f <;> simp_all [Mframe.sends, Mframe.receives]
  | @plan _ f f' here table busy works keeps forming settled aside frames sem log boxes =>
      simp only [Mframe.busy, Bool.and_eq_true] at busy
      refine sane.boxes_kept watched state' (boxes b) frames ?_ ?_ (fun s _ _ _ => aside.spares s)
        (by rw [log]) (by rw [log])
      · rw [here, Option.any_some, Option.any_some, Mframe.not_sends table, Mframe.not_sends busy.1]
      · rw [here, Option.any_some, Option.any_some, Mframe.not_receives table, Mframe.not_receives busy.1]
  | @makeSender box count kernel here calls =>
      have other : b ≠ box := by
        rintro rfl
        have free := (sane.working here).works b (by simp [Mframe.works])
        simp [setMbox, setFrame, free] at state'
      refine sane.boxes_kept watched state' ⟨_, Function.update_of_ne other _ _⟩ rfl ?_ ?_ ?_ rfl rfl
      · simp [here, Mframe.sends]
      · simp [here, Mframe.receives]
      · exact fun s o _ own => calls.made_spares (sane.used s o own)
  | @makeReceiver box kernel here calls =>
      have other : b ≠ box := by
        rintro rfl
        have free := (sane.working here).works b (by simp [Mframe.works])
        simp [setMbox, setFrame, free] at state'
      refine sane.boxes_kept watched state' ⟨_, Function.update_of_ne other _ _⟩ rfl ?_ ?_ ?_ rfl rfl
      · simp [here, Mframe.sends]
      · simp [here, Mframe.receives]
      · exact fun s o _ own => calls.made_spares (sane.used s o own)
  | @publish box s r here sender receiver vacant =>
      by_cases this : b = box
      · subst this
        exact ⟨s, r, sane.published here sender receiver (vacant watched)⟩
      · refine sane.boxes_kept watched state' ⟨_, Function.update_of_ne this _ _⟩ rfl ?_ ?_
          (fun _ _ _ _ => ⟨rfl, rfl⟩) ?_ ?_
        · simp [here, Mframe.sends]
        · simp [here, Mframe.receives]
        · exact if_neg (Ne.symm this)
        · exact if_neg (Ne.symm this)
  | @unmark box here state =>
      have other : b ≠ box := by
        rintro rfl
        simp [setMbox, emit, setFrame] at state'
      refine sane.boxes_kept watched state' ⟨_, Function.update_of_ne other _ _⟩ rfl ?_ ?_
        (fun _ _ _ _ => ⟨rfl, rfl⟩) rfl rfl
      · simp [here, Mframe.sends]
      · simp [here, Mframe.receives]
  | @destroy o f f' s kernel here owner sem busy works keeps forming calls =>
      have table := Mframe.busy_of_keeps owner
      have dead := sane.not_live here owner
      simp only [Mframe.busy, Bool.and_eq_true] at busy table
      refine sane.boxes_kept watched state' ⟨_, rfl⟩ rfl ?_ ?_ ?_ rfl rfl
      · rw [here, Option.any_some, Option.any_some, Mframe.not_sends table.1, Mframe.not_sends busy.1]
      · rw [here, Option.any_some, Option.any_some, Mframe.not_receives table.1, Mframe.not_receives busy.1]
      · refine sane.spares_of (step_touches (.inr (.inr rfl)) calls.action) ⟨sem, holds_of_frame here owner⟩ ?_ ?_
        · rintro rfl
          exact dead state'
        · rintro rfl
          exact dead state'

theorem op_cases {R : Mframe → Bool} {t : Int} (op : m'.inside P t = true ∨ m'.inside R t = true)
    (frames : m'.frames = Function.update m.frames m.current f) :
    (t = m.current ∧ (f.any P = true ∨ f.any R = true)) ∨
      (t ≠ m.current ∧ (m.inside P t = true ∨ m.inside R t = true)) := by
  rw [inside_update frames, inside_update frames] at op
  by_cases this : t = m.current
  · subst this
    exact .inl ⟨rfl, by simpa using op⟩
  · exact .inr ⟨this, by simpa [this] using op⟩

theorem Sane.stale_of (sane : m.Sane B) {b : Nat} {t : Int} (watched : B b)
    (op : m'.inside (Mframe.sends b) t = true ∨ m'.inside (Mframe.receives b) t = true)
    (old : outdated t b m'.log = true) (frames : m'.frames = Function.update m.frames m.current f)
    (outside : f.any (Mframe.sends b) = false ∧ f.any (Mframe.receives b) = false)
    (log : outdated t b m'.log = true → outdated t b m.log = true) : (m.mboxtab b).state = .free := by
  rcases op_cases op frames with ⟨-, here⟩ | ⟨-, there⟩
  · rw [outside.1, outside.2] at here
    simp at here
  · exact sane.stale t b watched there (log old)

theorem Sane.stale_begun (sane : m.Sane B) {b box : Nat} {t : Int} (watched : B b)
    (op : m'.inside (Mframe.sends b) t = true ∨ m'.inside (Mframe.receives b) t = true)
    (old : outdated t b m'.log = true) (frames : m'.frames = Function.update m.frames m.current f)
    (begins : f.any (Mframe.sends b) = true ∨ f.any (Mframe.receives b) = true → box = b)
    (log : m'.log = .began m.current box :: m.log) : (m.mboxtab b).state = .free := by
  rw [log] at old
  rcases op_cases op frames with ⟨rfl, here⟩ | ⟨other, there⟩
  · simp [outdated, begins here] at old
  · exact sane.stale t b watched there (by simpa [outdated, Ne.symm other] using old)

theorem Move.stale (sane : m.Sane B) (move : m.Move B m') (t : Int) (b : Nat) (watched : B b)
    (op : m'.inside (Mframe.sends b) t = true ∨ m'.inside (Mframe.receives b) t = true)
    (old : outdated t b m'.log = true) : (m'.mboxtab b).state = .free := by
  have calm : ∀ {f : Mframe}, f.table = true →
      (some f).any (Mframe.sends b) = false ∧ (some f).any (Mframe.receives b) = false :=
    fun table => ⟨Mframe.not_sends table, Mframe.not_receives table⟩
  cases move with
  | bystand settled quiet spares => exact sane.stale t b watched op old
  | @enter f kernel outside queued forming calls =>
      have table : f.table = true := by cases f <;> simp_all [Mframe.queued, Mframe.table]
      exact sane.stale_of watched op old rfl (calm table) id
  | leave here calls => exact sane.stale_of watched op old rfl ⟨rfl, rfl⟩ id
  | fail => exact sane.stale t b watched op old
  | beginSend outside state sender calls =>
      exact sane.stale_begun watched op old rfl (by simp [Mframe.sends, Mframe.receives]) rfl
  | beginReceive outside state receiver calls =>
      exact sane.stale_begun watched op old rfl (by simp [Mframe.sends, Mframe.receives]) rfl
  | send here state receiver calls =>
      have free := sane.stale_of watched op old rfl ⟨rfl, rfl⟩ id
      refine Eq.trans ?_ free
      apply state_setMbox
      · rfl
      · rfl
  | receive here state sender calls =>
      have free := sane.stale_of watched op old rfl ⟨rfl, rfl⟩ id
      refine Eq.trans ?_ free
      apply state_setMbox
      · rfl
      · rfl
  | refuse here op' state => exact sane.stale_of watched op old rfl ⟨rfl, rfl⟩ id
  | plan here table busy works keeps forming settled aside frames sem log boxes =>
      simp only [Mframe.busy, Bool.and_eq_true] at busy
      have free := sane.stale_of watched op old frames (calm busy.1) (by rw [log]; exact id)
      obtain ⟨msgs, eq⟩ := boxes b
      rw [eq]
      exact free
  | makeSender here calls =>
      have free := sane.stale_of watched op old rfl (calm rfl) id
      refine Eq.trans ?_ free
      apply state_setMbox
      · rfl
      · rfl
  | makeReceiver here calls =>
      have free := sane.stale_of watched op old rfl (calm rfl) id
      refine Eq.trans ?_ free
      apply state_setMbox
      · rfl
      · rfl
  | @publish box s r here sender receiver vacant =>
      have other : b ≠ box := by
        rintro rfl
        rcases op_cases (m := m) op rfl with ⟨-, here⟩ | ⟨-, there⟩
        · simp [Mframe.sends, Mframe.receives] at here
        · simp [vacant watched t] at there
      have free := sane.stale_of watched op old rfl (calm rfl) id
      simpa [setMbox, emit, setFrame, other] using free
  | @unmark box here state =>
      by_cases this : b = box
      · simp [setMbox, emit, setFrame, this]
      · have before : outdated t b (.freed box :: m.log) = true → outdated t b m.log = true := by
          simp [outdated, Ne.symm this]
        have free := sane.stale_of watched op old rfl (calm rfl) before
        simpa [setMbox, emit, setFrame, this] using free
  | destroy here owner sem busy works keeps forming calls =>
      simp only [Mframe.busy, Bool.and_eq_true] at busy
      exact sane.stale_of watched op old rfl (calm busy.1) id

theorem Move.kernel (sane : m.Sane B) (move : m.Move B m') : m'.kernel.Settled ∧ m'.kernel.Quiet := by
  cases move with
  | bystand settled quiet spares => exact ⟨settled, quiet⟩
  | refuse here op state => exact ⟨sane.settled, sane.quiet⟩
  | plan here table busy works keeps forming settled aside frames sem log boxes =>
      exact ⟨settled, aside.quiet sane.quiet⟩
  | fail => exact ⟨sane.settled, sane.quiet⟩
  | publish here sender receiver vacant => exact ⟨sane.settled, sane.quiet⟩
  | unmark here state => exact ⟨sane.settled, sane.quiet⟩
  | enter _ _ _ calls | leave _ calls | beginSend _ _ _ calls | beginReceive _ _ _ calls
  | send _ _ _ calls | receive _ _ _ calls | makeSender _ calls | makeReceiver _ calls
  | destroy _ _ _ _ _ _ _ calls => exact ⟨calls.settled, calls.quiet⟩

theorem Move.frames (move : m.Move B m') {t : Int} (other : t ≠ m.current) : m'.frames t = m.frames t := by
  cases move with
  | bystand settled quiet spares => rfl
  | fail => rfl
  | plan here table busy works keeps forming settled aside frames sem log boxes =>
      rw [frames, Function.update_of_ne other]
  | _ => exact Function.update_of_ne other _ _

theorem Move.sane (sane : m.Sane B) (move : m.Move B m') : m'.Sane B := by
  obtain ⟨settled, quiet⟩ := move.kernel sane
  obtain ⟨table, queue⟩ := move.table sane
  obtain ⟨used, single⟩ := move.owned sane
  have working := move.working sane
  refine ⟨settled, quiet, ?_, table, queue, used, single, ?_, fun t f frame => (working t f frame).forming,
    move.sems sane, move.boxes sane, move.stale sane⟩
  · intro t present
    by_cases this : t = m.current
    · rw [this]
      exact sane.settled.running.2
    · rw [move.frames this] at present
      exact sane.valid t present
  · intro t box works
    cases frame : m'.frames t with
    | none => simp [inside, frame] at works
    | some f => exact (working t f frame).works box (by simpa [inside, frame] using works)

/-- What is asked of a run: other code leaves the semaphores alone, the null thread stays out of
mailboxes, a buffer fits into memory, and when an index in `B` is allocated, no thread is left in a
mailbox that had the index before. -/
def allowed {Q : Type} (B : Nat → Prop) (m : Mail c n Q) : MailAct → Prop
  | .kernel x => m.kernel.untimedCalls x = true ∧ m.bystander x
  | .mailboxAlloc count => m.current ≠ NULLTHREAD ∧ 4 * count.toNat < WORD
  | .mailboxFree _ | .mailboxSend _ _ | .mailboxReceive _ => m.current ≠ NULLTHREAD
  | .go => ∀ box, B box → m.frames m.current = some (.allocReceiver box) →
      (m.mboxtab box).sender ≠ none → (m.mboxtab box).receiver ≠ none →
      ∀ t, m.inside (Mframe.sends box) t = false ∧ m.inside (Mframe.receives box) t = false

theorem allowed_mono {B' : Nat → Prop} (fewer : ∀ box, B' box → B box) {a : MailAct}
    (allowed : m.allowed B a) : m.allowed B' a := by
  cases a with
  | go => exact fun box watched => allowed box (fewer box watched)
  | _ => exact allowed

def begins {Q : Type} [Queues Q] (m : Mail c n Q) : MailAct → Option (Mail c n Q)
  | .mailboxAlloc count => m.call (.wait m.mboxtabsem) (some (.alloc count))
  | .mailboxFree box =>
      if box < n then m.call (.wait m.mboxtabsem) (some (.free box))
      else some (m.emit (.ended m.current SYSERR))
  | .mailboxSend box mailmsg => m.mailboxSend box mailmsg
  | .mailboxReceive box => m.mailboxReceive box
  | _ => none

theorem step_outside {a : MailAct} (action : m.step a = some m') (other : ∀ x, a ≠ .kernel x)
    (going : a ≠ .go) :
    m.kernel.stack m.current = [] ∧ m.frames m.current = none ∧ m.begins a = some m' := by
  cases a with
  | kernel x => exact absurd rfl (other x)
  | go => exact absurd rfl going
  | _ =>
      simp only [Mail.step] at action
      split at action
      · rename_i stack
        cases frame : m.frames m.current with
        | none => exact ⟨stack, rfl, by simpa [frame, begins] using action⟩
        | some f => simp [frame] at action
      · cases action

theorem step_go (action : m.step .go = some m') :
    m.kernel.stack m.current = [] ∧ ∃ f, m.frames m.current = some f ∧ m.goOn f = some m' := by
  simp only [Mail.step] at action
  split at action
  · rename_i stack
    cases frame : m.frames m.current with
    | none => simp [frame] at action
    | some f => exact ⟨stack, f, rfl, by simpa [frame] using action⟩
  · cases action

theorem call_some {call : Call} (action : m.call call f = some m') :
    ∃ kernel, Kernel.step (.call call) m.kernel = some kernel ∧ m' = { m.setFrame f with kernel } := by
  simp only [Mail.call, Option.map_eq_some_iff] at action
  obtain ⟨kernel, step, rfl⟩ := action
  exact ⟨kernel, step, rfl⟩

theorem callSem_some {op : Nat → Call} {sem : Option Nat} (action : m.callSem sem op f = some m') :
    (sem = none ∧ m' = m.setFrame f) ∨ ∃ s kernel, sem = some s ∧
      Kernel.step (.call (op s)) m.kernel = some kernel ∧ m' = { m.setFrame f with kernel } := by
  cases sem with
  | none => exact .inl ⟨rfl, (Option.some.inj action).symm⟩
  | some s =>
      obtain ⟨kernel, step, eq⟩ := call_some action
      exact .inr ⟨s, kernel, rfl, step, eq⟩

namespace Sane

theorem waits (sane : m.Sane B) {kernel : Kernel c (Quetab c)} (thread : m.current ≠ NULLTHREAD)
    (action : Kernel.step (.call (.wait s)) m.kernel = some kernel) : Calls m.kernel (.wait s) kernel :=
  ⟨action, sane.settled.step (by simpa [untimedCalls, nullRuns, Call.untimed, Call.basic] using .inl thread) action,
    (step_touches (.inl rfl) action).quiet sane.quiet⟩

theorem signals (sane : m.Sane B) {kernel : Kernel c (Quetab c)}
    (action : Kernel.step (.call (.signal s)) m.kernel = some kernel) : Calls m.kernel (.signal s) kernel :=
  ⟨action, sane.settled.step (by simp [untimedCalls, nullRuns, Call.untimed, Call.basic, Call.blocks]) action,
    (step_touches (.inr (.inl rfl)) action).quiet sane.quiet⟩

theorem frees (sane : m.Sane B) {kernel : Kernel c (Quetab c)}
    (action : Kernel.step (.call (.semfree s)) m.kernel = some kernel) : Calls m.kernel (.semfree s) kernel :=
  ⟨action, sane.settled.step (by simp [untimedCalls, nullRuns, Call.untimed, Call.basic, Call.blocks]) action,
    (step_touches (.inr (.inr rfl)) action).quiet sane.quiet⟩

theorem makes (sane : m.Sane B) {kernel : Kernel c (Quetab c)} {v : Int}
    (action : Kernel.step (.call (.semcreate v)) m.kernel = some kernel) :
    Calls m.kernel (.semcreate v) kernel := by
  refine ⟨action, sane.settled.step (by simp [untimedCalls, nullRuns, Call.untimed, Call.basic, Call.blocks]) action, ?_⟩
  cases made : (m.kernel.semcreate v).2 with
  | none => exact (step_semcreate_none made action).quiet sane.quiet
  | some s => exact (step_semcreate made action).1.quiet sane.quiet

theorem bystands (sane : m.Sane B) {x : Act} {kernel : Kernel c (Quetab c)}
    (calls : m.kernel.untimedCalls x = true) (aloof : m.bystander x)
    (action : Kernel.step x m.kernel = some kernel) : m.Move B { m with kernel } := by
  have settled := sane.settled.step calls action
  have apart : ∀ s, (∀ o, ¬ m.Owns s o) → Touches s m.kernel kernel → m.Move B { m with kernel } := by
    intro s nobody touches
    refine .bystand settled (touches.quiet sane.quiet) fun u o own => touches.spares ?_
    rintro rfl
    exact nobody o own
  have rest : aloofActs x = true → m.Move B { m with kernel } := by
    intro aloof
    have aside := step_aside sane.quiet aloof action
    exact .bystand settled (aside.quiet sane.quiet) fun s _ _ => aside.spares s
  cases x with
  | call call =>
      cases call with
      | wait s => exact apart s aloof (step_touches (.inl rfl) action)
      | signal s => exact apart s aloof (step_touches (.inr (.inl rfl)) action)
      | semfree s => exact apart s aloof (step_touches (.inr (.inr rfl)) action)
      | semcreate v =>
          have calls := sane.makes action
          exact .bystand settled calls.quiet fun s o own => calls.made_spares (sane.used s o own)
      | _ => exact rest aloof
  | cont => exact rest aloof
  | tick => exact rest aloof

theorem plans (sane : m.Sane B) {f f' : Mframe} (here : m.frames m.current = some f)
    (table : f.table = true) (busy : f'.busy = true)
    (works : ∀ box, f'.works box = true → (m.mboxtab box).state = .free)
    (keeps : ∀ o, f'.keeps o = true → f.keeps o = true) (forming : m.Forming f') :
    m.Move B (m.setFrame (some f')) :=
  .plan here table busy works keeps forming sane.settled (.refl _) rfl rfl rfl fun _ => ⟨_, rfl⟩

theorem scans (sane : m.Sane B) {count : UInt32} (here : m.frames m.current = some (.alloc count))
    (action : m.allocScan count = some m') : m.Move B m' := by
  obtain ⟨⟨i, found⟩, scan⟩ : ∃ r, rotate n (fun j => (m.mboxtab j).state = .free) n m.nextmbx = r :=
    ⟨_, rfl⟩
  have keeps : ∀ o v, (Mframe.tabDone v).keeps o = true → (Mframe.alloc count).keeps o = true := by
    intro o v keep
    cases o <;> cases keep
  simp only [allocScan, scan] at action
  cases found with
  | none =>
      obtain rfl := Option.some.inj action
      exact .plan here rfl rfl (by simp [Mframe.works]) (fun o => keeps o _) trivial sane.settled (.refl _)
        rfl rfl rfl fun _ => ⟨_, rfl⟩
  | some box =>
      have pos : 0 < n := by
        rcases Nat.eq_zero_or_pos n with rfl | pos
        · simp [rotate] at scan
        · exact pos
      have free : (m.mboxtab box).state = .free := by simpa using (rotate_some pos scan).2
      simp only at action
      split at action
      · cases action
      · obtain rfl := Option.some.inj action
        refine .plan here rfl rfl (by simp [Mframe.works]) (fun o => keeps o _) trivial sane.settled (.refl _)
          rfl rfl rfl fun b => ?_
        by_cases this : b = box
        · subst this
          exact ⟨_, Function.update_self _ _ _⟩
        · exact ⟨_, Function.update_of_ne this _ _⟩
      · obtain rfl := Option.some.inj action
        have forming : m.Forming (.alloc count) := sane.forming _ _ here
        refine .plan here rfl (show (Mframe.allocMemory box count).busy = true from rfl) ?_ ?_ forming (sane.settled.heap _)
          (.of rfl (fun _ => rfl) rfl)
          rfl rfl rfl fun b => ?_
        · rintro b work
          obtain rfl : box = b := by simpa [Mframe.works] using work
          exact free
        · intro o keep
          cases o <;> cases keep
        · by_cases this : b = box
          · subst this
            exact ⟨_, Function.update_self _ _ _⟩
          · exact ⟨_, Function.update_of_ne this _ _⟩

theorem unbuffers (sane : m.Sane B) {box : Nat} {f f' : Mframe} (here : m.frames m.current = some f)
    (action : m.freeMsgs box f' = some m') (table : f.table = true) (busy : f'.busy = true)
    (works : ∀ box, f'.works box = true → (m.mboxtab box).state = .free)
    (keeps : ∀ o, f'.keeps o = true → f.keeps o = true) (forming : m.Forming f') : m.Move B m' := by
  simp only [freeMsgs] at action
  split at action
  · cases action
  · obtain rfl := Option.some.inj action
    exact .plan here table busy works keeps forming (sane.settled.heap _) (.of rfl (fun _ => rfl) rfl)
      rfl rfl rfl fun _ => ⟨_, rfl⟩

theorem destroys (sane : m.Sane B) {f f' : Mframe} (here : m.frames m.current = some f)
    (action : m.callSem (m.semOf o) .semfree (some f') = some m') (owner : f.keeps o = true)
    (busy : f'.busy = true) (works : ∀ box, f'.works box = true → f.works box = true)
    (keeps : ∀ o', f'.keeps o' = true → f.keeps o' = true ∧ o' ≠ o) (forming : m.Forming f') :
    m.Move B m' := by
  have table := Mframe.busy_of_keeps owner
  simp only [Mframe.busy, Bool.and_eq_true] at table
  rcases callSem_some action with ⟨-, rfl⟩ | ⟨s, kernel, sem, step, rfl⟩
  · refine sane.plans here table.1 busy (fun box work => ?_) (fun o' keep => (keeps o' keep).1) forming
    exact (sane.working here).works box (works box work)
  · exact .destroy here owner sem busy works keeps forming (sane.frees step)

theorem goes (sane : m.Sane B) {f : Mframe} (here : m.frames m.current = some f)
    (allowed : m.allowed B .go) (action : m.goOn f = some m') : m.Move B m' := by
  cases f with
  | send box mailmsg =>
      simp only [goOn, sendWaited] at action
      split at action
      · rename_i state
        obtain ⟨r, receiver⟩ := (sane.sems box state).2
        rcases callSem_some action with ⟨none, -⟩ | ⟨r, kernel, receiver, step, rfl⟩
        · rw [receiver] at none
          cases none
        · exact .send here state receiver (sane.signals step)
      · rename_i state
        obtain rfl := Option.some.inj action
        refine .refuse here (.inl (by simp [Mframe.sends])) ?_
        cases this : (m.mboxtab box).state <;> simp_all
  | receive box =>
      simp only [goOn, receiveWaited] at action
      split at action
      · rename_i state
        obtain ⟨s, sender⟩ := (sane.sems box state).1
        rcases callSem_some action with ⟨none, -⟩ | ⟨s, kernel, sender, step, rfl⟩
        · rw [sender] at none
          cases none
        · exact .receive here state sender (sane.signals step)
      · rename_i state
        obtain rfl := Option.some.inj action
        refine .refuse here (.inr (by simp [Mframe.receives])) ?_
        cases this : (m.mboxtab box).state <;> simp_all
  | alloc count => exact sane.scans here action
  | allocMemory box count =>
      obtain ⟨kernel, step, rfl⟩ := call_some action
      exact .makeSender here (sane.makes step)
  | allocSender box =>
      obtain ⟨kernel, step, rfl⟩ := call_some action
      exact .makeReceiver here (sane.makes step)
  | allocReceiver box =>
      simp only [goOn, allocCheck] at action
      split at action
      · refine sane.unbuffers here action rfl rfl (fun b work => ?_) (fun o keep => ?_) trivial
        · exact (sane.working here).works b (by simpa [Mframe.works] using work)
        · cases o
          · cases keep
          · exact keep
          · exact keep
      · rename_i made
        push Not at made
        obtain ⟨s, sender⟩ := Option.ne_none_iff_exists'.mp made.1
        obtain ⟨r, receiver⟩ := Option.ne_none_iff_exists'.mp made.2
        obtain rfl := Option.some.inj action
        exact .publish here sender receiver fun watched => allowed box watched here made.1 made.2
  | undoSender box =>
      refine sane.destroys (o := .sender box) here action (by simp [Mframe.keeps]) rfl
        (by simp [Mframe.works]) ?_ trivial
      intro o keep
      cases o <;> simp_all [Mframe.keeps]
  | undoReceiver box =>
      refine sane.destroys (o := .receiver box) here action (by simp [Mframe.keeps]) rfl
        (by simp [Mframe.works]) ?_ trivial
      intro o keep
      cases o <;> cases keep
  | free box =>
      simp only [goOn, freeMark] at action
      split at action
      · rename_i state
        obtain rfl := Option.some.inj action
        exact .unmark here state
      · obtain rfl := Option.some.inj action
        refine sane.plans here rfl rfl (by simp [Mframe.works]) (fun o keep => ?_) trivial
        cases o <;> cases keep
  | freeSender box =>
      refine sane.destroys (o := .sender box) here action (by simp [Mframe.keeps]) rfl
        (by simp [Mframe.works]) ?_ trivial
      intro o keep
      cases o <;> simp_all [Mframe.keeps]
  | freeReceiver box =>
      refine sane.destroys (o := .receiver box) here action (by simp [Mframe.keeps]) rfl
        (by simp [Mframe.works]) ?_ trivial
      intro o keep
      cases o <;> cases keep
  | freeMemory box =>
      refine sane.unbuffers here action rfl rfl (by simp [Mframe.works]) (fun o keep => ?_) trivial
      cases o <;> cases keep
  | tabDone v =>
      obtain ⟨kernel, step, rfl⟩ := call_some action
      exact .leave here (sane.signals step)

theorem moves (sane : m.Sane B) {a : MailAct} (allowed : m.allowed B a) (action : m.step a = some m') :
    m.Move B m' := by
  cases a with
  | kernel x =>
      simp only [Mail.step] at action
      split at action
      · obtain ⟨kernel, step, rfl⟩ := Option.map_eq_some_iff.mp action
        exact sane.bystands allowed.1 allowed.2 step
      · cases action
  | mailboxAlloc count =>
      obtain ⟨-, outside, action⟩ := step_outside action (by simp) (by simp)
      obtain ⟨kernel, step, rfl⟩ := call_some action
      exact .enter outside rfl allowed.2 (sane.waits allowed.1 step)
  | mailboxFree box =>
      obtain ⟨-, outside, action⟩ := step_outside action (by simp) (by simp)
      simp only [begins] at action
      split at action
      · obtain ⟨kernel, step, rfl⟩ := call_some action
        exact .enter outside rfl trivial (sane.waits allowed step)
      · obtain rfl := Option.some.inj action
        exact .fail
  | mailboxSend box mailmsg =>
      obtain ⟨-, outside, action⟩ := step_outside action (by simp) (by simp)
      simp only [begins, Mail.mailboxSend] at action
      split at action
      · rename_i used
        obtain ⟨s, sender⟩ := (sane.sems box used.2).1
        rcases callSem_some action with ⟨none, -⟩ | ⟨s, kernel, sender, step, rfl⟩
        · rw [sender] at none
          cases none
        · exact .beginSend outside used.2 sender (sane.waits allowed step)
      · obtain rfl := Option.some.inj action
        exact .fail
  | mailboxReceive box =>
      obtain ⟨-, outside, action⟩ := step_outside action (by simp) (by simp)
      simp only [begins, Mail.mailboxReceive] at action
      split at action
      · rename_i used
        obtain ⟨r, receiver⟩ := (sane.sems box used.2).2
        rcases callSem_some action with ⟨none, -⟩ | ⟨r, kernel, receiver, step, rfl⟩
        · rw [receiver] at none
          cases none
        · exact .beginReceive outside used.2 receiver (sane.waits allowed step)
      · obtain rfl := Option.some.inj action
        exact .fail
  | go =>
      obtain ⟨-, f, here, action⟩ := step_go action
      exact sane.goes here allowed action

end Sane

end

theorem bootMail_sane {B : Nat → Prop} {p : Platform} (sems : 0 < c.nsem) : (bootMail c n p).Sane B := by
  obtain ⟨fresh, -⟩ := sysinit_fresh (c := c) p (⟨fun _ => ⟨0, 0, 0⟩⟩ : Quetab c)
  have free : ∀ s, ((boot c p).semtab s).state = .free := by
    intro s
    rw [boot, fresh.semtab]
    simp only
    split <;> rfl
  obtain ⟨s, made⟩ := semcreate_some (n := 1) (fun s _ => free s) sems (by decide)
  have table : (bootMail c n p).mboxtabsem = s := by simp [bootMail, made]
  have settled : (bootMail c n p).kernel.Settled := (boot_settled c p).semcreate 1
  obtain ⟨-, bound, -, used, count⟩ := semcreate_effect made
  have gate := Gate.fresh (k := (bootMail c n p).kernel) settled bound used count (by decide)
  have owner : ∀ s o, (bootMail c n p).Owns s o → o = .table := by
    rintro s (_ | box | box) ⟨-, held⟩
    · rfl
    · simp [holds, live, inside, bootMail] at held
    · simp [holds, live, inside, bootMail] at held
  refine ⟨settled, ?_, by simp [bootMail], ?_, ?_, ?_, ?_, ?_, by simp [bootMail], ?_, ?_, ?_⟩
  · intro t f member
    have stack : (bootMail c n p).kernel.stack = fun _ => [] :=
      (semcreate_frame (boot c p) 1).1.trans fresh.stack
    simp [stack] at member
  · rw [table]
    exact gate.congr fun _ => rfl
  · rw [table]
    exact fun ids order t member => gate.queue ids order t member
  · intro u o own
    obtain rfl := owner u o own
    obtain rfl : (bootMail c n p).mboxtabsem = u := Option.some.inj own.1
    rw [table]
    exact gate.good
  · intro u o o' own own'
    rw [owner u o own, owner u o' own']
  · simp [inside, bootMail]
  · simp [bootMail]
  · simp [bootMail]
  · simp [inside, bootMail]

section
variable {m} {B : Nat → Prop} {p : Platform}

theorem sane_of_reach (sems : 0 < c.nsem) (reach : Lib.Reach step (allowed B) (bootMail c n p) m) :
    m.Sane B :=
  reach.invariant (P := fun m => m.Sane B) (bootMail_sane sems)
    fun _ _ _ sane allowed action => (sane.moves allowed action).sane sane

/-- A thread that was in a mailbox when it was freed gets nothing to do with the next one. -/
structure ReuseSafe (m : Mail c n (Quetab c)) : Prop where
  bounded : ∀ box, (m.mboxtab box).state = .alloc → (m.mboxtab box).count ≤ (m.mboxtab box).max
  refused : ∀ f box, m.frames m.current = some f → f.sends box = true ∨ f.receives box = true →
    outdated m.current box m.log = true → m.kernel.stack m.current = [] →
    m.step .go = some ((m.emit (.refused m.current box SYSERR)).setFrame none)

theorem Sane.count_le (sane : m.Sane B) {box : Nat} (watched : B box)
    (state : (m.mboxtab box).state = .alloc) : (m.mboxtab box).count ≤ (m.mboxtab box).max := by
  obtain ⟨s, r, h⟩ := sane.boxes box watched state
  have := h.places.nonneg sane.settled
  omega

theorem Sane.reuseSafe (sane : m.Sane fun _ => True) : m.ReuseSafe := by
  refine ⟨fun box state => sane.count_le trivial state, ?_⟩
  intro f box here op old stack
  have free := sane.stale m.current box trivial (by simpa [inside, here] using op) old
  cases f with
  | send b mailmsg =>
      obtain rfl : b = box := by simpa [Mframe.sends, Mframe.receives] using op
      simp [Mail.step, stack, here, goOn, sendWaited, free]
  | receive b =>
      obtain rfl : b = box := by simpa [Mframe.sends, Mframe.receives] using op
      simp [Mail.step, stack, here, goOn, receiveWaited, free]
  | _ => simp [Mframe.sends, Mframe.receives] at op

/-- In every run in which an index is allocated only when no thread is left in the mailbox that had
it before. -/
theorem mailboxes_reused (sems : 0 < c.nsem)
    (reach : Lib.Reach step (allowed fun _ => True) (bootMail c n p) m) : m.ReuseSafe :=
  (sane_of_reach sems reach).reuseSafe

end

def checked (watch : Bool) (m : Mail c n (Quetab c)) : MailAct → Bool
  | .kernel x => m.kernel.untimedCalls x && aloofActs x
  | .mailboxAlloc count => m.current ≠ NULLTHREAD && 4 * count.toNat < WORD
  | .mailboxFree _ | .mailboxSend _ _ | .mailboxReceive _ => m.current ≠ NULLTHREAD
  | .go =>
      match m.frames m.current with
      | some (.allocReceiver _) => !watch || (threads c).all fun t => (m.frames t).all Mframe.table
      | _ => true

theorem checked_allowed {m : Mail c n (Quetab c)} {watch : Bool} {a : MailAct}
    (check : m.checked watch a = true) : m.allowed (fun _ => False) a := by
  cases a with
  | kernel x =>
      simp only [checked, Bool.and_eq_true] at check
      refine ⟨check.1, ?_⟩
      cases x with
      | call call => cases call <;> first | exact check.2 | simp [aloofActs, Call.aloof] at check
      | cont => rfl
      | tick => rfl
  | mailboxAlloc count => simpa [checked, allowed] using check
  | mailboxFree box => simpa [checked, allowed] using check
  | mailboxSend box mailmsg => simpa [checked, allowed] using check
  | mailboxReceive box => simpa [checked, allowed] using check
  | go => rintro box ⟨⟩

theorem checked_sound {p : Platform} (sems : 0 < c.nsem) (m : Mail c n (Quetab c)) (a : MailAct)
    (reach : Lib.Reach step (allowed fun _ => True) (bootMail c n p) m)
    (check : m.checked true a = true) : m.allowed (fun _ => True) a := by
  cases a with
  | go =>
      rintro box - here - - t
      simp only [checked, here, Bool.not_true, Bool.false_or, List.all_eq_true] at check
      cases frame : m.frames t with
      | none => simp [inside, frame]
      | some f =>
          have valid := (sane_of_reach sems reach).valid t (by simp [frame])
          have table := check t (mem_threads.mpr valid)
          rw [frame, Option.all_some] at table
          simp [inside, frame, Mframe.not_sends table, Mframe.not_receives table]
  | _ => exact checked_allowed check

def allocActs (count : UInt32) : List MailAct :=
  [.mailboxAlloc count, .kernel .cont, .go, .go, .kernel .cont, .go, .kernel .cont, .go, .go, .kernel .cont]

def freeWaiting : List MailAct :=
  [.mailboxSend 1 7, .kernel .cont, .go, .kernel .cont, .kernel (.call (.create 128 30)), .kernel .cont,
   .kernel (.call (.resume 2)), .mailboxSend 1 8, .kernel .cont, .mailboxFree 1, .kernel .cont, .go, .go,
   .kernel .cont, .go, .kernel .cont, .go, .go, .kernel .cont]

def startThread : List MailAct :=
  [.kernel (.call (.create 128 20)), .kernel .cont, .kernel (.call (.resume 1))]

def reuseWaiting : List MailAct :=
  startThread ++ (List.replicate 15 (allocActs 1)).flatten ++ freeWaiting ++ allocActs 1 ++
    [.kernel (.call .resched), .kernel .cont, .go, .kernel .cont, .kernel (.call (.suspend 2)), .kernel .cont,
     .mailboxSend 1 9, .kernel .cont, .go]

theorem reuseWaiting_run : ∃ m : Mail armRpi 15 (Quetab armRpi),
    Lib.Reach step (allowed fun _ => False) (bootMail armRpi 15 rpi) m ∧
    (m.mboxtab 1).state = .alloc ∧ (m.mboxtab 1).max < (m.mboxtab 1).count := by
  have runs : (Lib.run step (checked false) reuseWaiting (bootMail armRpi 15 rpi)).any
      (fun m => (m.mboxtab 1).state = .alloc ∧ (m.mboxtab 1).max < (m.mboxtab 1).count) = true := by
    decide +kernel
  obtain ⟨m, run, overfull⟩ := (Option.any_eq_true _ _).mp runs
  simp only [decide_eq_true_eq] at overfull
  exact ⟨m, Lib.Reach.init.run (fun _ _ => checked_allowed) run, overfull⟩

theorem reuseWaiting_overfull : ∃ m : Mail armRpi 15 (Quetab armRpi),
    Lib.Reach step (allowed fun _ => False) (bootMail armRpi 15 rpi) m ∧ ¬ m.ReuseSafe := by
  obtain ⟨m, reach, state, overfull⟩ := reuseWaiting_run
  refine ⟨m, reach, fun safe => ?_⟩
  have := safe.bounded 1 state
  omega

theorem freeWaiting_refused : ∃ m : Mail armRpi 15 (Quetab armRpi),
    Lib.Reach step (allowed fun _ => True) (bootMail armRpi 15 rpi) m ∧
    m.frames m.current = some (.send 1 8) ∧ outdated m.current 1 m.log = true ∧ m.ReuseSafe := by
  have runs : (Lib.run step (checked true) (startThread ++ allocActs 1 ++ freeWaiting ++
      [.kernel (.call .resched), .kernel .cont]) (bootMail armRpi 15 rpi)).any
      (fun m => m.frames m.current = some (.send 1 8) ∧ outdated m.current 1 m.log = true) = true := by
    decide +kernel
  obtain ⟨m, run, waiting⟩ := (Option.any_eq_true _ _).mp runs
  simp only [decide_eq_true_eq] at waiting
  have reach := Lib.Reach.init.checked (checked_sound (by decide)) run
  exact ⟨m, reach, waiting.1, waiting.2, mailboxes_reused (by decide) reach⟩

section
variable {m} {m' : Mail c n (Quetab c)} {B : Nat → Prop} {p : Platform} {box : Nat} {f : Option Mframe}

/-- The mailbox hands on the messages in the order in which they were stored in it. -/
structure Fifo (m : Mail c n (Quetab c)) (box s r : Nat) : Prop where
  sender : (m.mboxtab box).sender = some s
  receiver : (m.mboxtab box).receiver = some r
  ordered : takenFrom box m.log <+: sentInto box m.log
  held : (sentInto box m.log).length = (takenFrom box m.log).length + (m.mboxtab box).count
  bounded : (m.mboxtab box).count ≤ (m.mboxtab box).max
  places : max 0 (m.kernel.semtab s).count + m.kernel.letIn s (m.inside (Mframe.sends box)) +
    (m.mboxtab box).count = (m.mboxtab box).max
  messages : max 0 (m.kernel.semtab r).count + m.kernel.letIn r (m.inside (Mframe.receives box)) =
    (m.mboxtab box).count
  blocks : ∀ mailmsg m', m.current ≠ NULLTHREAD → m.step (.mailboxSend box mailmsg) = some m' →
    ((m'.kernel.thrtab m.current).state = .wait ↔
      (m.mboxtab box).count + m.kernel.letIn s (m.inside (Mframe.sends box)) = (m.mboxtab box).max)

theorem Box.fifo {s r : Nat} (h : m.Box box s r) (sane : m.Sane B) (bound : box < n)
    (state : (m.mboxtab box).state = .alloc) : m.Fifo box s r := by
  have places := h.places.accounted sane.settled
  have messages := h.messages.accounted sane.settled
  have room := h.places.nonneg sane.settled
  refine ⟨h.sender, h.receiver, ?_, ?_, by omega, by omega, messages, ?_⟩
  · rw [h.stored]
    exact List.prefix_append _ _
  · rw [h.stored, List.length_append, ring, List.length_map, List.length_range]
  · intro mailmsg m' thread action
    obtain ⟨-, -, action⟩ := step_outside action (by simp) (by simp)
    simp only [begins, Mail.mailboxSend] at action
    rw [if_pos ⟨bound, state⟩] at action
    rcases callSem_some action with ⟨none, -⟩ | ⟨s', kernel, sender, step, rfl⟩
    · rw [h.sender] at none
      cases none
    · obtain rfl : s = s' := Option.some.inj (h.sender.symm.trans sender)
      have calls := sane.waits thread step
      have blocks := h.places.blocks sane.settled calls.settled calls.action
      refine blocks.trans ?_
      omega

/-- In every run in which no thread is left in the index when it is allocated. -/
theorem mailbox_fifo (sems : 0 < c.nsem) (bound : box < n)
    (reach : Lib.Reach step (allowed fun b => b = box) (bootMail c n p) m)
    (state : (m.mboxtab box).state = .alloc) : ∃ s r, m.Fifo box s r := by
  have sane := sane_of_reach sems reach
  obtain ⟨s, r, h⟩ := sane.boxes box rfl state
  exact ⟨s, r, h.fifo sane bound state⟩

end

def freeActs (box : Nat) : List MailAct :=
  [.mailboxFree box, .kernel .cont, .go, .go, .kernel .cont, .go, .kernel .cont, .go, .go, .kernel .cont]

def passOn : List MailAct :=
  startThread ++ allocActs 1 ++ freeActs 1 ++ (List.replicate 15 (allocActs 1)).flatten ++
    [.mailboxSend 1 7, .kernel .cont, .go, .kernel .cont, .kernel (.call (.create 128 30)), .kernel .cont,
     .kernel (.call (.resume 2)), .mailboxSend 1 8, .kernel .cont, .mailboxReceive 1, .kernel .cont, .go,
     .kernel .cont, .go]

theorem passOn_fifo : ∃ m : Mail armRpi 15 (Quetab armRpi), takenFrom 1 m.log = [7] ∧
    sentInto 1 m.log = [7, 8] ∧ .freed 1 ∈ m.log ∧ ∃ s r, m.Fifo 1 s r := by
  have runs : (Lib.run step (checked true) passOn (bootMail armRpi 15 rpi)).any (fun m =>
      (m.mboxtab 1).state = .alloc ∧ takenFrom 1 m.log = [7] ∧ sentInto 1 m.log = [7, 8] ∧
        .freed 1 ∈ m.log) = true := by
    decide +kernel
  obtain ⟨m, run, observed⟩ := (Option.any_eq_true _ _).mp runs
  simp only [decide_eq_true_eq] at observed
  have reach := Lib.Reach.init.checked (checked_sound (by decide)) run
  have watched : Lib.Reach step (allowed fun b => b = 1) (bootMail armRpi 15 rpi) m :=
    reach.mono fun _ _ => allowed_mono fun _ _ => trivial
  exact ⟨m, observed.2.1, observed.2.2.1, observed.2.2.2, mailbox_fifo (by decide) (by decide) watched observed.1⟩

theorem reuseWaiting_unordered : ∃ m : Mail armRpi 15 (Quetab armRpi),
    Lib.Reach step (allowed fun _ => False) (bootMail armRpi 15 rpi) m ∧
    (m.mboxtab 1).state = .alloc ∧ ¬ ∃ s r, m.Fifo 1 s r := by
  obtain ⟨m, reach, state, overfull⟩ := reuseWaiting_run
  refine ⟨m, reach, state, ?_⟩
  rintro ⟨s, r, fifo⟩
  have := fifo.bounded
  omega

end Mail
end Xinu
