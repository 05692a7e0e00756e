import Xinu.Proof.Kernel.Refine
import Xinu.Lib.Runs

namespace Xinu

def Call.basic : Call → Bool
  | .moncreate | .monfree _ | .lock _ | .unlock _ => false
  | .futureAlloc _ | .futureFree _ | .futureSet _ _ | .futureGet _ => false
  | _ => true

def Frame.basic : Frame → Bool
  | .ret _ | .suspend _ | .receive | .recvtime | .kill _ | .killCurr _ => true
  | _ => false

/-- A call that can take the processor from its thread until another one gives it back. -/
def Call.blocks : Call → Bool
  | .wait _ | .sleep _ | .receive | .recvtime _ | .lock _ | .futureSet _ _ | .futureGet _ => true
  | _ => false

namespace Kernel
variable {c : Config}

def nullRuns {Q : Type} (k : Kernel c Q) : Act → Bool
  | .call call => k.thrcurrent ≠ NULLTHREAD || !call.blocks
  | _ => true

/-- `ready` is called only for threads that are on no queue, `unsleep` never for a thread that
sleeps, and `kill` does not find its thread in state `THRTMOUT` when it takes it off its queue. -/
def legal {Q : Type} (k : Kernel c Q) : Act → Bool
  | .call (.ready t r) => k.isbadtid t || (k.thrtab t).state = .susp ||
      (k.thrtab t).state = .recv || t = k.thrcurrent && r
  | .call (.unsleep t) => (k.thrtab t).state ≠ .sleep && (k.thrtab t).state ≠ .tmout
  | .cont =>
      match k.stack k.thrcurrent with
      | .kill t :: _ => (k.thrtab t).state ≠ .tmout
      | _ => true
  | _ => true

theorem step_call {Q : Type} [Queues Q] {k k' : Kernel c Q} {call : Call}
    (h : step (.call call) k = some k') : k.stack k.thrcurrent = [] ∧
      k' = (k.emit (.call k.thrcurrent call)).runCall call ∧ k'.stopped = false := by
  simp only [step, Option.filter_eq_some_iff] at h
  obtain ⟨action, running⟩ := h
  cases stack : k.stack k.thrcurrent with
  | cons f fs => simp [stack] at action
  | nil =>
      simp only [stack, Option.ite_none_right_eq_some, Option.some.injEq] at action
      exact ⟨rfl, action.2.symm, by simpa using running⟩

section
variable {x : Act} {a b : Kernel c Lists} {k k' : Kernel c (Quetab c)}

theorem does_call {call : Call} (rel : Rel k a) (inv : a.Inv) (eq : x = .call call)
    (start : a = b.emit (.call b.thrcurrent call)) (empty : a.stack a.thrcurrent = [])
    (typed : call.typed = true) (basic : call.basic = true) (null : k.nullRuns (.call call) = true)
    (legal : k.legal (.call call) = true)
    (ends : (k.runCall call).stopped = false) : Does x b (k.runCall call) a := by
  have clear := frame_nil empty
  have locks : ∀ f, a.frame a.thrcurrent = some f → ∃ m, f = .lockClaimed m ∨ f = .lockWaited m := by
    simp [clear]
  have user : call.blocks = true → a.thrcurrent ≠ NULLTHREAD := by
    intro blocks idle
    rw [rel.thrcurrent] at idle
    simp [nullRuns, idle, blocks] at null
  have calling : Calling x b a call := ⟨eq, by rw [start]; rfl⟩
  cases call with
  | create n p => exact does_create rel calling ends
  | ready t r =>
      refine does_readyCall rel inv calling clear ?_ ends
      simpa [Kernel.legal, or_assoc] using legal
  | resume t => exact does_resume rel inv calling clear ends
  | suspend t => exact does_suspend rel inv calling clear
  | kill t => exact does_kill rel inv calling start clear ends
  | chprio t p => exact does_chprio rel calling start
  | resched => exact does_reschedCall rel inv calling trivial clear ends
  | wait s => exact does_wait rel inv calling (.inl rfl) locks (user rfl)
  | signal s => exact does_signal rel inv calling (fun _ => trivial) (by simp [clear]) ends
  | signaln s n => exact does_signaln rel inv calling clear ends
  | semcreate n =>
      refine (does_semcreate rel).andThen inv fun a₁ rel₁ _ =>
        rel₁.doesRet (calling.keep ?_) trivial
      rw [rel₁.thrcurrent, rel.thrcurrent, (semcreate_frame k n).2]
  | semfree s =>
      refine (does_semfree rel inv ends).andThen inv fun a₁ rel₁ _ =>
        rel₁.doesRet (calling.keep ?_) trivial
      rw [rel₁.thrcurrent, rel.thrcurrent, (semfree_frame k s).2]
  | sleep ms => exact does_sleep rel inv calling start clear (user rfl) ends
  | unsleep t =>
      have awake : (k.thrtab t).state ≠ .sleep ∧ (k.thrtab t).state ≠ .tmout := by
        simpa [Kernel.legal] using legal
      have refused : (k.unsleep t).1 = k := by
        simp only [unsleep, if_pos awake]
        split <;> rfl
      simp only [runCall, retValue, refused]
      exact rel.doesRet calling trivial
  | send t m => exact does_send rel inv calling (.inr rfl) (by simp [clear]) ends
  | receive => exact does_receive rel inv calling empty (user rfl)
  | recvclr => exact does_recvclr rel calling empty
  | recvtime n =>
      simp only [Call.typed, Bool.and_eq_true, decide_eq_true_eq] at typed
      exact does_recvtime rel inv calling start typed.2 empty (user rfl) ends
  | moncreate => simp [Call.basic] at basic
  | monfree m => simp [Call.basic] at basic
  | lock m => simp [Call.basic] at basic
  | unlock m => simp [Call.basic] at basic
  | futureAlloc flag => simp [Call.basic] at basic
  | futureFree f => simp [Call.basic] at basic
  | futureSet f v => simp [Call.basic] at basic
  | futureGet f => simp [Call.basic] at basic

theorem does_frame {f : Frame} {fs : List Frame} (rel : Rel k b) (inv : b.Inv) (cont : x = .cont)
    (stack : b.stack b.thrcurrent = f :: fs) (basic : f.basic = true)
    (legal : k.legal .cont = true)
    (future : ∀ t, (k.thrtab t).state = .wait → ∀ g, b.frame t = some g → g.onFuture = false)
    (ends : ((k.setStack k.thrcurrent fs).runFrame f).stopped = false) :
    Does x b ((k.setStack k.thrcurrent fs).runFrame f) b := by
  have popped : Rel (k.setStack k.thrcurrent fs) (b.setStack b.thrcurrent fs) := by
    rw [rel.thrcurrent]
    exact rel.setStack _ _
  cases f with
  | ret v => exact does_ret rel cont stack
  | suspend t =>
      refine (Move.suspended cont stack).does ?_
      rw [rel.thrtab]
      exact popped.ret _
  | receive => exact (Move.heard cont (.inl stack)).does popped.takeMessage
  | recvtime =>
      simp only [runFrame, recvtimeDone]
      split
      · rename_i full
        refine (Move.heard cont (.inr ⟨stack, ?_⟩)).does popped.takeMessage
        simpa [rel.thrtab, rel.thrcurrent] using full
      · rename_i empty
        refine (Move.timedout cont stack ?_).does ?_
        · simpa [rel.thrtab, rel.thrcurrent] using empty
        · rw [rel.thrcurrent] at popped ⊢
          exact (popped.emit _).ret _
  | kill t =>
      refine does_killSent rel inv cont stack ?_ (future t) ends
      rw [rel.stack, rel.thrcurrent] at stack
      simpa [Kernel.legal, stack] using legal
  | killCurr t =>
      have dead := inv.dead b.thrcurrent t (by simp [stack])
      rw [inv.running] at dead
      cases dead
  | _ => simp [Frame.basic] at basic

theorem step_does (rel : Rel k b) (inv : b.Inv) (within : ∀ t, ∀ f ∈ b.stack t, f.basic = true)
    (basic : ∀ call, x = .call call → call.basic = true) (null : k.nullRuns x = true)
    (legal : k.legal x = true)
    (h : step x k = some k') : Does x b k' (b.start x) ∧ k'.stopped = false := by
  simp only [step, Option.filter_eq_some_iff] at h
  obtain ⟨action, running⟩ := h
  have ends : k'.stopped = false := by simpa using running
  refine ⟨?_, ends⟩
  cases x with
  | call call =>
      cases stack : k.stack k.thrcurrent with
      | cons f fs => simp [stack] at action
      | nil =>
          simp only [stack, Option.ite_none_right_eq_some, Option.some.injEq] at action
          obtain ⟨typed, rfl⟩ := action
          rw [← rel.thrcurrent] at stack ends ⊢
          refine does_call (rel.emit _) (inv.emit _) rfl rfl ?_ typed (basic call rfl) ?_ ?_ ends
          · rw [show (b.start (.call call)).thrcurrent = b.thrcurrent from rfl]
            exact (congrFun rel.stack _).trans stack
          · exact null
          · exact legal
  | cont =>
      cases stack : k.stack k.thrcurrent with
      | nil => simp [stack] at action
      | cons f fs =>
          simp only [stack, Option.some.injEq] at action
          subst action
          have top : b.stack b.thrcurrent = f :: fs := by rw [rel.stack, rel.thrcurrent]; exact stack
          refine does_frame rel inv rfl top (within b.thrcurrent f (by simp [top])) legal ?_ ends
          intro t _ g eq
          have plain := within t g (List.mem_of_find?_eq_some eq)
          cases g <;> first | rfl | cases plain
  | tick =>
      cases stack : k.stack k.thrcurrent with
      | cons f fs => simp [stack] at action
      | nil =>
          simp only [stack, Option.some.injEq] at action
          subst action
          refine does_clkhandler rfl rel inv (frame_nil ?_) ends
          rw [rel.stack, rel.thrcurrent]
          exact stack

theorem Move.stack_mem {a' : Kernel c Lists} (move : Move x b a a') {t : Int} {f : Frame}
    (member : f ∈ a'.stack t) : f ∈ a.stack t ∨ f.basic = true := by
  have pushed : ∀ {g : Frame} {u : Int}, g.basic = true →
      f ∈ Function.update a.stack u (g :: a.stack u) t → f ∈ a.stack t ∨ f.basic = true := by
    intro g u basic member
    by_cases this : t = u
    · subst this
      simp only [Function.update_self, List.mem_cons] at member
      rcases member with rfl | member
      · exact .inr basic
      · exact .inl member
    · exact .inl (by simpa [this] using member)
  have popped : ∀ {g : Frame} {gs : List Frame} {u : Int}, a.stack u = g :: gs →
      f ∈ Function.update a.stack u gs t → f ∈ a.stack t := by
    intro g gs u stack member
    by_cases this : t = u
    · subst this
      rw [stack]
      exact List.mem_cons_of_mem g (by simpa using member)
    · simpa [this] using member
  have replaced : ∀ {g h : Frame} {gs : List Frame} {u : Int}, a.stack u = g :: gs →
      h.basic = true → f ∈ Function.update a.stack u (h :: gs) t →
      f ∈ a.stack t ∨ f.basic = true := by
    intro g h gs u stack basic member
    by_cases this : t = u
    · subst this
      simp only [Function.update_self, List.mem_cons] at member
      rcases member with rfl | member
      · exact .inr basic
      · exact .inl (by rw [stack]; exact List.mem_cons_of_mem g member)
    · exact .inl (by simpa [this] using member)
  cases move with
  | ret => exact pushed (g := .ret _) rfl (by simpa using member)
  | finished _ stack => exact .inl (popped stack (by simpa using member))
  | deposit => exact pushed (g := .ret OK) rfl (by simpa using member)
  | deliver => exact pushed (g := .ret OK) rfl (by simpa using member)
  | interrupt => exact pushed (g := .ret OK) rfl (by simpa using member)
  | returned _ stack => exact .inl (popped stack (by simpa using member))
  | suspended _ stack => exact replaced (h := .ret _) stack rfl (by simpa using member)
  | take => exact pushed (g := .ret _) rfl (by simpa [takeMessage] using member)
  | leaves leave =>
      cases leave with
      | yield => exact .inl (by simpa using member)
      | suspendSelf => exact pushed (g := .suspend a.thrcurrent) rfl (by simpa using member)
      | sleep => exact pushed (g := .ret OK) rfl (by simpa using member)
      | recvtime => exact pushed (g := .recvtime) rfl (by simpa using member)
      | listen => exact pushed (g := .receive) rfl (by simpa using member)
      | await => exact pushed (g := .ret OK) rfl (by simpa using member)
      | suicide _ _ stack => exact replaced (h := .killCurr _) stack rfl (by simpa using member)
  | kill => exact pushed (g := .kill _) rfl (by simpa using member)
  | heard _ stack =>
      rcases stack with stack | ⟨stack, -⟩
      · exact replaced (h := .ret _) stack rfl (by simpa [takeMessage] using member)
      · exact replaced (h := .ret _) stack rfl (by simpa [takeMessage] using member)
  | timedout _ stack _ => exact replaced (h := .ret _) stack rfl (by simpa using member)
  | @create _ u =>
      by_cases this : t = u
      · simp [this] at member
      · exact .inl (by simpa [this] using member)
  | reap heap _ stack =>
      exact replaced (h := .ret OK) stack rfl
        (by simpa [unlink_like.stack, unlink_like.current] using member)
  | semfree => exact .inl (by simpa [flush_frame] using member)
  | tick => exact .inl (by simpa [wakes_frame] using member)
  | _ => exact .inl (by simpa using member)

end

end Kernel

end Xinu
