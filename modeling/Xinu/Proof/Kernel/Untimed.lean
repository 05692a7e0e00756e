import Xinu.Proof.Kernel.Boot

namespace Xinu

def Call.untimed : Call → Bool
  | .ready _ _ | .unsleep _ | .recvtime _ => false
  | call => call.basic

theorem Call.basic_of_untimed {call : Call} (untimed : call.untimed = true) : call.basic = true := by
  cases call with
  | ready | unsleep | recvtime => cases untimed
  | _ => exact untimed

namespace Kernel
variable {c : Config}

def untimedCalls {Q : Type} (k : Kernel c Q) (x : Act) : Bool :=
  k.nullRuns x && match x with
    | .call call => call.untimed
    | _ => true

def Untimed (k : Kernel c Lists) : Prop := ∀ t, (k.thrtab t).state ≠ .tmout

section
variable {x : Act} {b a a' : Kernel c Lists} {k : Kernel c (Quetab c)} {u : Int} {s : ThrState}

theorem Untimed.setState (h : Untimed a) (other : s ≠ .tmout) : Untimed (a.setState u s) := by
  intro t
  by_cases this : t = u
  · simpa [this] using other
  · simpa [this] using h t

theorem Untimed.like (h : Untimed a) (same : ∀ t, (a'.thrtab t).state = (a.thrtab t).state) :
    Untimed a' := by
  intro t
  rw [same]
  exact h t

theorem Untimed.makeReady (h : Untimed a) : Untimed (a.makeReady u) :=
  (h.setState (u := u) (s := .ready) (by simp)).like (by simp)

theorem Untimed.flush (h : Untimed a) (ts : List Int) : Untimed (a.flush ts) := by
  induction ts generalizing a with
  | nil => exact h
  | cons t ts ih => exact ih (Untimed.makeReady (h.like (by simp)))

theorem Untimed.leave (h : Untimed a) (leave : Leave x b a a')
    (untimed : ∀ n, x ≠ .call (.recvtime n)) : Untimed a' := by
  cases leave with
  | yield => exact h.makeReady
  | suspendSelf => exact (h.setState (u := a.thrcurrent) (s := .susp) (by simp)).like (by simp)
  | sleep => exact (h.setState (u := a.thrcurrent) (s := .sleep) (by simp)).like (by simp)
  | recvtime act => exact absurd act (untimed _)
  | listen => exact (h.setState (u := a.thrcurrent) (s := .recv) (by simp)).like (by simp)
  | await =>
      refine (h.setState (u := a.thrcurrent) (s := .wait) (by simp)).like ?_
      intro t
      by_cases this : t = a.thrcurrent <;> simp [this]
  | suicide => exact (h.setState (u := b.thrcurrent) (s := .free) (by simp)).like (by simp)

theorem Untimed.switch (h : Untimed a) : Untimed a.switch :=
  (h.setState (u := (a.dequeue a.readylist).2) (s := .curr) (by simp)).like (by simp)

theorem Untimed.move (h : Untimed a) (inv : a.Inv) (move : Move x b a a')
    (untimed : ∀ n, x ≠ .call (.recvtime n)) : Untimed a' := by
  have ready : ∀ {k : Kernel c Lists} {t : Int}, (∀ u, (k.thrtab u).state = (a.thrtab u).state) →
      Untimed (k.makeReady t) := fun same => (h.like same).makeReady
  cases move with
  | leaves leave => exact (h.leave leave untimed).switch
  | wake => exact h.makeReady
  | @suspend _ t => exact (h.setState (u := t) (s := .susp) (by simp)).like (by simp)
  | @chprio _ t =>
      refine h.like fun u => ?_
      by_cases this : u = t <;> simp [this]
  | @tick ts rest _ _ _ ids _ _ =>
      refine (Inv.wakes (P := Untimed) (inv.countdown _ _) (h.like (by simp)) (by simpa using ids)
        fun a t rest inv h ids => ?_).2
      exact Untimed.makeReady (h.like (by simp))
  | deposit => exact h.like (deposit_state _ _ _)
  | deliver => exact ready (deposit_state _ _ _)
  | interrupt =>
      refine ready ?_
      simp only [unsleep_frame]
      exact deposit_state _ _ _
  | take => exact h.like a.takeMessage_state
  | heard => exact h.like (takeMessage_state _)
  | release => exact ready (by simp)
  | @semfree _ s => exact (h.flush (a.quetab.ids (a.semtab s).queue)).like (by simp)
  | @create _ t n p i v heap =>
      intro u
      by_cases this : u = t
      · simp [this]
      · simpa [this] using h u
  | @reap t => exact (h.setState (u := t) (s := .free) (by simp)).like (by simp)
  | _ => exact h.like (by simp)

theorem Untimed.legal (h : Untimed a) (rel : Rel k a) (calls : k.untimedCalls x = true) :
    k.legal x = true := by
  cases x with
  | call call => cases call <;> simp_all [untimedCalls, Call.untimed, Kernel.legal]
  | tick => rfl
  | cont =>
      simp only [Kernel.legal]
      split
      · rename_i t fs _
        have := h t
        rw [rel.thrtab] at this
        simpa using this
      · rfl

theorem boot_untimed (c : Config) (p : Platform) : Untimed (bootLists c p) := by
  obtain ⟨fresh, -⟩ := sysinit_fresh (c := c) p (⟨fun _ => [], fun _ => 0, fun _ => 0⟩ : Lists)
  intro t
  rw [bootLists, fresh.thrtab]
  by_cases this : t = NULLTHREAD <;> simp [this]

end

theorem Kept.untimed {ok : Kernel c (Quetab c) → Act → Prop} {P : Kernel c Lists → Prop}
    {J : Act → Kernel c Lists → Kernel c Lists → Prop}
    (calls : ∀ k x, ok k x → k.untimedCalls x = true)
    (enter : ∀ k k' x b, Rel k b → ok k x → b.Inv → P b → step x k = some k' → J x b (b.start x))
    (keep : ∀ k x b a a', Rel k b → ok k x → b.Inv → P b → a.Inv → Untimed a → J x b a →
      Move x b a a' → J x b a')
    (leave : ∀ k k' x b a, Rel k b → ok k x → step x k = some k' → Rel k' a → J x b a → P a) :
    Kept ok (fun a => Untimed a ∧ P a) (fun x b a => Untimed a ∧ J x b a) where
  basic k call allowed := Call.basic_of_untimed (Bool.and_eq_true_iff.mp (calls k _ allowed)).2
  null k x allowed := (Bool.and_eq_true_iff.mp (calls k x allowed)).1
  legal k a x rel _ holds allowed := holds.1.legal rel (calls k x allowed)
  enter k k' x b rel allowed inv holds action :=
    ⟨holds.1.like (by simp), enter k k' x b rel allowed inv holds.2 action⟩
  keep k x b a a' rel allowed invb holdsb inv holds move := by
    refine ⟨holds.1.move inv move ?_, keep k x b a a' rel allowed invb holdsb.2 inv holds.1 holds.2 move⟩
    rintro n rfl
    exact nomatch (Bool.and_eq_true_iff.mp (calls k _ allowed)).2
  leave k k' x b a rel allowed action rel' holds :=
    ⟨holds.1, leave k k' x b a rel allowed action rel' holds.2⟩

end Kernel
end Xinu
