import Mathlib.Tactic.ByContra
import Xinu.System.UsbTransfer

namespace Xinu.Usb.Device

/-- No message from elsewhere is taken for the end of the last transfer. -/
def Undisturbed (d : Device) : Op → Prop
  | .free => d.msg = false
  | .send => d.freeing ≠ .receiving
  | _ => True

structure Quiescent (d : Device) : Prop where
  unbinding : d.freeing = .unbinding → d.pending = []
  released : d.inuse = false → d.pending = []
  -- the thread that waits is not forgotten
  woken : d.freeing = .receiving → d.pending = [] → d.msg = true
  -- the completion function is called once for each transfer
  once : d.accepted.Perm (d.completed ++ d.pending)

structure Valid (d : Device) : Prop where
  count : d.xfer_pending_count = d.pending.length
  once : d.accepted.Perm (d.completed ++ d.pending)
  unused : d.inuse = false → d.pending = [] ∧ d.freeing = .outside ∧ (d.state = .detachmentPending ∨ d.checked = [])
  receiving : d.freeing = .receiving →
    d.state = .detachmentPending ∧ d.quiescent_state_waiter = true ∧ (d.msg = true ↔ d.pending = [])
  unbinding : d.freeing = .unbinding → d.state = .detachmentPending ∧ d.pending = []

variable {d d' : Device} {op : Op}

theorem boot_valid : boot.Valid := by
  constructor
  · rfl
  · exact .refl _
  · exact fun _ => ⟨rfl, rfl, .inr rfl⟩
  · intro freeing
    cases freeing
  · intro freeing
    cases freeing

theorem Valid.quiescent (valid : d.Valid) : d.Quiescent where
  unbinding freeing := (valid.unbinding freeing).2
  released inuse := (valid.unused inuse).1
  woken freeing := (valid.receiving freeing).2.2.mpr
  once := valid.once

theorem usb_alloc_device_valid (valid : d.Valid) (unused : d.inuse = false) : d.usb_alloc_device.Valid := by
  obtain ⟨none, outside, -⟩ := valid.unused unused
  constructor
  · exact (congrArg List.length none).symm
  · exact valid.once
  · intro h
    cases h
  · intro freeing
    exact absurd (freeing.symm.trans outside) (by decide)
  · intro freeing
    exact absurd (freeing.symm.trans outside) (by decide)

theorem submit_valid {req : Nat} (valid : d.Valid) (takes : Bool) (checked : req ∈ d.checked) : (d.submit req takes).Valid := by
  rw [submit]
  dsimp only
  by_cases pending : d.state = .detachmentPending
  · rw [if_pos pending]
    refine ⟨valid.count, valid.once, fun unused => ?_, valid.receiving, valid.unbinding⟩
    obtain ⟨none, outside, -⟩ := valid.unused unused
    exact ⟨none, outside, .inl pending⟩
  · have used : d.inuse = true := by
      by_contra unused
      rcases (valid.unused (Bool.not_eq_true _ ▸ unused)).2.2 with state | empty
      · exact pending state
      · rw [empty] at checked
        cases checked
    rw [if_neg pending]
    cases takes with
    | false =>
        refine ⟨valid.count, valid.once, fun unused => ?_, valid.receiving, valid.unbinding⟩
        exact absurd (used.symm.trans unused) (by decide)
    | true =>
        have count : d.xfer_pending_count + 1 = (d.pending ++ [req]).length := by
          rw [valid.count, List.length_append, List.length_singleton]
        have once : (d.accepted ++ [req]).Perm (d.completed ++ (d.pending ++ [req])) := by
          rw [← List.append_assoc]
          exact valid.once.append_right _
        rw [if_pos rfl]
        exact ⟨count, once, fun unused => absurd (used.symm.trans unused) (by decide),
          fun freeing => absurd (valid.receiving freeing).1 pending, fun freeing => absurd (valid.unbinding freeing).1 pending⟩

theorem usb_complete_xfer_valid {req : Nat} (valid : d.Valid) (has : req ∈ d.pending) : (d.usb_complete_xfer req).Valid := by
  have length := List.length_erase_of_mem has
  have positive := List.length_pos_of_mem has
  have count := valid.count
  have used : d.inuse = true := by
    by_contra unused
    rw [(valid.unused (Bool.not_eq_true _ ▸ unused)).1] at has
    cases has
  have once : d.accepted.Perm (d.completed ++ [req] ++ d.pending.erase req) := by
    rw [List.append_assoc]
    exact valid.once.trans ((List.perm_cons_erase has).append_left _)
  have bound : d.freeing ≠ .unbinding := by
    intro freeing
    rw [(valid.unbinding freeing).2] at has
    cases has
  rw [usb_complete_xfer]
  dsimp only
  by_cases last : d.state = .detachmentPending ∧ d.xfer_pending_count - 1 = 0
  · rw [if_pos last]
    have empty : d.pending.erase req = [] := List.eq_nil_of_length_eq_zero (by omega)
    refine ⟨by dsimp only; omega, once, fun unused => absurd (used.symm.trans unused) (by decide), fun freeing => ?_,
      fun freeing => absurd freeing bound⟩
    obtain ⟨state, waiter, -⟩ := valid.receiving freeing
    refine ⟨state, waiter, fun _ => empty, fun _ => ?_⟩
    dsimp only
    rw [waiter, Bool.or_true]
  · rw [if_neg last]
    refine ⟨by dsimp only; omega, once, fun unused => absurd (used.symm.trans unused) (by decide), fun freeing => ?_,
      fun freeing => absurd freeing bound⟩
    obtain ⟨state, waiter, message⟩ := valid.receiving freeing
    refine ⟨state, waiter, fun here => ?_, fun empty => ?_⟩
    · rw [message.mp here] at has
      cases has
    · have zero : (d.pending.erase req).length = 0 := congrArg List.length empty
      exact absurd ⟨state, by omega⟩ last

theorem free_valid (valid : d.Valid) (used : d.inuse = true) (silent : d.msg = false) : d.free.Valid := by
  rw [free]
  dsimp only
  by_cases some : d.xfer_pending_count ≠ 0
  · rw [if_pos some]
    have nonempty : d.pending ≠ [] := by
      intro empty
      rw [valid.count, empty] at some
      exact some rfl
    refine ⟨valid.count, valid.once, fun unused => absurd (used.symm.trans unused) (by decide), fun _ => ?_, fun h => ?_⟩
    · refine ⟨rfl, rfl, fun message => ?_, fun empty => absurd empty nonempty⟩
      exact absurd (silent.symm.trans message) (by decide)
    · cases h
  · rw [if_neg some]
    have empty : d.pending = [] := List.eq_nil_of_length_eq_zero (valid.count.symm.trans (not_not.mp some))
    refine ⟨valid.count, valid.once, fun unused => absurd (used.symm.trans unused) (by decide), fun h => ?_,
      fun _ => ⟨rfl, empty⟩⟩
    cases h

theorem step_valid (valid : d.Valid) (undisturbed : Undisturbed d op) (action : step op d = some d') : d'.Valid := by
  cases op with
  | usb_alloc_device =>
      rw [step] at action
      split at action
      · cases action
      · rename_i unused
        cases action
        exact usb_alloc_device_valid valid (Bool.not_eq_true _ ▸ unused)
  | check req =>
      rw [step] at action
      split at action
      · rename_i used
        cases action
        exact ⟨valid.count, valid.once, fun unused => absurd (used.symm.trans unused) (by decide), valid.receiving,
          valid.unbinding⟩
      · cases action
  | submit req takes =>
      rw [step] at action
      split at action
      · rename_i checked
        cases action
        exact submit_valid valid takes checked
      · cases action
  | usb_complete_xfer req =>
      rw [step] at action
      split at action
      · rename_i has
        cases action
        exact usb_complete_xfer_valid valid has
      · cases action
  | free =>
      rw [step] at action
      split at action
      · rename_i may
        cases action
        exact free_valid valid may.1 undisturbed
      · cases action
  | receive =>
      rw [step] at action
      split at action
      · rename_i message
        cases action
        obtain ⟨state, -, empty⟩ := valid.receiving message.1
        refine ⟨valid.count, valid.once, fun unused => ?_, fun h => (by cases h), fun _ => ⟨state, empty.mp message.2⟩⟩
        exact absurd ((valid.unused unused).2.1.symm.trans message.1) (by decide)
      · cases action
  | release =>
      rw [step] at action
      split at action
      · rename_i unbinding
        cases action
        obtain ⟨state, empty⟩ := valid.unbinding unbinding
        exact ⟨valid.count, valid.once, fun _ => ⟨empty, rfl, .inl state⟩, fun h => (by cases h), fun h => (by cases h)⟩
      · cases action
  | send =>
      cases action
      refine ⟨valid.count, valid.once, valid.unused, fun freeing => absurd freeing undisturbed, valid.unbinding⟩

/-- In every run in which the thread gets no other message, the driver is unbound and the device is released with no
transfer pending, and the thread that waits for the last one is sent a message. -/
theorem usb_free_device_quiescent (reach : Lib.Reach step Undisturbed boot d) : d.Quiescent :=
  (reach.invariant boot_valid fun _ _ _ valid undisturbed action => step_valid valid undisturbed action).quiescent

instance (d : Device) (op : Op) : Decidable (Undisturbed d op) :=
  match op with
  | .free => inferInstanceAs (Decidable (d.msg = false))
  | .send => inferInstanceAs (Decidable (d.freeing ≠ .receiving))
  | .usb_alloc_device | .check _ | .submit _ _ | .usb_complete_xfer _ | .receive | .release => .isTrue trivial

def detached : List Op :=
  [.usb_alloc_device, .check 1, .check 2, .submit 1 true, .free, .submit 2 true, .usb_complete_xfer 1, .receive]

theorem detached_quiescent : ∃ d, Lib.run step (fun d op => decide (Undisturbed d op)) detached boot = some d ∧
    d.freeing = .unbinding ∧ d.accepted = [1] ∧ d.Quiescent := by
  refine ⟨_, rfl, rfl, rfl, usb_free_device_quiescent ?_⟩
  exact Lib.Reach.run (fun d op => @of_decide_eq_true (Undisturbed d op) _) .init (show Lib.run step _ detached boot = _ from rfl)

-- a message from elsewhere, and the transfer is still pending
example : ∃ d, Lib.run step (fun _ _ => true) [.usb_alloc_device, .check 1, .submit 1 true, .free, .send, .receive] boot = some d ∧
    d.freeing = .unbinding ∧ d.pending = [1] := ⟨_, rfl, rfl, rfl⟩

end Xinu.Usb.Device
