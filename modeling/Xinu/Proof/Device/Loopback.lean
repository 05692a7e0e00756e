import Xinu.Lib.Ring
import Xinu.System.Loopback

namespace Xinu.Loopback
open Lib (Byte)

def stored (l : Loopback) : List Byte := Lib.ring l.buffer LOOP_BUFFER l.index l.sem.units

/-- No reader is blocked when a character comes. -/
def Unblocked (l : Loopback) : Op → Prop
  | .putc _ => 0 ≤ l.sem.count
  | _ => True

structure Fifo (l : Loopback) : Prop where
  start : l.index < LOOP_BUFFER
  room : l.sem.units ≤ LOOP_BUFFER
  awake : l.woken = []
  inside : ∀ i ∈ l.used, 0 ≤ i ∧ i < LOOP_BUFFER
  order : l.accepted = l.delivered ++ l.stored
  whole : l.overrun = false

theorem opened_fifo {index : Nat} (start : index < LOOP_BUFFER) : Fifo (opened index) :=
  ⟨start, Nat.zero_le _, rfl, nofun, rfl, rfl⟩

namespace Fifo
variable {l : Loopback}

theorem place (unblocked : 0 ≤ l.sem.count) :
    Int.tmod (l.index + l.sem.count) LOOP_BUFFER = ((l.index + l.sem.units) % LOOP_BUFFER : Nat) := by
  have count : l.sem.count = (l.sem.units : Int) := (Int.toNat_of_nonneg unblocked).symm
  rw [count, ← Int.natCast_add, Int.natCast_mod]
  exact Int.tmod_eq_emod_of_nonneg (Int.natCast_nonneg _)

theorem putc (fifo : Fifo l) (unblocked : 0 ≤ l.sem.count) (ch : Byte) :
    Fifo (l.loopbackPutc ch).1 := by
  rw [loopbackPutc]
  split
  · exact fifo
  · rename_i room
    have count : l.sem.count = (l.sem.units : Int) := (Int.toNat_of_nonneg unblocked).symm
    have free : l.sem.units < LOOP_BUFFER := by
      rw [count] at room
      omega
    have signal : l.sem.signal = (⟨l.sem.count + 1, l.sem.queue⟩, none) := by
      rw [Lib.Sem.signal, if_neg (by omega)]
    have units : (⟨l.sem.count + 1, l.sem.queue⟩ : Lib.Sem).units = l.sem.units + 1 := by
      show (l.sem.count + 1).toNat = l.sem.units + 1
      omega
    rw [place unblocked]
    generalize index : (l.index + l.sem.units) % LOOP_BUFFER = i
    have bound : i < LOOP_BUFFER := index ▸ Nat.mod_lt _ (by decide)
    have still : (l.store i ch).sem = l.sem := rfl
    have update : (l.store i ch).buffer = Function.update l.buffer i ch := by
      simp [store]
    have whole : (l.store i ch).overrun = false := by
      simp [store]
    simp only [whole, Bool.false_eq_true, if_false, still, signal, Option.toList_none, List.append_nil]
    refine ⟨fifo.start, ?_, fifo.awake, ?_, ?_, whole⟩
    · show (⟨l.sem.count + 1, l.sem.queue⟩ : Lib.Sem).units ≤ LOOP_BUFFER
      omega
    · intro j used
      rcases List.mem_append.mp used with before | last
      · exact fifo.inside j before
      · rw [List.mem_singleton.mp last]
        exact ⟨Int.natCast_nonneg i, Int.ofNat_lt.mpr bound⟩
    · show l.accepted ++ [ch] = l.delivered ++
        Lib.ring (l.store i ch).buffer LOOP_BUFFER l.index (⟨l.sem.count + 1, l.sem.queue⟩ : Lib.Sem).units
      rw [update, units, ← index, Lib.ring_push free, ← List.append_assoc]
      exact congrArg (· ++ [ch]) fifo.order

theorem take (fifo : Fifo l) {sem : Lib.Sem} (taken : sem.units + 1 = l.sem.units) :
    Fifo ({ l with sem } : Loopback).take.1 := by
  have room := fifo.room
  refine ⟨Nat.mod_lt _ (by decide), ?_, fifo.awake, ?_, ?_, fifo.whole⟩
  · show sem.units ≤ LOOP_BUFFER
    omega
  · intro j used
    rcases List.mem_append.mp used with before | last
    · exact fifo.inside j before
    · rw [List.mem_singleton.mp last]
      exact ⟨Int.natCast_nonneg _, Int.ofNat_lt.mpr fifo.start⟩
  · have order := fifo.order
    rw [stored, ← taken, Lib.ring_pop fifo.start] at order
    show l.accepted = l.delivered ++ [l.buffer l.index] ++
      Lib.ring l.buffer LOOP_BUFFER ((l.index + 1) % LOOP_BUFFER) sem.units
    rw [order, List.append_assoc, List.singleton_append]

theorem getc (fifo : Fifo l) (t : Nat) : Fifo (l.loopbackGetc t).1 := by
  rw [loopbackGetc]
  split
  · exact fifo
  · generalize waited : l.sem.wait t = result
    obtain ⟨sem, blocks⟩ := result
    cases blocks with
    | true =>
        obtain ⟨-, none, short⟩ := Lib.Sem.wait_blocks (by rw [waited])
        rw [waited] at none
        refine ⟨fifo.start, ?_, fifo.awake, fifo.inside, ?_, fifo.whole⟩
        · exact none.trans_le (Nat.zero_le _)
        · have order := fifo.order
          rw [stored, short] at order
          show l.accepted = l.delivered ++ Lib.ring l.buffer LOOP_BUFFER l.index sem.units
          rw [none, order]
    | false =>
        obtain ⟨-, taken⟩ := Lib.Sem.wait_passes (by rw [waited])
        rw [waited] at taken
        exact fifo.take taken

theorem step {l' : Loopback} {op : Op} (fifo : Fifo l) (unblocked : Unblocked l op)
    (action : step op l = some l') : Fifo l' := by
  have whole : ¬ l.overrun = true := Bool.eq_false_iff.mp fifo.whole
  rw [Loopback.step.eq_def, if_neg whole] at action
  cases op with
  | putc ch =>
      cases action
      exact fifo.putc unblocked ch
  | getc t =>
      dsimp only at action
      split at action
      · cases action
      · cases action
        exact fifo.getc t
  | resume t =>
      dsimp only at action
      rw [fifo.awake, if_neg List.not_mem_nil] at action
      cases action
  | control nonblock =>
      cases action
      exact ⟨fifo.start, fifo.room, fifo.awake, fifo.inside, fifo.order, fifo.whole⟩

theorem refuses (fifo : Fifo l) {ch : Byte} (refused : (l.loopbackPutc ch).2 = SYSERR) :
    l.accepted.length = l.delivered.length + LOOP_BUFFER := by
  rw [loopbackPutc] at refused
  split at refused
  · rename_i full
    have units : l.sem.units = LOOP_BUFFER := by
      have room := fifo.room
      rw [Lib.Sem.units] at room ⊢
      omega
    rw [fifo.order, List.length_append, stored, units, Lib.ring, List.length_map, List.length_range]
  · dsimp only at refused
    split at refused
    · have negative : (ch.toNat : Int) = -1 := refused
      omega
    · have negative : (ch.toNat : Int) = -1 := refused
      omega

end Fifo

/-- What the calls return is what is accepted and delivered. -/
structure Returned (l : Loopback) : Prop where
  putc : ∀ ch, (l.loopbackPutc ch).2 = SYSERR ∧ (l.loopbackPutc ch).1 = l ∨
    (l.loopbackPutc ch).2 = ch.toNat ∧ (l.loopbackPutc ch).1.accepted = l.accepted ++ [ch]
  getc : ∀ t c, (l.loopbackGetc t).2 = some c → c = EOF ∧ (l.loopbackGetc t).1 = l ∨
    ∃ ch : Byte, c = ch.toNat ∧ (l.loopbackGetc t).1.delivered = l.delivered ++ [ch]
  resume : ∀ t, ∃ ch : Byte, (l.resume t).2 = ch.toNat ∧ (l.resume t).1.delivered = l.delivered ++ [ch]

theorem returned (l : Loopback) : Returned l where
  putc ch := by
    rw [loopbackPutc]
    split
    · exact .inl ⟨rfl, rfl⟩
    · right
      dsimp only
      split <;> exact ⟨rfl, rfl⟩
  getc t c completed := by
    rw [loopbackGetc] at completed ⊢
    split at completed
    · rename_i empty
      rw [if_pos empty]
      cases completed
      exact .inl ⟨rfl, rfl⟩
    · rename_i ready
      rw [if_neg ready]
      generalize l.sem.wait t = waited at completed ⊢
      obtain ⟨sem, blocks⟩ := waited
      cases blocks with
      | true => cases completed
      | false =>
          cases completed
          exact .inr ⟨_, rfl, rfl⟩
  resume t := ⟨_, rfl, rfl⟩

/-- Over any run in which no character comes while a reader is blocked, the device is a queue. -/
theorem loopback_fifo {index : Nat} (start : index < LOOP_BUFFER) {l : Loopback}
    (reach : Lib.Reach step Unblocked (opened index) l) :
    (∀ i ∈ l.used, 0 ≤ i ∧ i < LOOP_BUFFER) ∧ l.delivered <+: l.accepted ∧
      (∀ ch, (l.loopbackPutc ch).2 = SYSERR →
        l.accepted.length = l.delivered.length + LOOP_BUFFER) ∧ Returned l := by
  have fifo : Fifo l :=
    reach.invariant (opened_fifo start) fun _ _ _ fifo unblocked action => fifo.step unblocked action
  refine ⟨fifo.inside, ?_, fun _ => fifo.refuses, returned l⟩
  rw [fifo.order]
  exact List.prefix_append ..

theorem loopback_fifo_two :
    ∃ l, Lib.Reach step Unblocked (opened 1023) l ∧ l.used = [1023, 0, 1023] ∧
      l.delivered <+: l.accepted := by
  have reach : Lib.Reach step Unblocked (opened 1023) _ :=
    .next (a := .getc 1) (.next (a := .putc 66)
      (.next (a := .putc 65) .init (Int.le_refl 0) rfl) (show (0 : Int) ≤ 1 by decide) rfl) trivial rfl
  exact ⟨_, reach, by decide, (loopback_fifo (by decide) reach).2.1⟩

theorem blockedReader_outside :
    ¬ ∀ l, Lib.Reach step (fun _ _ => True) (opened 0) l →
      (∀ i ∈ l.used, 0 ≤ i ∧ i < LOOP_BUFFER) ∧ l.delivered <+: l.accepted ∧
        (∀ ch, (l.loopbackPutc ch).2 = SYSERR →
          l.accepted.length = l.delivered.length + LOOP_BUFFER) := by
  intro claim
  have runs : (Lib.run step (fun _ _ => true) [.putc 120, .getc 1, .getc 2, .putc 65, .resume 2] (opened 0)).map
      (fun l => (l.used, l.delivered, l.accepted)) = some ([0, 0, 0, 1], [120, 0], [120, 65]) := by
    decide +kernel
  rw [Option.map_eq_some_iff] at runs
  obtain ⟨l, run, same⟩ := runs
  have reach : Lib.Reach step (fun _ _ => True) (opened 0) l := Lib.Reach.run (fun _ _ _ => trivial) .init run
  simp only [Prod.mk.injEq] at same
  have order := (claim l reach).2.1
  rw [same.2.1, same.2.2] at order
  exact absurd order (by decide)

end Xinu.Loopback
