import Mathlib.Algebra.Group.Int.Defs
import Mathlib.Algebra.GroupWithZero.Nat
import Mathlib.Logic.Function.Basic

/-!
# Constants

The size constants that `xinu.conf` fixes for a platform are parameters of the whole development.
Only the Raspberry Pi configuration defines `NFUT`, which `queue.h` needs.
-/

namespace Xinu

structure Config where
  nthread : Nat
  nsem : Nat
  nmon : Nat
  nfut : Nat
  nthread_pos : 0 < nthread

/-- `NQENT`: 1 per thread, 2 per list, 2 per semaphore, 2 per future. -/
def Config.nqent (c : Config) : Nat := c.nthread + 4 + c.nsem + c.nsem + c.nfut + c.nfut

/-- `compile/platforms/arm-rpi/xinu.conf`; `monitor.h` sets `NMON` to 0 there. -/
def armRpi : Config := ⟨100, 100, 0, 100, by decide⟩

abbrev OK : Int := 1
abbrev SYSERR : Int := -1
abbrev TIMEOUT : Int := -3
abbrev NOMSG : Int := -4

abbrev NULLTHREAD : Int := 0
abbrev BADTID : Int := -1
abbrev MINSTK : Nat := 128

abbrev EMPTY : Int := -2
abbrev MAXKEY : Int := 0x7FFFFFFF
abbrev MINKEY : Int := -0x80000000

def int32 (n : Int) : Int := n.bmod (2 ^ 32)

theorem int32_eq {n : Int} (lo : MINKEY ≤ n) (hi : n ≤ MAXKEY) : int32 n = n := by
  rw [MINKEY] at lo
  rw [MAXKEY] at hi
  apply Int.bmod_eq_of_le
  · omega
  · omega

abbrev CLKTICKS_PER_SEC : Nat := 1000

abbrev quehead (q : Int) : Int := q
abbrev quetail (q : Int) : Int := q + 1

/-- The scan of `thrnew`, `semalloc` and `monalloc`: a static index that moves on by one, modulo
the table size, until it meets a free entry. -/
def rotate (n : Nat) (free : Nat → Bool) : Nat → Nat → Nat × Option Nat
  | 0, i => (i, none)
  | fuel + 1, i =>
      let i := (i + 1) % n
      if free i then (i, some i) else rotate n free fuel i

theorem rotate_some {n : Nat} {free : Nat → Bool} (pos : 0 < n) {fuel i j x : Nat}
    (h : rotate n free fuel i = (j, some x)) : x < n ∧ free x = true := by
  induction fuel generalizing i with
  | zero => simp [rotate] at h
  | succ fuel ih =>
      simp only [rotate] at h
      split at h
      · rename_i isFree
        simp only [Prod.mk.injEq, Option.some.injEq] at h
        obtain ⟨-, rfl⟩ := h
        exact ⟨Nat.mod_lt _ pos, isFree⟩
      · exact ih h

theorem rotate_none {n : Nat} {free : Nat → Bool} {fuel i j : Nat} (none : rotate n free fuel i = (j, none)) :
    ∀ k < fuel, free ((i + k + 1) % n) = false := by
  induction fuel generalizing i with
  | zero => exact nofun
  | succ fuel ih =>
      simp only [rotate] at none
      split at none
      · cases none
      · rename_i used
        intro k bound
        cases k with
        | zero => exact Bool.eq_false_iff.mpr used
        | succ k =>
            have later := ih none k (Nat.lt_of_succ_lt_succ bound)
            rwa [Nat.add_assoc, Nat.mod_add_mod, show i + 1 + (k + 1) = i + (k + 1) + 1 by omega] at later

theorem rotate_full {n : Nat} {free : Nat → Bool} {i j x : Nat} (none : rotate n free n i = (j, none)) (bound : x < n) :
    free x = false := by
  have round := rotate_none none ((x + n - (i + 1) % n) % n) (Nat.mod_lt _ (by omega))
  have below := Nat.mod_lt (i + 1) (show 0 < n by omega)
  have place : (i + (x + n - (i + 1) % n) % n + 1) % n = x := by
    rw [show i + (x + n - (i + 1) % n) % n + 1 = i + 1 + (x + n - (i + 1) % n) % n by omega,
      Nat.add_mod, Nat.mod_mod, ← Nat.add_mod_mod, Nat.mod_mod, Nat.add_mod_mod,
      show (i + 1) % n + (x + n - (i + 1) % n) = x + n by omega, Nat.add_mod_right, Nat.mod_eq_of_lt bound]
  rwa [place] at round

end Xinu
