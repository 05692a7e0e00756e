import Xinu.Lib.Bytes

/-!
# Sorting an array

The array is the memory, and a pointer is an offset in it: what reads or writes outside has no result. The comparison
function may look at the whole array and keep a state of its own.
-/

namespace Xinu.Qsort
open Lib (Byte)

/-- What a comparison function returns for two pointers, and the state that it leaves. -/
abbrev Compar (σ : Type) := σ → Nat → Nat → List Byte → Int × σ

def swap_elements : Nat → Nat → Nat → List Byte → Option (List Byte)
  | _, _, 0, mem => some mem
  | p1, p2, n + 1, mem =>
      match mem[p1]?, mem[p2]? with
      | some a, some b => swap_elements (p1 + 1) (p2 + 1) n ((mem.set p1 b).set p2 a)
      | _, _ => none

section
variable {σ : Type} (compar : Compar σ) (size : Nat)

structure Pass (σ : Type) where
  mem : List Byte
  state : σ
  p1 : Nat
  p2 : Nat
  p1_index : Nat

/-- The body of the loop of `partition`. The comparison function gets pointers to elements of the array. -/
def partitionBody (base : Nat) (t : Pass σ) : Option (Pass σ) :=
  if t.p1 + size ≤ t.mem.length ∧ base + size ≤ t.mem.length then
    let (order, state) := compar t.state t.p1 base t.mem
    if order ≤ 0 then some { t with state, p1 := t.p1 + size, p1_index := t.p1_index + 1 }
    else if t.p2 < size then none
    else (swap_elements t.p1 (t.p2 - size) size t.mem).map fun mem => { t with mem, state, p2 := t.p2 - size }
  else none

def partitionLoop (base : Nat) : Nat → Pass σ → Option (Pass σ)
  | 0, _ => none
  | fuel + 1, t =>
      (partitionBody compar size base t).bind fun t => if t.p1 ≠ t.p2 then partitionLoop base fuel t else some t

def partition (base nmemb : Nat) (mem : List Byte) (state : σ) : Option (List Byte × σ × Nat) :=
  (partitionLoop compar size base nmemb ⟨mem, state, base + size, base + nmemb * size, 1⟩).bind fun t =>
    if t.p1 < size then none
    else (swap_elements (t.p1 - size) base size t.mem).map fun mem => (mem, t.state, t.p1_index - 1)

def qsort : Nat → Nat → Nat → List Byte → σ → Option (List Byte × σ)
  | 0, _, _, _, _ => none
  | fuel + 1, base, nmemb, mem, state =>
      if nmemb > 1 then
        (partition compar size base nmemb mem state).bind fun (mem, state, pivot_index) =>
          (qsort fuel base pivot_index mem state).bind fun (mem, state) =>
            qsort fuel (base + (pivot_index + 1) * size) (nmemb - (pivot_index + 1)) mem state
      else some (mem, state)

end

end Xinu.Qsort
