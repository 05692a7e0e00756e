import Mathlib.Data.List.Basic
import Mathlib.Data.List.GetD

namespace Xinu.Lib

abbrev Byte := BitVec 8

instance : LawfulBEq Byte := inferInstance

def store (mem : Int → Byte) (a : Int) (bytes : List Byte) : Int → Byte :=
  fun i => if a ≤ i then bytes.getD (i - a).toNat (mem i) else mem i

def load (mem : Int → Byte) (a : Int) (n : Nat) : List Byte :=
  (List.range n).map fun i : Nat => mem (a + i)

section
variable {mem mem' : Int → Byte} {a b i : Int} {bytes : List Byte} {n m : Nat}

@[simp] theorem length_load : (load mem a n).length = n := by simp [load]

theorem getD_load (bound : m < n) (byte : Byte) : (load mem a n).getD m byte = mem (a + m) := by
  simp [load, List.getD, bound]

theorem load_const (byte : Byte) : load (fun _ => byte) a n = List.replicate n byte := by
  rw [load, List.map_const', List.length_range]

theorem store_before (before : i < a) : store mem a bytes i = mem i := by
  have : ¬ a ≤ i := by omega
  simp [store, this]

theorem store_after (after : a + bytes.length ≤ i) : store mem a bytes i = mem i := by
  have past : bytes.length ≤ (i - a).toNat := by omega
  simp only [store]
  split
  · rw [List.getD_eq_default _ _ past]
  · rfl

theorem store_within (within : a ≤ i ∧ i < a + bytes.length) (byte : Byte) :
    store mem a bytes i = bytes.getD (i - a).toNat byte := by
  have bound : (i - a).toNat < bytes.length := by omega
  rw [store, if_pos within.1, List.getD_eq_getElem _ _ bound, List.getD_eq_getElem _ _ bound]

theorem store_off (off : ¬ (a ≤ i ∧ i < a + bytes.length)) : store mem a bytes i = mem i := by
  by_cases before : i < a
  · exact store_before before
  · exact store_after (by omega)

theorem load_congr (same : ∀ i : Int, a ≤ i → i < a + n → mem' i = mem i) :
    load mem' a n = load mem a n := by
  apply List.map_congr_left
  intro i member
  have := List.mem_range.mp member
  exact same _ (by omega) (by omega)

theorem load_store_same : load (store mem a bytes) a bytes.length = bytes := by
  apply List.ext_getElem
  · simp
  · intro i bound bound'
    have within : a ≤ a + i ∧ a + i < a + bytes.length := by omega
    rw [← List.getD_eq_getElem _ 0 bound, getD_load bound', store_within within 0,
      ← List.getD_eq_getElem _ 0 bound']
    congr 1
    omega

theorem load_stored (length : bytes.length = n) : load (store mem a bytes) a n = bytes := by
  rw [← length]
  exact load_store_same

theorem load_store_apart (apart : a + n ≤ b ∨ b + bytes.length ≤ a) :
    load (store mem b bytes) a n = load mem a n := by
  apply load_congr
  intro i lo hi
  exact store_off (by omega)

theorem load_shift (same : ∀ i : Int, 0 ≤ i → i < n → mem' (b + i) = mem (a + i)) : load mem' b n = load mem a n := by
  apply List.map_congr_left
  intro i member
  have := List.mem_range.mp member
  exact same i (by omega) (by omega)

theorem load_two : load mem a 2 = [mem a, mem (a + 1)] := by simp [load, List.range_succ]

theorem load_append (mem : Int → Byte) (a : Int) (n m : Nat) : load mem a (n + m) = load mem a n ++ load mem (a + n) m := by
  simp only [load, List.range_add, List.map_append, List.map_map]
  congr 1
  apply List.map_congr_left
  intro i _
  simp [Int.add_assoc]

theorem load_succ (mem : Int → Byte) (a : Int) (n : Nat) : load mem a (n + 1) = mem a :: load mem (a + 1) n := by
  rw [Nat.add_comm, load_append]
  simp [load]

theorem store_append (mem : Int → Byte) (a : Int) (bytes bytes' : List Byte) :
    store (store mem a bytes) (a + bytes.length) bytes' = store mem a (bytes ++ bytes') := by
  funext i
  by_cases fst : a ≤ i ∧ i < a + bytes.length
  · rw [store_off (by omega), store_within fst 0, store_within (by rw [List.length_append]; omega) 0,
      List.getD_append _ _ _ _ (by omega)]
  · by_cases snd : a + bytes.length ≤ i ∧ i < a + bytes.length + bytes'.length
    · rw [store_within snd 0, store_within (by rw [List.length_append]; omega) 0,
        List.getD_append_right _ _ _ _ (by omega)]
      congr 1
      omega
    · rw [store_off snd, store_off fst, store_off (by rw [List.length_append]; omega)]

theorem store_comm {bytes' : List Byte} (apart : a + bytes.length ≤ b ∨ b + bytes'.length ≤ a) :
    store (store mem a bytes) b bytes' = store (store mem b bytes') a bytes := by
  funext i
  by_cases fst : a ≤ i ∧ i < a + bytes.length
  · rw [store_off (by omega), store_within fst 0, store_within fst 0]
  · by_cases snd : b ≤ i ∧ i < b + bytes'.length
    · rw [store_within snd 0, store_off fst, store_within snd 0]
    · rw [store_off snd, store_off fst, store_off fst, store_off snd]

theorem load_part (off : Nat) (bound : off + m ≤ n) :
    ((load mem a n).drop off).take m = load mem (a + off) m := by
  apply List.ext_getElem
  · simp
    omega
  · intro i bound bound'
    simp [load, Int.add_assoc]

theorem store_part (off : Nat) (bound : off + bytes.length ≤ n) :
    store mem a ((load mem a n).take off ++ bytes ++ (load mem a n).drop (off + bytes.length)) =
      store mem (a + off) bytes := by
  have length : ((load mem a n).take off ++ bytes ++
      (load mem a n).drop (off + bytes.length)).length = n := by
    simp
    omega
  funext i
  by_cases whole : a ≤ i ∧ i < a + n
  · rw [store_within (by rwa [length]) 0]
    have index : a + (i - a).toNat = i := by omega
    by_cases part : a + off ≤ i ∧ i < a + off + bytes.length
    · rw [store_within part 0, List.append_assoc, List.getD_append_right]
      · rw [List.getD_append]
        · congr 1
          simp
          omega
        · simp
          omega
      · simp
        omega
    · rw [store_off part]
      by_cases before : i < a + off
      · rw [List.append_assoc, List.getD_append]
        · simp only [List.getD, List.getElem?_take]
          rw [if_pos (by omega)]
          have := @getD_load mem a n (i - a).toNat (by omega) 0
          rw [index] at this
          simpa [List.getD] using this
        · simp
          omega
      · rw [List.getD_append_right]
        · simp only [List.getD, List.getElem?_drop]
          have := @getD_load mem a n (i - a).toNat (by omega) 0
          rw [index] at this
          rw [← this]
          simp only [List.getD, List.length_append, List.length_take, length_load]
          congr 2
          omega
        · simp
          omega
  · rw [store_off (by rwa [length]), store_off (by omega)]

end

def wordByte (w : BitVec 32) (j : Nat) : Byte := w.extractLsb' (8 * j) 8

def wordAt (bytes : List Byte) (i : Nat) : BitVec 32 :=
  bytes.getD (i + 3) 0 ++ bytes.getD (i + 2) 0 ++ bytes.getD (i + 1) 0 ++ bytes.getD i 0

def halfByte (w : BitVec 16) (j : Nat) : Byte := w.extractLsb' (8 * j) 8

def halfAt (bytes : List Byte) (i : Nat) : BitVec 16 := bytes.getD (i + 1) 0 ++ bytes.getD i 0

theorem wordAt_of_bytes {bytes : List Byte} {i : Nat} {w : BitVec 32}
    (same : ∀ j, j < 4 → bytes.getD (i + j) 0 = wordByte w j) : wordAt bytes i = w := by
  have zero := same 0 (by decide)
  rw [wordAt, same 3 (by decide), same 2 (by decide), same 1 (by decide), ← Nat.add_zero i, zero]
  apply BitVec.eq_of_getLsbD_eq
  intro j bound
  simp only [wordByte, BitVec.getLsbD_append, BitVec.getLsbD_extractLsb']
  grind

theorem halfAt_of_bytes {bytes : List Byte} {i : Nat} {w : BitVec 16}
    (same : ∀ j, j < 2 → bytes.getD (i + j) 0 = halfByte w j) : halfAt bytes i = w := by
  have zero := same 0 (by decide)
  rw [halfAt, same 1 (by decide), ← Nat.add_zero i, zero]
  apply BitVec.eq_of_getLsbD_eq
  intro j bound
  simp only [halfByte, BitVec.getLsbD_append, BitVec.getLsbD_extractLsb']
  grind

end Xinu.Lib
