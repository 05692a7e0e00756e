import Xinu.Lib.Ones
import Xinu.System.Ipv4

namespace Xinu
open Lib (Byte load store)

variable {order : ByteOrder} {mem mem' : Int → Byte} {a i : Int} {v sum len : Nat}

theorem get16_lt : get16 order mem a < 65536 := by
  have lo := (mem a).isLt
  have hi := (mem (a + 1)).isLt
  cases order <;> simp only [get16] <;> omega

theorem get16_congr {b : Int} (fst : mem' b = mem a) (snd : mem' (b + 1) = mem (a + 1)) :
    get16 order mem' b = get16 order mem a := by
  cases order <;> simp only [get16, fst, snd]

theorem put16_off (fst : i ≠ a) (snd : i ≠ a + 1) : put16 order mem a v i = mem i := by
  cases order <;>
  · apply Lib.store_off
    simp
    omega

theorem put16_fst : put16 order mem a v a = BitVec.ofNat 8 (match order with
    | .little => v
    | .big => v / 256) := by
  cases order <;> simp [put16, store]

theorem put16_snd : put16 order mem a v (a + 1) = BitVec.ofNat 8 (match order with
    | .little => v / 256
    | .big => v) := by
  have within : a ≤ a + 1 := by omega
  have index : (a + 1 - a).toNat = 1 := by omega
  cases order <;> simp only [put16, store, within, index, if_true] <;> simp

theorem get16_put16 : get16 order (put16 order mem a v) a = v % 65536 := by
  cases order <;> simp only [get16, put16_fst, put16_snd, BitVec.toNat_ofNat] <;> omega

theorem get16_put16_apart {b : Int} (apart : b + 2 ≤ a ∨ a + 2 ≤ b) :
    get16 order (put16 order mem a v) b = get16 order mem b :=
  get16_congr (put16_off (by omega) (by omega)) (put16_off (by omega) (by omega))

theorem load_put16_apart {b : Int} {n : Nat} (apart : b + n ≤ a ∨ a + 2 ≤ b) :
    load (put16 order mem a v) b n = load mem b n := by
  apply Lib.load_congr
  intro i lo hi
  exact put16_off (by omega) (by omega)

theorem hs2net_lt (bound : v < 65536) : hs2net order v < 65536 := by
  cases order <;> simp only [hs2net] <;> omega

theorem net2hs_hs2net (bound : v < 65536) : net2hs order (hs2net order v) = v := by
  cases order with
  | big => rfl
  | little =>
      simp only [net2hs, hs2net]
      have high : (v / 256 % 256 + 256 * (v % 256)) / 256 = v % 256 := by omega
      have low : (v / 256 % 256 + 256 * (v % 256)) % 256 = v / 256 := by omega
      rw [high, low]
      omega

theorem net2hs_put16 (bound : v < 65536) :
    net2hs order (get16 order (put16 order mem a (hs2net order v)) a) = v := by
  rw [get16_put16, Nat.mod_eq_of_lt (hs2net_lt bound), net2hs_hs2net bound]

def net16 (v : Nat) : List Byte := [BitVec.ofNat 8 (v / 256), BitVec.ofNat 8 v]

theorem put16_net (order : ByteOrder) (mem : Int → Byte) (a : Int) (v : Nat) :
    put16 order mem a (hs2net order v) = store mem a (net16 v) := by
  cases order with
  | big => rfl
  | little =>
      have low : BitVec.ofNat 8 (v / 256 % 256 + 256 * (v % 256)) = BitVec.ofNat 8 (v / 256) := by
        apply BitVec.eq_of_toNat_eq
        simp only [BitVec.toNat_ofNat]
        omega
      have quotient : (v / 256 % 256 + 256 * (v % 256)) / 256 = v % 256 := by omega
      have high : BitVec.ofNat 8 (v % 256) = BitVec.ofNat 8 v := by
        apply BitVec.eq_of_toNat_eq
        simp only [BitVec.toNat_ofNat]
        omega
      simp only [put16, hs2net, low, quotient, high, net16]

theorem put16_zero (order : ByteOrder) (mem : Int → Byte) (a : Int) : put16 order mem a 0 = store mem a (net16 0) := by
  cases order <;> rfl

theorem net2hs_get16 (order : ByteOrder) (mem : Int → Byte) (a : Int) :
    net2hs order (get16 order mem a) = 256 * (mem a).toNat + (mem (a + 1)).toNat := by
  have lo := (mem a).isLt
  have hi := (mem (a + 1)).isLt
  cases order with
  | big => rfl
  | little =>
      simp only [net2hs, hs2net, get16]
      omega

theorem net2hs_net16 (holds : load mem a 2 = net16 v) (bound : v < 65536) :
    net2hs order (get16 order mem a) = v := by
  rw [Lib.load_two, net16] at holds
  simp only [List.cons.injEq, and_true] at holds
  obtain ⟨fst, snd⟩ := holds
  rw [net2hs_get16, fst, snd, BitVec.toNat_ofNat, BitVec.toNat_ofNat]
  omega

theorem chksumAdd_shift {b : Int} (same : ∀ i : Int, 0 ≤ i → i < len → mem' (b + i) = mem (a + i)) :
    chksumAdd order mem' b len = chksumAdd order mem a len := by
  induction a, len using chksumAdd.induct generalizing b with
  | case1 a => rfl
  | case2 a =>
      have byte := same 0 (by omega) (by omega)
      rw [Int.add_zero, Int.add_zero] at byte
      rw [chksumAdd, chksumAdd, byte]
  | case3 a len ih =>
      have byte := same 0 (by omega) (by omega)
      rw [Int.add_zero, Int.add_zero] at byte
      rw [chksumAdd, chksumAdd, get16_congr byte (same 1 (by omega) (by omega)), ih]
      intro i lo hi
      rw [Int.add_assoc, Int.add_assoc]
      exact same (2 + i) (by omega) (by omega)

theorem chksumAdd_congr (same : ∀ i : Int, a ≤ i → i < a + len → mem' i = mem i) :
    chksumAdd order mem' a len = chksumAdd order mem a len :=
  chksumAdd_shift fun i lo hi => same (a + i) (by omega) (by omega)

theorem chksumAdd_append (order : ByteOrder) (mem : Int → Byte) (a : Int) (fst snd : Nat) :
    chksumAdd order mem a (2 * fst + snd) =
      chksumAdd order mem a (2 * fst) + chksumAdd order mem (a + 2 * fst) snd := by
  induction fst generalizing a with
  | zero => simp [chksumAdd]
  | succ fst ih =>
      have next : a + 2 + 2 * (fst : Int) = a + 2 * ((fst + 1 : Nat) : Int) := by omega
      rw [show 2 * (fst + 1) + snd = (2 * fst + snd) + 2 by omega,
        show 2 * (fst + 1) = 2 * fst + 2 by omega, chksumAdd, chksumAdd, ih, next, Nat.add_assoc]

theorem chksumAdd_le : chksumAdd order mem a len ≤ 65535 * len := by
  induction a, len using chksumAdd.induct with
  | case1 a => simp [chksumAdd]
  | case2 a =>
      have byte := (mem a).isLt
      have word : hs2net order ((mem a).toNat * 256) < 65536 := hs2net_lt (by omega)
      simp only [chksumAdd, net2hs]
      omega
  | case3 a len ih =>
      have word : get16 order mem a < 65536 := get16_lt
      rw [chksumAdd]
      omega

theorem chksumAdd_lt (bound : len < 65537) : chksumAdd order mem a len < 2 ^ 32 := by
  have least : chksumAdd order mem a len ≤ 65535 * len := chksumAdd_le
  omega

theorem endAround_mod : (sum / 65536 + sum % 65536) % 65535 = sum % 65535 := by
  omega

theorem chksumFold_mod (sum fuel : Nat) : chksumFold fuel sum % 65535 = sum % 65535 := by
  induction fuel generalizing sum with
  | zero => rfl
  | succ fuel ih =>
      rw [chksumFold]
      split
      · rfl
      · rw [ih, endAround_mod]

theorem chksumFold_eq_zero (sum fuel : Nat) : chksumFold fuel sum = 0 ↔ sum = 0 := by
  induction fuel generalizing sum with
  | zero => rfl
  | succ fuel ih =>
      rw [chksumFold]
      split
      · rfl
      · rw [ih]
        omega

theorem chksumFold_lt (bound : sum < 2 ^ 32) : chksumFold 3 sum < 65536 := by
  simp only [chksumFold]
  split
  · omega
  · split
    · omega
    · split <;> omega

theorem netChksum_eq_zero (bound : len < 65536) :
    netChksum order mem a len = 0 ↔
      chksumAdd order mem a len ≠ 0 ∧ chksumAdd order mem a len % 65535 = 0 := by
  have small : chksumFold 3 (chksumAdd order mem a len) < 65536 := chksumFold_lt (chksumAdd_lt (by omega))
  have same := chksumFold_mod (chksumAdd order mem a len) 3
  have zero := chksumFold_eq_zero (chksumAdd order mem a len) 3
  rw [netChksum, Nat.mod_eq_of_lt (chksumAdd_lt (by omega))]
  omega

theorem chksumAdd_words (mem : Int → Byte) (a : Int) (len : Nat) :
    chksumAdd .big mem a len = (Lib.words (load mem a len)).sum := by
  induction a, len using chksumAdd.induct with
  | case1 a => rfl
  | case2 a =>
      rw [chksumAdd, Lib.load_succ, load, List.range_zero, List.map_nil, Lib.words, List.sum_singleton,
        Nat.mul_comm]
      rfl
  | case3 a len ih =>
      have next : a + 1 + 1 = a + 2 := by omega
      rw [chksumAdd, Lib.load_succ, Lib.load_succ, next, Lib.words, List.sum_cons, ih]
      rfl

theorem netChksum_lt : netChksum order mem a len < 65536 := by
  rw [netChksum]
  omega

theorem netChksum_shift {b : Int} (same : ∀ i : Int, 0 ≤ i → i < len → mem' (b + i) = mem (a + i)) :
    netChksum order mem' b len = netChksum order mem a len := by
  rw [netChksum, netChksum, chksumAdd_shift same]

theorem chksumAdd_swap (mem : Int → Byte) (a : Int) (len : Nat) :
    256 * chksumAdd .big mem a len % 65535 = chksumAdd .little mem a len % 65535 := by
  induction a, len using chksumAdd.induct with
  | case1 a => rfl
  | case2 a =>
      have byte := (mem a).isLt
      have high : (mem a).toNat * 256 / 256 % 256 = (mem a).toNat := by omega
      have low : (mem a).toNat * 256 % 256 = 0 := by omega
      simp only [chksumAdd, net2hs, hs2net, high, low]
      omega
  | case3 a len ih =>
      simp only [chksumAdd, get16]
      omega

theorem chksumAdd_swap_zero (mem : Int → Byte) (a : Int) (len : Nat) :
    chksumAdd .big mem a len = 0 ↔ chksumAdd .little mem a len = 0 := by
  induction a, len using chksumAdd.induct with
  | case1 a => rfl
  | case2 a =>
      have byte := (mem a).isLt
      simp only [chksumAdd, net2hs, hs2net]
      omega
  | case3 a len ih =>
      simp only [chksumAdd, get16]
      omega

theorem hs2net_eq_zero (bound : v < 65536) : hs2net order v = 0 ↔ v = 0 := by
  cases order with
  | big => rfl
  | little =>
      rw [hs2net]
      omega

theorem hs2net_little_mod (bound : v < 65536) : hs2net .little v % 65535 = 256 * v % 65535 := by
  have high : v / 256 % 256 = v / 256 := Nat.mod_eq_of_lt (by omega)
  have whole : 256 * v = v / 256 + 256 * (v % 256) + 65535 * (v / 256) := by omega
  rw [hs2net, high, whole, Nat.add_mul_mod_self_left]

theorem chksumFold_ones (bound : len < 65536) :
    chksumFold 3 (chksumAdd order mem a len) = hs2net order (Lib.onesSum (Lib.words (load mem a len))) := by
  have small : Lib.onesSum (Lib.words (load mem a len)) < 65536 := Lib.onesSum_lt (Lib.words_lt _)
  have residue := @Lib.onesSum_mod (Lib.words (load mem a len))
  have zero := @Lib.onesSum_eq_zero (Lib.words (load mem a len))
  rw [← chksumAdd_words] at residue zero
  have folded := chksumFold_mod (chksumAdd order mem a len) 3
  have foldedZero := chksumFold_eq_zero (chksumAdd order mem a len) 3
  apply Lib.ones_unique (chksumFold_lt (chksumAdd_lt (by omega))) (hs2net_lt small)
  · rw [folded]
    cases order with
    | big => exact residue.symm
    | little =>
        calc
          chksumAdd .little mem a len % 65535 = 256 * chksumAdd .big mem a len % 65535 := (chksumAdd_swap mem a len).symm
          _ = 256 * Lib.onesSum (Lib.words (load mem a len)) % 65535 := by
            rw [Nat.mul_mod, ← residue, ← Nat.mul_mod]
          _ = hs2net .little (Lib.onesSum (Lib.words (load mem a len))) % 65535 := (hs2net_little_mod small).symm
  · rw [foldedZero]
    cases order with
    | big => exact zero.symm
    | little =>
        exact (chksumAdd_swap_zero mem a len).symm.trans (zero.symm.trans (hs2net_eq_zero small).symm)

theorem hs2net_complement (bound : v < 65536) : hs2net order (65535 - v) = 65535 - hs2net order v := by
  cases order <;> simp only [hs2net]
  omega

theorem netChksum_ones (order : ByteOrder) (mem : Int → Byte) (a : Int) (bound : len < 65536) :
    netChksum order mem a len = hs2net order (65535 - Lib.onesSum (Lib.words (load mem a len))) := by
  rw [netChksum, Nat.mod_eq_of_lt (chksumAdd_lt (by omega)), chksumFold_ones bound,
    hs2net_complement (Lib.onesSum_lt (Lib.words_lt _))]

theorem netChksum_order (order' : ByteOrder) (bound : len < 65536) :
    netChksum order mem a len = 0 ↔ netChksum order' mem a len = 0 := by
  have swap := chksumAdd_swap mem a len
  have zero := chksumAdd_swap_zero mem a len
  rw [netChksum_eq_zero bound, netChksum_eq_zero bound]
  cases order <;> cases order' <;> omega

theorem setChksum_off (fst : i ≠ a + 10) (snd : i ≠ a + 11) :
    setChksum order mem a len i = mem i := by
  rw [setChksum, put16_off fst (by omega), put16_off fst (by omega)]

theorem chksumAdd_field (order : ByteOrder) (mem : Int → Byte) (a : Int) {k : Nat} (within : 2 * k + 2 ≤ len) :
    chksumAdd order mem a len = chksumAdd order mem a (2 * k) + get16 order mem (a + 2 * k) +
      chksumAdd order mem (a + 2 * k + 2) (len - 2 * k - 2) := by
  have split := chksumAdd_append order mem a k (len - 2 * k)
  rw [show 2 * k + (len - 2 * k) = len by omega,
    show len - 2 * k = (len - 2 * k - 2) + 2 by omega, chksumAdd] at split
  rw [split, Nat.add_assoc]

theorem chksum_closes (sum : Nat) :
    chksumFold 3 ((sum + (65535 - chksumFold 3 (sum % 2 ^ 32))) % 2 ^ 32) = 65535 := by
  have small : sum % 2 ^ 32 < 2 ^ 32 := by omega
  have fold := chksumFold_lt small
  have same := chksumFold_mod (sum % 2 ^ 32) 3
  have zero := chksumFold_eq_zero (sum % 2 ^ 32) 3
  have total : (sum + (65535 - chksumFold 3 (sum % 2 ^ 32))) % 2 ^ 32 =
      sum % 2 ^ 32 + (65535 - chksumFold 3 (sum % 2 ^ 32)) := by omega
  rw [total]
  generalize chksumFold 3 (sum % 2 ^ 32) = folded at *
  have closed := chksumFold_lt (show sum % 2 ^ 32 + (65535 - folded) < 2 ^ 32 by omega)
  have closedSame := chksumFold_mod (sum % 2 ^ 32 + (65535 - folded)) 3
  have closedZero := chksumFold_eq_zero (sum % 2 ^ 32 + (65535 - folded)) 3
  omega

theorem stored_verifies {k : Nat} (within : 2 * k + 2 ≤ len) (cleared : get16 order mem (a + 2 * k) = 0) :
    netChksum order (put16 order mem (a + 2 * k) (netChksum order mem a len)) a len = 0 := by
  have before : chksumAdd order (put16 order mem (a + 2 * k) (netChksum order mem a len)) a (2 * k) =
      chksumAdd order mem a (2 * k) := by
    apply chksumAdd_congr
    intro i lo hi
    exact put16_off (by omega) (by omega)
  have after : chksumAdd order (put16 order mem (a + 2 * k) (netChksum order mem a len)) (a + 2 * k + 2)
      (len - 2 * k - 2) = chksumAdd order mem (a + 2 * k + 2) (len - 2 * k - 2) := by
    apply chksumAdd_congr
    intro i lo hi
    exact put16_off (by omega) (by omega)
  have field : get16 order (put16 order mem (a + 2 * k) (netChksum order mem a len)) (a + 2 * k) =
      netChksum order mem a len := by
    rw [get16_put16, Nat.mod_eq_of_lt netChksum_lt]
  have sum := chksumAdd_field order mem a within
  rw [cleared, Nat.add_zero] at sum
  have stored : chksumAdd order (put16 order mem (a + 2 * k) (netChksum order mem a len)) a len =
      chksumAdd order mem a len + netChksum order mem a len := by
    rw [chksumAdd_field _ _ _ within, before, after, field, sum]
    omega
  rw [netChksum, stored, netChksum, chksum_closes]

theorem setChksum_verifies (enough : 12 ≤ len) : netChksum order (setChksum order mem a len) a len = 0 := by
  apply stored_verifies (show 2 * 5 + 2 ≤ len by omega)
  show get16 order (put16 order mem (a + 10) 0) (a + 10) = 0
  rw [get16_put16]

end Xinu
