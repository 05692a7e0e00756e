import Xinu.Lib.Runs
import Xinu.Proof.Nvram.Map

namespace Xinu.Nvram
open Lib (Byte)

def pairs (s : Nvram) : List (List Byte) :=
  (List.range NVRAM_NHASH).flatMap fun n => (s.tuples n).map Tuple.pair

def bytesOf (pairs : List (List Byte)) : Nat := (pairs.map fun pair => pair.length + 1).sum

def Counted (s : Nvram) : Prop := s.header.length = SIZEOF_HEADER + bytesOf s.pairs

structure Stored (i : Nat) (t : Tuple) : Prop where
  some : t.pair ≠ []
  string : 0 ∉ t.pair
  short : t.pair.length ≤ NVRAM_STRMAX
  size : t.size = SIZEOF_TUPLE + t.pair.length
  hash : nvramHash t.pair = i

variable {s : Nvram} {t : Tuple} {name value : List Byte}

theorem sum_update (f : Nat → Nat) {n k : Nat} (bound : k < n) (v : Nat) :
    ((List.range n).map (Function.update f k v)).sum + f k = ((List.range n).map f).sum + v := by
  induction n with
  | zero => cases bound
  | succ n ih =>
      rw [List.range_succ, List.map_append, List.map_append, List.sum_append, List.sum_append]
      by_cases last : k = n
      · subst last
        have before : (List.range k).map (Function.update f k v) = (List.range k).map f := by
          apply List.map_congr_left
          intro i inside
          exact Function.update_of_ne (Nat.ne_of_lt (List.mem_range.mp inside)) ..
        simp only [before, List.map_singleton, List.sum_singleton, Function.update_self]
        omega
      · have step := ih (by omega)
        simp only [List.map_singleton, List.sum_singleton, Function.update_of_ne (Ne.symm last)]
        omega

theorem sum_erase {p : Tuple → Bool} {l : List Tuple} (first : l.find? p = some t) (f : Tuple → Nat) :
    ((l.eraseP p).map f).sum + f t = (l.map f).sum := by
  induction l with
  | nil => cases first
  | cons x l ih =>
      rw [List.find?_cons] at first
      rw [List.eraseP_cons]
      cases hit : p x with
      | true =>
          rw [hit] at first
          cases first
          simp only [cond_true, List.map_cons, List.sum_cons]
          omega
      | false =>
          rw [hit] at first
          have rest := ih first
          simp only [cond_false, List.map_cons, List.sum_cons]
          omega

def weight (l : List Tuple) : Nat := (l.map fun t => t.pair.length + 1).sum

theorem bytesOf_pairs (s : Nvram) :
    bytesOf s.pairs = ((List.range NVRAM_NHASH).map fun n => weight (s.tuples n)).sum := by
  rw [bytesOf, pairs]
  induction List.range NVRAM_NHASH with
  | nil => rfl
  | cons n rest ih =>
      rw [List.flatMap_cons, List.map_append, List.sum_append, ih, List.map_cons, List.sum_cons, List.map_map]
      rfl

theorem bytesOf_update {tuples' : Nat → List Tuple} {k : Nat} {l : List Tuple} (bound : k < NVRAM_NHASH)
    (update : tuples' = Function.update s.tuples k l) :
    ((List.range NVRAM_NHASH).map fun n => weight (tuples' n)).sum + weight (s.tuples k) =
      bytesOf s.pairs + weight l := by
  have sums := sum_update (fun n => weight (s.tuples n)) bound (weight l)
  have same : (fun n => weight (tuples' n)) = Function.update (fun n => weight (s.tuples n)) k (weight l) := by
    funext n
    rw [update]
    by_cases here : n = k
    · rw [here, Function.update_self, Function.update_self]
    · rw [Function.update_of_ne here, Function.update_of_ne here]
  rw [same, bytesOf_pairs]
  exact sums

theorem nvramHash_lt (p : List Byte) : nvramHash p < NVRAM_NHASH := Nat.mod_lt _ (Nat.zero_lt_succ _)

theorem strnlen_stored {i : Nat} (stored : Stored i t) : strnlen t.pair NVRAM_STRMAX = t.pair.length :=
  Nat.min_eq_left stored.short

theorem insert_counted (counted : Counted s) {i : Nat} (stored : Stored i t) : Counted (s.nvramInsert t) := by
  have update := @bytesOf_update s (s.nvramInsert t).tuples _ _ (nvramHash_lt t.pair) rfl
  rw [← bytesOf_pairs] at update
  have more : weight (s.tuples (nvramHash t.pair) ++ [t]) = weight (s.tuples (nvramHash t.pair)) + (t.pair.length + 1) := by
    simp [weight]
  have count : (s.nvramInsert t).header.length = s.header.length + (t.pair.length + 1) := by
    rw [nvramInsert, strnlen_stored stored]
  rw [Counted] at counted ⊢
  omega

theorem unset_counted (counted : Counted s) (all : ∀ i, ∀ t ∈ s.tuples i, Stored i t) (name : List Byte) :
    Counted (s.nvramUnset name).1 := by
  rw [nvramUnset]
  cases first : (s.tuples (nvramHash name)).find? (found' name) with
  | none => exact counted
  | some t =>
      have stored := all _ t (List.mem_of_find?_eq_some first)
      simp only [strnlen_stored stored]
      have update := bytesOf_update (s := s)
        (l := (s.tuples (nvramHash name)).eraseP (found' name)) (nvramHash_lt name) rfl
      have less : weight ((s.tuples (nvramHash name)).eraseP (found' name)) + (t.pair.length + 1) =
          weight (s.tuples (nvramHash name)) := sum_erase first _
      rw [Counted] at counted ⊢
      rw [bytesOf_pairs]
      simp only
      omega

inductive Op'
  | set (name value : List Byte)
  | unset (name : List Byte)
  | commit
  deriving DecidableEq, Repr

def step : Op' → Nvram → Option Nvram
  | .set name value, s => some (s.nvramSet name value).1
  | .unset name, s => some (s.nvramUnset name).1
  | .commit, s => some s.nvramCommit

/-- The tuple that `nvramUnset` removes has a pair of a multiple of 8 characters. -/
def Aligned (s : Nvram) (name : List Byte) : Prop :=
  ∀ t ∈ (s.tuples (nvramHash name)).find? (found' name), t.pair.length % 8 = 0

instance (s : Nvram) (name : List Byte) : Decidable (Aligned s name) :=
  inferInstanceAs (Decidable (∀ t ∈ (s.tuples (nvramHash name)).find? (found' name), t.pair.length % 8 = 0))

/-- Nothing follows a commit, the image fits, pairs are short, and those that are removed are aligned. -/
def Once (s : Nvram) : Op' → Prop
  | .set name value => s.images = [] ∧ Named name ∧ Valued value ∧
      name.length + 1 + value.length ≤ NVRAM_STRMAX ∧ Aligned s name
  | .unset name => s.images = [] ∧ Aligned s name
  | .commit => s.images = [] ∧ s.committed.length ≤ NVRAM_SIZE

instance (s : Nvram) : (op : Op') → Decidable (Once s op)
  | .set name value => inferInstanceAs (Decidable (s.images = [] ∧ Named name ∧ Valued value ∧
      name.length + 1 + value.length ≤ NVRAM_STRMAX ∧ Aligned s name))
  | .unset name => inferInstanceAs (Decidable (s.images = [] ∧ Aligned s name))
  | .commit => inferInstanceAs (Decidable (s.images = [] ∧ s.committed.length ≤ NVRAM_SIZE))

def Reads (image : List Byte) (s : Nvram) : Prop :=
  ∃ s', nvramInit image = some s' ∧ ∀ i, (s'.tuples i).map Tuple.pair = (s.tuples i).map Tuple.pair

structure Kept (s : Nvram) : Prop where
  stored : ∀ i, ∀ t ∈ s.tuples i, Stored i t
  freed : ∀ b ∈ s.freed, b.1 = b.2
  counted : s.images = [] → Counted s
  reads : ∀ image ∈ s.images, Reads image s

theorem insert_stored {i : Nat} (all : ∀ i, ∀ t ∈ s.tuples i, Stored i t) (stored : Stored i t) :
    ∀ i, ∀ u ∈ (s.nvramInsert t).tuples i, Stored i u := by
  intro j u inside
  have inside : u ∈ Function.update s.tuples (nvramHash t.pair) (s.tuples (nvramHash t.pair) ++ [t]) j := inside
  by_cases here : j = nvramHash t.pair
  · rw [here, Function.update_self] at inside
    rcases List.mem_append.mp inside with before | last
    · exact here ▸ all _ u before
    · rw [List.mem_singleton.mp last, here, stored.hash]
      exact stored
  · rw [Function.update_of_ne here] at inside
    exact all j u inside

theorem unset_stored (all : ∀ i, ∀ t ∈ s.tuples i, Stored i t) (name : List Byte) :
    ∀ i, ∀ u ∈ (s.nvramUnset name).1.tuples i, Stored i u := by
  intro j u inside
  rw [nvramUnset] at inside
  cases first : (s.tuples (nvramHash name)).find? (found' name) with
  | none =>
      rw [first] at inside
      exact all j u inside
  | some t =>
      rw [first] at inside
      have inside : u ∈ Function.update s.tuples (nvramHash name)
        ((s.tuples (nvramHash name)).eraseP (found' name)) j := inside
      by_cases here : j = nvramHash name
      · rw [here, Function.update_self] at inside
        exact here ▸ all _ u (List.mem_of_mem_eraseP inside)
      · rw [Function.update_of_ne here] at inside
        exact all j u inside

theorem roundmb_tuple {n : Nat} (short : n ≤ NVRAM_STRMAX) :
    roundmb (SIZEOF_TUPLE + n) = roundmb (n + 1) ↔ n % 8 = 0 := by
  have short : n ≤ 1024 := short
  rw [roundmb, roundmb, SIZEOF_TUPLE, Nat.mod_eq_of_lt (by rw [WORD]; omega), Nat.mod_eq_of_lt (by rw [WORD]; omega)]
  omega

theorem unset_freed (all : ∀ i, ∀ t ∈ s.tuples i, Stored i t) (freed : ∀ b ∈ s.freed, b.1 = b.2)
    (aligned : Aligned s name) : ∀ b ∈ (s.nvramUnset name).1.freed, b.1 = b.2 := by
  intro b inside
  rw [nvramUnset] at inside
  cases first : (s.tuples (nvramHash name)).find? (found' name) with
  | none =>
      rw [first] at inside
      exact freed b inside
  | some t =>
      have stored := all _ t (List.mem_of_find?_eq_some first)
      rw [first] at inside
      rcases List.mem_append.mp inside with before | last
      · exact freed b before
      · rw [List.mem_singleton.mp last, strnlen_stored stored, stored.size]
        exact (roundmb_tuple stored.short).mpr (aligned t first)

theorem unset_images (s : Nvram) (name : List Byte) : (s.nvramUnset name).1.images = s.images := by
  rw [nvramUnset]
  split
  · rfl
  · rfl

theorem set_kept (kept : Kept s) (clean : s.images = []) (named : Named name) (valued : Valued value)
    (short : name.length + 1 + value.length ≤ NVRAM_STRMAX) (aligned : Aligned s name) :
    Kept (s.nvramSet name value).1 := by
  have counted := kept.counted clean
  have unset : (∀ i, ∀ t ∈ (if s.nvramGet name ≠ none then (s.nvramUnset name).1 else s).tuples i, Stored i t) ∧
      (∀ b ∈ (if s.nvramGet name ≠ none then (s.nvramUnset name).1 else s).freed, b.1 = b.2) ∧
      Counted (if s.nvramGet name ≠ none then (s.nvramUnset name).1 else s) ∧
      (if s.nvramGet name ≠ none then (s.nvramUnset name).1 else s).images = [] := by
    split
    · exact ⟨unset_stored kept.stored name, unset_freed kept.stored kept.freed aligned,
        unset_counted counted kept.stored name, (unset_images s name).trans clean⟩
    · exact ⟨kept.stored, kept.freed, counted, clean⟩
  obtain ⟨stored, freed, counted', clean'⟩ := unset
  have pair := pair_of named valued
  have first := @nameOf_pair _ value named.plain
  have length : (name ++ 61 :: value).length = name.length + 1 + value.length := by
    rw [List.length_append, List.length_cons]
    omega
  have size : SIZEOF_TUPLE + strnlen name NVRAM_STRMAX + 1 + strnlen value NVRAM_STRMAX =
      SIZEOF_TUPLE + (name ++ 61 :: value).length := by
    rw [length, strnlen_named named, strnlen, Nat.min_eq_left (Nat.le_of_lt valued.2)]
    omega
  rw [nvramSet, set_pair named valued, size]
  have fresh : Stored (nvramHash (name ++ 61 :: value))
      ⟨name ++ 61 :: value, SIZEOF_TUPLE + (name ++ 61 :: value).length⟩ :=
    ⟨by simp, pair.string, length.trans_le short, rfl, rfl⟩
  refine ⟨insert_stored stored fresh, freed, fun _ => insert_counted counted' fresh, ?_⟩
  intro image inside
  have inside : image ∈ (if s.nvramGet name ≠ none then (s.nvramUnset name).1 else s).images := inside
  rw [clean'] at inside
  cases inside

theorem unset_kept (kept : Kept s) (clean : s.images = []) (aligned : Aligned s name) :
    Kept (s.nvramUnset name).1 := by
  refine ⟨unset_stored kept.stored name, unset_freed kept.stored kept.freed aligned,
    fun _ => unset_counted (kept.counted clean) kept.stored name, ?_⟩
  rw [unset_images, clean]
  nofun

theorem strings_zeros (fuel k : Nat) : strings fuel (List.replicate k 0) = [] := by
  induction fuel generalizing k with
  | zero => rfl
  | succ fuel ih =>
      rw [strings]
      cases k with
      | zero => rfl
      | succ k =>
          rw [if_neg (by simp)]
          exact ih k

theorem strings_pairs {all : List (List Byte)} (proper : ∀ pair ∈ all, pair ≠ [] ∧ 0 ∉ pair) {fuel : Nat}
    (enough : all.length ≤ fuel) (k : Nat) :
    strings fuel (all.flatMap (fun pair => pair ++ [0]) ++ List.replicate k 0) = all := by
  induction all generalizing fuel with
  | nil => exact strings_zeros fuel k
  | cons pair all ih =>
      obtain ⟨⟨some, string⟩, proper⟩ := List.forall_mem_cons.mp proper
      cases fuel with
      | zero => cases enough
      | succ fuel =>
          generalize rest : all.flatMap (fun pair => pair ++ [0]) ++ List.replicate k 0 = later at ih
          have whole : (pair :: all).flatMap (fun pair => pair ++ [0]) ++ List.replicate k 0 = pair ++ 0 :: later := by
            rw [← rest, List.flatMap_cons]
            simp
          have taken : (pair ++ 0 :: later).takeWhile (· ≠ 0) = pair := by
            rw [List.takeWhile_append_of_pos]
            · simp
            · intro ch inside
              simpa using fun same : ch = 0 => string (same ▸ inside)
          have dropped : (pair ++ 0 :: later).drop (pair.length + 1) = later := by simp
          have long : ¬ pair.length ≤ 0 := by
            rw [Nat.le_zero, List.length_eq_zero_iff]
            exact some
          rw [whole, strings, if_neg (by simp)]
          simp only [taken, dropped, if_neg long]
          rw [ih proper (Nat.le_of_succ_le_succ enough)]

theorem inserts_tuples (all : List (List Byte)) (s : Nvram) (i : Nat) :
    ((all.foldl (fun s pair => s.nvramInsert ⟨pair, SIZEOF_TUPLE + pair.length⟩) s).tuples i).map Tuple.pair =
      (s.tuples i).map Tuple.pair ++ all.filter fun pair => nvramHash pair = i := by
  induction all generalizing s with
  | nil => simp
  | cons pair all ih =>
      rw [List.foldl_cons, ih, List.filter_cons, nvramInsert]
      by_cases here : i = nvramHash pair
      · subst here
        simp [Function.update_self]
      · simp [Function.update_of_ne here, Ne.symm here]

theorem filter_pairs (all : ∀ i, ∀ t ∈ s.tuples i, Stored i t) (i : Nat) :
    s.pairs.filter (fun pair => nvramHash pair = i) = (s.tuples i).map Tuple.pair := by
  have bucket : ∀ n, ((s.tuples n).map Tuple.pair).filter (fun pair => nvramHash pair = i) =
      if n = i then (s.tuples i).map Tuple.pair else [] := by
    intro n
    split
    · rename_i same
      subst same
      rw [List.filter_eq_self]
      intro pair inside
      obtain ⟨t, member, same⟩ := List.mem_map.mp inside
      simpa [← same] using (all _ t member).hash
    · rename_i other
      rw [List.filter_eq_nil_iff]
      intro pair inside
      obtain ⟨t, member, same⟩ := List.mem_map.mp inside
      simpa [← same, (all _ t member).hash] using other
  have range : ∀ n, (List.range n).flatMap (fun n => if n = i then (s.tuples i).map Tuple.pair else []) =
      if i < n then (s.tuples i).map Tuple.pair else [] := by
    intro n
    induction n with
    | zero => rfl
    | succ n ih =>
        rw [List.range_succ, List.flatMap_append, ih, List.flatMap_singleton]
        by_cases last : n = i
        · rw [if_neg (by omega), if_pos last, if_pos (by omega), List.nil_append]
        · rw [if_neg last, List.append_nil]
          by_cases before : i < n
          · rw [if_pos before, if_pos (by omega)]
          · rw [if_neg before, if_neg (by omega)]
  rw [pairs, List.filter_flatMap]
  simp only [bucket, range]
  split
  · rfl
  · rename_i outside
    have none : s.tuples i = [] := by
      rw [List.eq_nil_iff_forall_not_mem]
      intro t member
      exact outside ((all i t member).hash ▸ nvramHash_lt t.pair)
    rw [none, List.map_nil]

theorem length_header (h : Header) : h.bytes.length = SIZEOF_HEADER := rfl

theorem header_magic (h : Header) (rest : List Byte) : Lib.wordAt (h.bytes ++ rest) 0 = NVRAM_MAGIC := by
  refine Lib.wordAt_of_bytes fun j bound => ?_
  match j, bound with
  | 0, _ => rfl
  | 1, _ => rfl
  | 2, _ => rfl
  | 3, _ => rfl

theorem header_length (h : Header) (rest : List Byte) :
    Lib.wordAt (h.bytes ++ rest) 4 = BitVec.ofNat 32 h.length := by
  refine Lib.wordAt_of_bytes fun j bound => ?_
  match j, bound with
  | 0, _ => rfl
  | 1, _ => rfl
  | 2, _ => rfl
  | 3, _ => rfl

theorem body_pairs (all : ∀ i, ∀ t ∈ s.tuples i, Stored i t) :
    s.body = s.pairs.flatMap fun pair => pair ++ [0] := by
  rw [body, pairs, List.flatMap_assoc]
  apply List.flatMap_congr
  intro n _
  rw [List.flatMap_map]
  apply List.flatMap_congr
  intro t member
  rw [strnlen_stored (all n t member), List.take_length]

theorem length_strings (all : List (List Byte)) :
    (all.flatMap fun pair => pair ++ [0]).length = bytesOf all ∧ all.length ≤ bytesOf all := by
  induction all with
  | nil => exact ⟨rfl, Nat.le_refl 0⟩
  | cons pair all ih =>
      obtain ⟨same, more⟩ := ih
      have more' : bytesOf (pair :: all) = pair.length + 1 + bytesOf all := by simp [bytesOf]
      rw [List.flatMap_cons, List.length_append, same, more', List.length_append, List.length_singleton,
        List.length_cons]
      omega

theorem committed_length (s : Nvram) : s.committed.length = (s.header.length + 2 + 3) / 4 * 4 := rfl

theorem image_reads (all : ∀ i, ∀ t ∈ s.tuples i, Stored i t) (counted : Counted s)
    (fits : s.committed.length ≤ NVRAM_SIZE) : Reads s.image s := by
  obtain ⟨bytes, number⟩ := length_strings s.pairs
  have body := body_pairs all
  have room := committed_length s
  rw [Counted] at counted
  have proper : ∀ pair ∈ s.pairs, pair ≠ [] ∧ 0 ∉ pair := by
    intro pair inside
    obtain ⟨n, -, member⟩ := List.mem_flatMap.mp inside
    obtain ⟨t, member, same⟩ := List.mem_map.mp member
    have stored := all n t member
    exact ⟨same ▸ stored.some, same ▸ stored.string⟩
  have word : (Lib.wordAt s.image 4).toNat = s.committed.length := by
    rw [image, List.append_assoc, header_length, BitVec.toNat_ofNat, Nat.mod_eq_of_lt]
    exact Nat.lt_of_le_of_lt fits (by decide)
  have whole : s.image = s.committed.bytes ++ (s.pairs.flatMap (fun pair => pair ++ [0]) ++
      List.replicate (s.committed.length - (SIZEOF_HEADER + bytesOf s.pairs)) 0) := by
    rw [image, body]
    simp only [List.length_append, length_header, bytes, List.append_assoc]
  have length : s.image.length = s.committed.length := by
    rw [whole, List.length_append, List.length_append, length_header, bytes, List.length_replicate]
    omega
  have read : imageStrings s.image = s.pairs := by
    rw [imageStrings, word, List.take_of_length_le (Nat.le_of_eq length), whole, List.drop_append_of_le_length (by rw [length_header]),
      List.drop_of_length_le (by rw [length_header]), List.nil_append]
    exact strings_pairs proper (by omega) _
  have magic : Lib.wordAt s.image 0 = NVRAM_MAGIC := by rw [image, List.append_assoc, header_magic]
  refine ⟨_, nvramInit_strings magic, fun i => ?_⟩
  rw [read, inserts_tuples, filter_pairs all]
  rfl

theorem commit_kept (kept : Kept s) (clean : s.images = []) (fits : s.committed.length ≤ NVRAM_SIZE) :
    Kept s.nvramCommit := by
  refine ⟨kept.stored, kept.freed, ?_, ?_⟩
  · intro none
    have none : s.images ++ [s.image] = [] := none
    simp at none
  · intro image inside
    have inside : image ∈ s.images ++ [s.image] := inside
    rw [clean, List.nil_append, List.mem_singleton] at inside
    rw [inside]
    exact image_reads kept.stored (kept.counted clean) fits

theorem step_kept {s' : Nvram} {op : Op'} (kept : Kept s) (once : Once s op) (action : step op s = some s') :
    Kept s' := by
  cases op with
  | set name value =>
      cases action
      obtain ⟨clean, named, valued, short, aligned⟩ := once
      exact set_kept kept clean named valued short aligned
  | unset name =>
      cases action
      exact unset_kept kept once.1 once.2
  | commit =>
      cases action
      exact commit_kept kept once.1 once.2

theorem inserts_kept {all : List (List Byte)} (kept : Kept s) (clean : s.images = [])
    (proper : ∀ pair ∈ all, Pair pair ∧ pair.length ≤ NVRAM_STRMAX) :
    Kept (all.foldl (fun s pair => s.nvramInsert ⟨pair, SIZEOF_TUPLE + pair.length⟩) s) := by
  induction all generalizing s with
  | nil => exact kept
  | cons pair all ih =>
      obtain ⟨⟨this, short⟩, proper⟩ := List.forall_mem_cons.mp proper
      have some : pair ≠ [] := by
        rw [this.split]
        simp
      have stored : Stored (nvramHash pair) ⟨pair, SIZEOF_TUPLE + pair.length⟩ := ⟨some, this.string, short, rfl, rfl⟩
      refine ih ⟨insert_stored kept.stored stored, kept.freed, fun _ => insert_counted (kept.counted clean) stored,
        ?_⟩ clean proper
      intro image inside
      have inside : image ∈ s.images := inside
      rw [clean] at inside
      cases inside

theorem nvramInit_kept {image : List Byte}
    (proper : ∀ pair ∈ imageStrings image, Pair pair ∧ pair.length ≤ NVRAM_STRMAX)
    (start : nvramInit image = some s) : Kept s := by
  rw [nvramInit_some start]
  refine inserts_kept ⟨nofun, nofun, fun _ => ?_, nofun⟩ rfl proper
  have none : (blank image).pairs = [] := List.flatMap_eq_nil_iff.mpr fun _ _ => rfl
  rw [Counted, none]
  rfl

theorem commit_again (s : Nvram) : s.nvramCommit.image ≠ s.image := by
  intro same
  have words := congrArg (fun image => Lib.wordAt image 4) same
  simp only [image, List.append_assoc, header_length] at words
  have lengths := congrArg BitVec.toNat words
  have again : s.nvramCommit.committed.length = (s.committed.length + 2 + 3) / 4 * 4 := rfl
  obtain ⟨k, multiple⟩ : ∃ k, s.committed.length = k * 4 := ⟨_, committed_length s⟩
  rw [BitVec.toNat_ofNat, BitVec.toNat_ofNat, again, multiple] at lengths
  omega

/-- Until a commit the length counts the tuples, what is committed is read back, and each tuple that
was removed has been freed as it was allocated. A second commit never writes the same image. -/
theorem nvramCommit_reads {image : List Byte} {s₀ : Nvram}
    (proper : ∀ pair ∈ imageStrings image, Pair pair ∧ pair.length ≤ NVRAM_STRMAX)
    (start : nvramInit image = some s₀) {s : Nvram} (reach : Lib.Reach step Once s₀ s) :
    (s.images = [] → s.header.length = SIZEOF_HEADER + (s.pairs.map fun pair => pair.length + 1).sum) ∧
      (∀ image ∈ s.images, ∃ s', nvramInit image = some s' ∧
        ∀ i, (s'.tuples i).map Tuple.pair = (s.tuples i).map Tuple.pair) ∧
      (∀ b ∈ s.freed, b.1 = b.2) ∧
      s.nvramCommit.image ≠ s.image ∧
      ∀ n, n ≤ NVRAM_STRMAX → (roundmb (SIZEOF_TUPLE + n) = roundmb (n + 1) ↔ n % 8 = 0) := by
  have kept : Kept s :=
    reach.invariant (nvramInit_kept proper start) fun _ _ _ kept once action => step_kept kept once action
  exact ⟨kept.counted, kept.reads, kept.freed, commit_again s, fun _ => roundmb_tuple⟩

theorem nvramCommit_reads_short :
    ∃ s₀ s, nvramInit noImage = some s₀ ∧ Lib.Reach step Once s₀ s ∧ s.images.length = 1 ∧
      ∀ b ∈ s.freed, b.1 = b.2 := by
  have runs : (nvramInit noImage).bind (fun s₀ =>
      (Lib.run step (fun s op => decide (Once s op))
        [.set [97] [49, 49, 49, 49, 49, 49], .set [97] [50], .commit] s₀).map fun s =>
          s.images.length) = some 1 := by
    decide +kernel
  obtain ⟨s₀, start, runs⟩ := Option.bind_eq_some_iff.mp runs
  obtain ⟨s, run, same⟩ := Option.map_eq_some_iff.mp runs
  have reach := @Lib.Reach.run _ _ _ Once _ _ _ _ (fun _ _ holds => of_decide_eq_true holds) .init _ run
  have proper : ∀ pair ∈ imageStrings noImage, Pair pair ∧ pair.length ≤ NVRAM_STRMAX := by
    have none : imageStrings noImage = [] := by decide +kernel
    rw [none]
    nofun
  exact ⟨s₀, s, start, reach, same, (nvramCommit_reads proper start reach).2.2.1⟩

theorem afterCommit_counts_more :
    ¬ ∀ s₀ s s' op, nvramInit noImage = some s₀ → Lib.Reach step (fun _ _ => True) s₀ s → op ≠ .commit →
      step op s = some s' →
        s'.header.length = SIZEOF_HEADER + (s'.pairs.map fun pair => pair.length + 1).sum := by
  intro claim
  have runs : (nvramInit noImage).bind (fun s₀ => (step (.set [97] [49]) s₀.nvramCommit).map fun s =>
      (s.header.length, (s.pairs.map fun pair => pair.length + 1).sum)) = some (28, 4) := by
    decide +kernel
  obtain ⟨s₀, start, runs⟩ := Option.bind_eq_some_iff.mp runs
  obtain ⟨s, action, same⟩ := Option.map_eq_some_iff.mp runs
  obtain ⟨length, sum⟩ := Prod.mk.inj same
  have reach : Lib.Reach step (fun _ _ => True) s₀ s₀.nvramCommit := .next (a := .commit) .init trivial rfl
  have count := claim s₀ _ s (.set [97] [49]) start reach (fun same => nomatch same) action
  rw [length, sum] at count
  cases count

end Xinu.Nvram
