import Xinu.Lib.Links
import Xinu.Proof.Memory.Partition
import Xinu.System.TftpBuffer

namespace Xinu.Fetch
open Lib Heap

variable {lo hi : Nat} {h : Heap} {u : Use} {head : Nat} {s s' : Fetch} {pre : List Nat} {bytes data : List Byte} {free : List (Nat × Nat)}

def reserve : Nat → Heap → Option Heap
  | 0, h => some h
  | k + 1, h =>
      match h.memget TFTP_FILE_DATA_BLOCK_SIZE with
      | some (h, some _) => reserve k h
      | _ => none

def listBlocks (n : Nat) : Nat := max 1 ((n + (TFTP_FILE_DATA - 1)) / TFTP_FILE_DATA)

/-- There is memory for the list and then for the file, unless it is empty. -/
def Room (h : Heap) (n : Nat) : Prop :=
  ∃ h', reserve (listBlocks n) h = some h' ∧ (n = 0 ∨ ∃ h'' p, h'.memget n = some (h'', some p))

theorem reserve_add (j k : Nat) (h : Heap) : reserve (j + k) h = (reserve j h).bind (reserve k) := by
  induction j generalizing h with
  | zero => rw [Nat.zero_add, reserve, Option.bind_some]
  | succ j ih =>
      rw [Nat.succ_add, reserve, reserve]
      split
      · exact ih _
      · rfl

def listed (taken : List Nat) : List (Kind × Nat × Nat) :=
  taken.map fun a => (Kind.heap, a, TFTP_FILE_DATA_BLOCK_SIZE)

def follows (s : Fetch) (a : Nat) : Option Nat := if (s.node a).next = NULL then none else some (s.node a).next

def blocks (s : Fetch) (ps : List Nat) : List Byte := ps.flatMap fun a => (s.node a).data

structure Holds (lo hi : Nat) (u : Use) (head : Nat) (s : Fetch) (pre : List Nat) (bytes : List Byte) : Prop where
  taken : s.taken = pre ++ [s.tail]
  first : (pre ++ [s.tail]).head? = some head
  line : Line s.follows (pre ++ [s.tail])
  nodup : (pre ++ [s.tail]).Nodup
  nonnull : ∀ a ∈ pre ++ [s.tail], a ≠ NULL
  full : ∀ a ∈ pre, (s.node a).data.length = TFTP_FILE_DATA
  fits : (s.node s.tail).data.length ≤ TFTP_FILE_DATA
  contents : s.blocks (pre ++ [s.tail]) = bytes
  parts : ∃ free, Partition lo hi ⟨s.heap, listed (pre ++ [s.tail]) ++ u.out⟩ free
  reserved : reserve (pre.length + 1) u.heap = some s.heap

structure Gathered (lo hi : Nat) (u : Use) (head : Nat) (s : Fetch) (pre : List Nat) (bytes : List Byte) : Prop
    extends Holds lo hi u head s pre bytes where
  started : pre = [] ∨ (s.node s.tail).data ≠ []

theorem length_full {node : Nat → FileDataBlock} (full : ∀ a ∈ pre, (node a).data.length = TFTP_FILE_DATA) :
    (pre.flatMap fun a => (node a).data).length = pre.length * TFTP_FILE_DATA := by
  induction pre with
  | nil => rfl
  | cons a pre ih =>
      rw [List.flatMap_cons, List.length_append, full a (by simp), ih fun b member => full b (by simp [member]),
        List.length_cons, Nat.succ_mul, Nat.add_comm]

theorem Holds.length (g : Holds lo hi u head s pre bytes) :
    bytes.length = pre.length * TFTP_FILE_DATA + (s.node s.tail).data.length := by
  rw [← g.contents, blocks, List.flatMap_append, List.length_append, length_full g.full, List.flatMap_singleton]

theorem file_data : TFTP_FILE_DATA = 4088 := rfl

theorem Gathered.listBlocks (g : Gathered lo hi u head s pre bytes) : listBlocks bytes.length = pre.length + 1 := by
  have length := g.length
  have fits := g.fits
  rw [file_data] at length fits
  rw [Fetch.listBlocks, file_data]
  rcases g.started with rfl | started
  · rw [List.length_nil] at length ⊢
    omega
  · have := List.length_pos_iff.mpr started
    omega

theorem Holds.no_room (g : Holds lo hi u head s pre bytes) (full : (s.node s.tail).data.length = TFTP_FILE_DATA)
    (got : s.heap.memget TFTP_FILE_DATA_BLOCK_SIZE = some (h, none)) {n : Nat} (more : bytes.length < n) :
    reserve (Fetch.listBlocks n) u.heap = none := by
  have length := g.length
  obtain ⟨k, split⟩ : ∃ k, Fetch.listBlocks n = pre.length + 1 + (k + 1) := by
    refine ⟨Fetch.listBlocks n - (pre.length + 2), ?_⟩
    rw [full, file_data] at length
    rw [Fetch.listBlocks, file_data]
    omega
  rw [split, reserve_add, g.reserved, Option.bind_some, reserve, got]

theorem newBlock_cases (s : Fetch) :
    (s.heap.memget TFTP_FILE_DATA_BLOCK_SIZE = none ∧ s.newBlock = none) ∨
      (∃ h, s.heap.memget TFTP_FILE_DATA_BLOCK_SIZE = some (h, none) ∧ s.newBlock = some ({ s with heap := h }, none)) ∨
      ∃ h a, s.heap.memget TFTP_FILE_DATA_BLOCK_SIZE = some (h, some a) ∧
        s.newBlock = some ({ s with heap := h, node := Function.update s.node a ⟨NULL, []⟩, taken := s.taken ++ [a] }, some a) := by
  rw [newBlock]
  cases s.heap.memget TFTP_FILE_DATA_BLOCK_SIZE with
  | none => exact .inl ⟨rfl, rfl⟩
  | some got =>
      obtain ⟨h, a⟩ := got
      cases a with
      | none => exact .inr (.inl ⟨h, rfl, rfl⟩)
      | some a => exact .inr (.inr ⟨h, a, rfl, rfl⟩)

theorem fresh_block {out : List (Kind × Nat × Nat)} {a : Nat} {ps : List Nat}
    (parts : Partition lo hi ⟨h, (.heap, a, TFTP_FILE_DATA_BLOCK_SIZE) :: (listed ps ++ out)⟩ free) : a ∉ ps ∧ a ≠ NULL := by
  have apart := parts.apart
  have size : 0 < roundmb TFTP_FILE_DATA_BLOCK_SIZE := by decide
  have within : lo ≤ a := by
    have inside : a ∈ covered free ∪ covered (((Kind.heap, a, TFTP_FILE_DATA_BLOCK_SIZE) :: (listed ps ++ out)).map region) :=
      .inr ⟨(a, roundmb TFTP_FILE_DATA_BLOCK_SIZE), .head _, Nat.le_refl _, Nat.lt_add_of_pos_right size⟩
    rw [parts.all] at inside
    exact inside.1
  have positive := parts.list.whole.positive
  have low := parts.memheap
  constructor
  · intro member
    have other : region (Kind.heap, a, TFTP_FILE_DATA_BLOCK_SIZE) ∈ (listed ps ++ out).map region :=
      List.mem_map_of_mem (List.mem_append_left _ (List.mem_map_of_mem member))
    have shared := (List.pairwise_cons.mp apart).1 _ other
    have own : a ∈ Set.Ico a (a + roundmb TFTP_FILE_DATA_BLOCK_SIZE) := ⟨Nat.le_refl _, Nat.lt_add_of_pos_right size⟩
    exact Set.disjoint_left.mp shared own own
  · rw [NULL]
    omega

theorem blocks_congr {ps : List Nat} (same : ∀ a ∈ ps, (s'.node a).data = (s.node a).data) : s'.blocks ps = s.blocks ps :=
  List.flatMap_congr same

def grown (s : Fetch) (h : Heap) (a : Nat) : Fetch :=
  ({ s with heap := h, node := Function.update s.node a ⟨NULL, []⟩, taken := s.taken ++ [a] } : Fetch).link a

theorem Holds.append {a : Nat} (g : Holds lo hi u head s pre bytes) (full : (s.node s.tail).data.length = TFTP_FILE_DATA)
    (got : s.heap.memget TFTP_FILE_DATA_BLOCK_SIZE = some (h, some a))
    (parts : Partition lo hi ⟨h, (.heap, a, TFTP_FILE_DATA_BLOCK_SIZE) :: (listed (pre ++ [s.tail]) ++ u.out)⟩ free) :
    Holds lo hi u head (s.grown h a) (pre ++ [s.tail]) bytes := by
  obtain ⟨fresh, nonnull⟩ := fresh_block parts
  have apart : ∀ b ∈ pre ++ [s.tail], b ≠ a := fun b member eq => fresh (eq ▸ member)
  have tail : s.tail ≠ a := apart s.tail (by simp)
  obtain ⟨-, -, distinct⟩ := List.nodup_append.mp g.nodup
  have before : ∀ b ∈ pre, b ≠ s.tail := fun b member => distinct b member s.tail (by simp)
  -- only the links of the old tail and of the new block change
  have data : ∀ b ∈ pre ++ [s.tail], ((s.grown h a).node b).data = (s.node b).data := by
    intro b member
    by_cases last : b = s.tail
    · simp only [grown, link, last, Function.update_self, Function.update_of_ne tail]
    · simp only [grown, link, Function.update_of_ne last, Function.update_of_ne (apart b member)]
  have own : ((s.grown h a).node a).data = [] := by
    simp only [grown, link, Function.update_of_ne tail.symm, Function.update_self]
  constructor
  · show s.taken ++ [a] = _
    rw [g.taken]
    rfl
  · rw [List.head?_append, g.first]
    rfl
  · rw [List.append_assoc]
    refine Line.relink g.line g.nodup ?_ ⟨?_, trivial⟩ ?_
    · simp only [follows, grown, link, Function.update_self, nonnull, if_false]
      rfl
    · simp only [follows, grown, link, Function.update_of_ne tail.symm, Function.update_self]
      rfl
    · intro b member
      simp only [follows, grown, link, Function.update_of_ne (before b member),
        Function.update_of_ne (apart b (List.mem_append_left _ member))]
  · rw [List.nodup_append]
    refine ⟨g.nodup, List.nodup_singleton _, ?_⟩
    intro b member c new
    rw [List.mem_singleton.mp new]
    exact apart b member
  · intro b member
    rcases List.mem_append.mp member with old | new
    · exact g.nonnull b old
    · rw [List.mem_singleton.mp new]
      exact nonnull
  · intro b member
    refine (congrArg List.length (data b member)).trans ?_
    rcases List.mem_append.mp member with old | new
    · exact g.full b old
    · rw [List.mem_singleton.mp new]
      exact full
  · show ((s.grown h a).node a).data.length ≤ _
    rw [own]
    exact Nat.zero_le _
  · show (s.grown h a).blocks (pre ++ [s.tail] ++ [a]) = bytes
    rw [blocks, List.flatMap_append, List.flatMap_singleton, own, List.append_nil, ← g.contents]
    exact blocks_congr data
  · refine ⟨free, parts.perm ?_⟩
    show List.Perm _ (listed (pre ++ [s.tail] ++ [a]) ++ u.out)
    have split : listed (pre ++ [s.tail] ++ [a]) = listed (pre ++ [s.tail]) ++ listed [a] := List.map_append
    rw [split, List.append_assoc]
    exact List.perm_middle.symm
  · rw [List.length_append, List.length_singleton, reserve_add, g.reserved, Option.bind_some, reserve, got]
    rfl

theorem Holds.fill (g : Holds lo hi u head s pre bytes) (fits : (s.node s.tail).data.length + data.length ≤ TFTP_FILE_DATA)
    (filled : data ≠ []) : Gathered lo hi u head (s.fill data) pre (bytes ++ data) := by
  obtain ⟨-, -, distinct⟩ := List.nodup_append.mp g.nodup
  have before : ∀ b ∈ pre, (s.fill data).node b = s.node b := fun b member =>
    Function.update_of_ne (distinct b member s.tail (by simp)) _ _
  have own : (s.fill data).node s.tail = { s.node s.tail with data := (s.node s.tail).data ++ data } := Function.update_self _ _ _
  refine ⟨⟨g.taken, g.first, g.line.congr ?_, g.nodup, g.nonnull, ?_, ?_, ?_, g.parts, g.reserved⟩, .inr ?_⟩
  · intro b member
    rcases List.mem_append.mp member with old | last
    · rw [follows, before b old]
      rfl
    · rw [List.mem_singleton.mp last, follows, own]
      rfl
  · intro b member
    rw [before b member]
    exact g.full b member
  · show ((s.fill data).node s.tail).data.length ≤ _
    rw [own, List.length_append]
    exact fits
  · show (s.fill data).blocks (pre ++ [s.tail]) = _
    rw [← g.contents, blocks, blocks, List.flatMap_append, List.flatMap_append, List.flatMap_singleton, List.flatMap_singleton,
      own, List.append_assoc]
    exact congrArg (· ++ _) (blocks_congr fun b member => congrArg FileDataBlock.data (before b member))
  · show ((s.fill data).node s.tail).data ≠ []
    rw [own]
    exact List.append_ne_nil_of_right_ne_nil _ filled

theorem Gathered.makeRoom (g : Gathered lo hi u head s pre bytes) :
    (s.makeRoom = some (s, false) ∧ ∀ n, bytes.length < n → reserve (Fetch.listBlocks n) u.heap = none) ∨
      ∃ s' pre', s.makeRoom = some (s', true) ∧ Holds lo hi u head s' pre' bytes ∧
        (s'.node s'.tail).data.length < TFTP_FILE_DATA := by
  by_cases full : (s.node s.tail).data.length = TFTP_FILE_DATA
  · rw [Fetch.makeRoom, if_pos full]
    obtain ⟨free, parts⟩ := g.parts
    rcases parts.get .heap (by decide : 0 < TFTP_FILE_DATA_BLOCK_SIZE) (by decide) with ⟨-, got⟩ | ⟨h, a, free', got, parts'⟩
    · rcases s.newBlock_cases with ⟨other, -⟩ | ⟨h, same, new⟩ | ⟨_, _, other, -⟩
      · exact nomatch got.symm.trans other
      · cases got.symm.trans same
        rw [new]
        exact .inl ⟨rfl, fun n more => g.no_room full got more⟩
      · exact nomatch got.symm.trans other
    · rcases s.newBlock_cases with ⟨other, -⟩ | ⟨_, other, -⟩ | ⟨h', a', same, new⟩
      · exact nomatch got.symm.trans other
      · exact nomatch got.symm.trans other
      · cases got.symm.trans same
        rw [new]
        refine .inr ⟨_, _, rfl, g.append full got parts', ?_⟩
        have tail := (fresh_block parts').1
        have other : a ≠ s.tail := fun eq => tail (by simp [eq])
        simp only [link, Function.update_of_ne other, Function.update_self]
        decide
  · rw [Fetch.makeRoom, if_neg full]
    exact .inr ⟨s, pre, rfl, g.toHolds, Nat.lt_of_le_of_ne g.fits full⟩

theorem Gathered.copyLoop {fuel : Nat} (g : Gathered lo hi u head s pre bytes) (enough : data.length < fuel) :
    ∃ s' r pre' bytes', Fetch.copyLoop fuel data s = some (s', r) ∧ Gathered lo hi u head s' pre' bytes' ∧
      (r = OK ∧ bytes' = bytes ++ data ∨
        r = SYSERR ∧ ∀ n, bytes.length + data.length ≤ n → reserve (Fetch.listBlocks n) u.heap = none) := by
  induction fuel generalizing s pre bytes data with
  | zero => exact absurd enough (Nat.not_lt_zero _)
  | succ fuel ih =>
      rw [Fetch.copyLoop]
      by_cases empty : data = []
      · rw [if_pos empty, empty, List.append_nil]
        exact ⟨s, OK, pre, bytes, rfl, g, .inl ⟨rfl, rfl⟩⟩
      · rw [if_neg empty]
        have nonempty := List.length_pos_iff.mpr empty
        rcases g.makeRoom with ⟨none, short⟩ | ⟨s', pre', room, holds, less⟩
        · rw [none]
          exact ⟨s, SYSERR, pre, bytes, rfl, g, .inr ⟨rfl, fun n more => short n (by omega)⟩⟩
        · rw [room]
          have copied : 0 < s'.copylen data ∧ s'.copylen data ≤ data.length ∧
              (s'.node s'.tail).data.length + s'.copylen data ≤ TFTP_FILE_DATA := by
            rw [copylen]
            omega
          have taken : (data.take (s'.copylen data)).length = s'.copylen data := List.length_take_of_le copied.2.1
          have next : Gathered lo hi u head (s'.fill (data.take (s'.copylen data))) pre' (bytes ++ data.take (s'.copylen data)) := by
            apply holds.fill
            · rw [taken]
              exact copied.2.2
            · apply List.length_pos_iff.mp
              rw [taken]
              exact copied.1
          have fewer : (data.drop (s'.copylen data)).length < fuel := by
            rw [List.length_drop]
            omega
          obtain ⟨s'', r, pre'', bytes', looped, g', outcome⟩ := ih next fewer
          refine ⟨s'', r, pre'', bytes', looped, g', ?_⟩
          rw [List.append_assoc, List.take_append_drop, List.length_append, taken, List.length_drop, Nat.add_assoc,
            Nat.add_sub_cancel' copied.2.1] at outcome
          exact outcome

theorem Gathered.tftpGet (g : Gathered lo hi u head s pre bytes) (delivered : List (List Byte)) (retval : Int) :
    ∃ s' r pre' bytes', Fetch.tftpGet retval delivered s = some (s', r) ∧ Gathered lo hi u head s' pre' bytes' ∧
      (r = retval ∧ bytes' = bytes ++ delivered.flatten ∨
        r = SYSERR ∧ reserve (Fetch.listBlocks (bytes.length + delivered.flatten.length)) u.heap = none) := by
  induction delivered generalizing s pre bytes with
  | nil =>
      rw [List.flatten_nil, List.append_nil]
      exact ⟨s, retval, pre, bytes, rfl, g, .inl ⟨rfl, rfl⟩⟩
  | cons data delivered ih =>
      obtain ⟨s', r, pre', bytes', copied, g', outcome⟩ := g.copyLoop (Nat.lt_succ_self data.length)
      rw [Fetch.tftpGet, tftpCopyIntoBufferCb, copied, List.flatten_cons, List.length_append]
      rcases outcome with ⟨rfl, rfl⟩ | ⟨rfl, short⟩
      · have later := ih g'
        rw [List.append_assoc, List.length_append, Nat.add_assoc] at later
        exact later
      · exact ⟨s', SYSERR, pre', bytes', rfl, g', .inr ⟨rfl, short _ (by omega)⟩⟩

theorem next_block {a : Nat} {rest : List Nat} (line : Line s.follows (a :: rest)) :
    rest = [] ∧ (s.node a).next = NULL ∨ ∃ b later, rest = b :: later ∧ (s.node a).next = b ∧ b ≠ NULL := by
  have first := line.1
  rw [follows] at first
  split at first
  · rename_i last
    cases rest with
    | nil => exact .inl ⟨rfl, last⟩
    | cons b later => exact nomatch first
  · rename_i more
    cases rest with
    | nil => exact nomatch first
    | cons b later =>
        have next := Option.some.inj first
        exact .inr ⟨b, later, rfl, next, next ▸ more⟩

theorem blocks_cons (s : Fetch) (a : Nat) (ps : List Nat) : s.blocks (a :: ps) = (s.node a).data ++ s.blocks ps :=
  List.flatMap_cons

theorem sumLoop_eq {fuel totallen a : Nat} {rest : List Nat} (line : Line s.follows (a :: rest))
    (enough : rest.length < fuel) (word : totallen + (s.blocks (a :: rest)).length < WORD) :
    s.sumLoop fuel totallen a = some (totallen + (s.blocks (a :: rest)).length) := by
  induction fuel generalizing totallen a rest with
  | zero => exact absurd enough (Nat.not_lt_zero _)
  | succ fuel ih =>
      rw [blocks_cons, List.length_append] at word ⊢
      have sum : add32 totallen (s.node a).data.length = totallen + (s.node a).data.length := by
        rw [add32, Nat.mod_eq_of_lt (by omega)]
      rw [sumLoop, sum]
      rcases next_block line with ⟨rfl, last⟩ | ⟨b, later, rfl, next, nonnull⟩
      · rw [if_pos last]
        rfl
      · rw [next, if_neg nonnull, ih line.2 (Nat.lt_of_succ_lt_succ enough) (by omega), Nat.add_assoc]

theorem freeLoop_eq {fuel a : Nat} {rest : List Nat} {out : List (Kind × Nat × Nat)} {d : Drain} (finalbuf : Option Nat)
    (line : Line s.follows (a :: rest)) (enough : rest.length < fuel)
    (word : d.totallen + (s.blocks (a :: rest)).length < WORD)
    (parts : Partition lo hi ⟨d.heap, listed (a :: rest) ++ out⟩ free) :
    ∃ h free', Drain.freeLoop s.node finalbuf fuel a d =
        some ⟨h, if finalbuf.isSome then store d.buffer d.totallen (s.blocks (a :: rest)) else d.buffer,
          d.totallen + (s.blocks (a :: rest)).length, d.freed ++ (a :: rest).map (·, OK)⟩ ∧
      Partition lo hi ⟨h, out⟩ free' := by
  induction fuel generalizing a rest d free with
  | zero => exact absurd enough (Nat.not_lt_zero _)
  | succ fuel ih =>
      rw [blocks_cons, List.length_append] at word ⊢
      have sum : add32 d.totallen (s.node a).data.length = d.totallen + (s.node a).data.length := by
        rw [add32, Nat.mod_eq_of_lt (by omega)]
      have own : (Kind.heap, a, TFTP_FILE_DATA_BLOCK_SIZE) ∈ listed (a :: rest) ++ out := .head _
      obtain ⟨h, free', given, parts'⟩ := parts.give own
      have given : d.heap.memfree a TFTP_FILE_DATA_BLOCK_SIZE = some (h, OK) := given
      have remain : (listed (a :: rest) ++ out).erase (Kind.heap, a, TFTP_FILE_DATA_BLOCK_SIZE) = listed rest ++ out :=
        List.erase_cons_head _ _
      simp only [remain] at parts'
      rw [Drain.freeLoop, given]
      simp only [sum]
      rcases next_block line with ⟨rfl, last⟩ | ⟨b, later, rfl, next, nonnull⟩
      · rw [if_pos last]
        exact ⟨h, free', by simp [blocks], parts'⟩
      · rw [next, if_neg nonnull]
        obtain ⟨h', free'', looped, parts''⟩ := ih (d := ⟨h, if finalbuf.isSome then store d.buffer d.totallen (s.node a).data
          else d.buffer, d.totallen + (s.node a).data.length, d.freed ++ [(a, OK)]⟩) line.2 (Nat.lt_of_succ_lt_succ enough)
          (by simp only; omega) parts'
        refine ⟨h', free'', looped.trans ?_, parts''⟩
        rw [List.append_assoc, Nat.add_assoc]
        cases finalbuf with
        | none => rfl
        | some p =>
            have stored := store_append d.buffer d.totallen (s.node a).data (s.blocks (b :: later))
            simp only [Option.isSome_some, if_true, Int.natCast_add, stored]
            rfl

theorem Gathered.small (g : Gathered lo hi u head s pre bytes) : pre.length < WORD ∧ bytes.length ≤ 0xFFFFFFF8 := by
  obtain ⟨free, parts⟩ := g.parts
  have within := parts.total_le
  have top := parts.list.whole.top
  have high := parts.maxaddr
  have each (ps : List Nat) : total ((listed ps).map region) = ps.length * 4096 := by
    induction ps with
    | nil => rfl
    | cons a ps ih =>
        have whole : roundmb TFTP_FILE_DATA_BLOCK_SIZE = 4096 := by decide
        rw [listed, List.map_cons, List.map_cons, total_cons, ← listed, ih, region, whole, List.length_cons]
        omega
  have length := g.length
  have fits := g.fits
  rw [List.map_append, total_append, each, List.length_append, List.length_singleton] at within
  rw [file_data] at length fits
  rw [WORD] at top ⊢
  omega

structure Success (lo hi : Nat) (u : Use) (bytes : List Byte) (f : Fetched) : Prop where
  buffer : ∃ p, f.retval = some p ∧
    (bytes ≠ [] → ∃ free, Partition lo hi ⟨f.heap, (.heap, p, bytes.length) :: u.out⟩ free)
  contents : load f.buffer 0 bytes.length = bytes
  len : f.len = some bytes.length

structure Failure (u : Use) (free : List (Nat × Nat)) (len : Nat) (f : Fetched) : Prop where
  retval : f.retval = none
  len : f.len = some len
  restored : Restored u.heap f.heap free

structure Freed (f : Fetched) : Prop where
  once : f.taken.Nodup
  freed : f.freed = f.taken.map (·, OK)

theorem Failure.of_partition {free' : List (Nat × Nat)} {f : Fetched} {len : Nat} (parts : Partition lo hi u free)
    (parts' : Partition lo hi ⟨f.heap, u.out⟩ free') (failed : f.retval = none) (kept : f.len = some len) :
    Failure u free len f := by
  obtain rfl := parts.free_unique parts'
  refine ⟨failed, kept, ⟨?_, ?_, ?_, ?_⟩⟩
  · have list := parts'.list
    rw [← parts'.maxaddr] at list
    exact list
  · rw [parts'.length, parts.length]
  · rw [parts'.memheap, parts.memheap]
  · rw [parts'.maxaddr, parts.maxaddr]

theorem reserve_none {h : Heap} (short : reserve 1 h = none) (n : Nat) : ¬ Room h n := by
  rintro ⟨h', taken, -⟩
  have split : Fetch.listBlocks n = 1 + (Fetch.listBlocks n - 1) := by
    rw [Fetch.listBlocks]
    omega
  rw [split, reserve_add, short] at taken
  exact nomatch taken

theorem Gathered.init {a : Nat} (node : Nat → FileDataBlock) (got : u.heap.memget TFTP_FILE_DATA_BLOCK_SIZE = some (h, some a))
    (parts : Partition lo hi ⟨h, (.heap, a, TFTP_FILE_DATA_BLOCK_SIZE) :: u.out⟩ free) :
    Gathered lo hi u a ⟨h, Function.update node a ⟨NULL, []⟩, a, [a]⟩ [] [] := by
  have parts' : Partition lo hi ⟨h, (.heap, a, TFTP_FILE_DATA_BLOCK_SIZE) :: (listed [] ++ u.out)⟩ free := parts
  obtain ⟨-, nonnull⟩ := fresh_block parts'
  refine ⟨⟨rfl, rfl, ⟨?_, trivial⟩, List.nodup_singleton _, ?_, nofun, ?_, ?_, ⟨free, parts⟩, ?_⟩, .inl rfl⟩
  · simp [follows]
  · intro b member
    rw [List.mem_singleton.mp member]
    exact nonnull
  · simp
  · simp [blocks]
  · rw [List.length_nil, reserve, got]
    rfl

theorem Gathered.finish (g : Gathered lo hi u head s pre bytes) (parts : Partition lo hi u free) (r : Int) (len : Nat)
    (memory : Int → Byte) :
    ∃ f, s.finish head r (some len) memory = some f ∧ Freed f ∧
      (r = OK ∧ bytes ≠ [] ∧ (∃ h' p, s.heap.memget bytes.length = some (h', some p)) ∧ Success lo hi u bytes f ∨
        ¬ (r = OK ∧ bytes ≠ [] ∧ ∃ h' p, s.heap.memget bytes.length = some (h', some p)) ∧ Failure u free len f) := by
  obtain ⟨short, small⟩ := g.small
  obtain ⟨rest, chain⟩ : ∃ rest, pre ++ [s.tail] = head :: rest := by
    have first := g.first
    cases whole : pre ++ [s.tail] with
    | nil => exact absurd whole (by simp)
    | cons a rest =>
        rw [whole] at first
        cases first
        exact ⟨rest, rfl⟩
  obtain ⟨free', held⟩ := g.parts
  have line := g.line
  have contents := g.contents
  have nodup := g.nodup
  have taken := g.taken
  have enough : rest.length < walkFuel := by
    have length := congrArg List.length chain
    rw [List.length_append, List.length_singleton, List.length_cons] at length
    rw [walkFuel]
    omega
  rw [chain] at line contents held nodup taken
  have word : bytes.length < WORD := Nat.lt_of_le_of_lt small (by decide)
  have total : s.sumLoop walkFuel 0 head = some bytes.length := by
    rw [sumLoop_eq line enough (by rw [contents, Nat.zero_add]; exact word), contents, Nat.zero_add]
  -- the list is freed with or without a buffer
  have drain {out : List (Kind × Nat × Nat)} {heap : Heap} {free : List (Nat × Nat)} (finalbuf : Option Nat)
      (allocated : s.allocate head r = some (heap, finalbuf))
      (parts : Partition lo hi ⟨heap, listed (head :: rest) ++ out⟩ free) :
      ∃ f free', s.finish head r (some len) memory = some f ∧ Freed f ∧ f.retval = finalbuf ∧
        f.len = (if finalbuf.isSome then some bytes.length else some len) ∧
        (finalbuf.isSome → f.buffer = store memory 0 bytes) ∧ Partition lo hi ⟨f.heap, out⟩ free' := by
    obtain ⟨h, free', looped, parts'⟩ := freeLoop_eq (d := ⟨heap, memory, 0, []⟩) finalbuf line enough
      (by rw [contents, Nat.zero_add]; exact word) parts
    rw [contents, Nat.zero_add] at looped
    rw [Fetch.finish, allocated]
    simp only [looped]
    refine ⟨_, free', rfl, ⟨?_, ?_⟩, rfl, rfl, fun given => if_pos given, parts'⟩
    · rw [taken]
      exact nodup
    · rw [taken]
      rfl
  have failed (unmet : ¬ (r = OK ∧ bytes ≠ [] ∧ ∃ h' p, s.heap.memget bytes.length = some (h', some p)))
      (allocated : s.allocate head r = some (s.heap, none)) :
      ∃ f, s.finish head r (some len) memory = some f ∧ Freed f ∧ Failure u free len f := by
    obtain ⟨f, free'', finished, freed, retval, kept, -, parts'⟩ := drain none allocated held
    exact ⟨f, finished, freed, Failure.of_partition parts parts' retval kept⟩
  by_cases ok : r = OK
  · have allocate : s.allocate head r = s.heap.memget bytes.length := by
      rw [Fetch.allocate, if_pos ok, total]
    by_cases empty : bytes = []
    · have unmet : ¬ (r = OK ∧ bytes ≠ [] ∧ ∃ h' p, s.heap.memget bytes.length = some (h', some p)) := fun all => all.2.1 empty
      obtain ⟨f, finished, freed, failure⟩ := failed unmet (by rw [allocate, empty]; rfl)
      exact ⟨f, finished, freed, .inr ⟨unmet, failure⟩⟩
    · have positive := List.length_pos_iff.mpr empty
      rcases held.get .heap positive small with ⟨-, got⟩ | ⟨h, p, free'', got, parts'⟩
      · have got : s.heap.memget bytes.length = some (s.heap, none) := got
        have unmet : ¬ (r = OK ∧ bytes ≠ [] ∧ ∃ h' p, s.heap.memget bytes.length = some (h', some p)) := by
          rintro ⟨-, -, h', p, given⟩
          cases got.symm.trans given
        obtain ⟨f, finished, freed, failure⟩ := failed unmet (allocate.trans got)
        exact ⟨f, finished, freed, .inr ⟨unmet, failure⟩⟩
      · have got : s.heap.memget bytes.length = some (h, some p) := got
        have moved := parts'.perm (List.perm_middle (a := (Kind.heap, p, bytes.length))).symm
        obtain ⟨f, left, finished, freed, retval, length, buffer, divided⟩ := drain (some p) (allocate.trans got) moved
        refine ⟨f, finished, freed, .inl ⟨ok, empty, ⟨h, p, got⟩, ⟨p, retval, fun _ => ⟨left, divided⟩⟩, ?_, length⟩⟩
        rw [buffer rfl]
        exact load_stored rfl
  · have unmet : ¬ (r = OK ∧ bytes ≠ [] ∧ ∃ h' p, s.heap.memget bytes.length = some (h', some p)) := fun all => ok all.1
    obtain ⟨f, finished, freed, failure⟩ := failed unmet (by rw [Fetch.allocate, if_neg ok])
    exact ⟨f, finished, freed, .inr ⟨unmet, failure⟩⟩

theorem tftpGetIntoBuffer_cases (parts : Partition lo hi u free) (len : Nat) (delivered : List (List Byte)) (retval : Int)
    (node : Nat → FileDataBlock) (memory : Int → Byte) :
    ∃ f, u.heap.tftpGetIntoBuffer (some len) delivered retval node memory = some f ∧ Freed f ∧
      (retval = OK ∧ delivered.flatten ≠ [] ∧ Room u.heap delivered.flatten.length ∧ Success lo hi u delivered.flatten f ∨
        ¬ (retval = OK ∧ delivered.flatten ≠ [] ∧ Room u.heap delivered.flatten.length) ∧ Failure u free len f) := by
  rw [Heap.tftpGetIntoBuffer, if_neg nofun]
  rcases parts.get .heap (by decide : 0 < TFTP_FILE_DATA_BLOCK_SIZE) (by decide) with ⟨-, got⟩ | ⟨h, a, free', got, parts'⟩
  · have got : u.heap.memget TFTP_FILE_DATA_BLOCK_SIZE = some (u.heap, none) := got
    have short : reserve 1 u.heap = none := by rw [reserve, got]
    rw [newBlock]
    simp only [got]
    refine ⟨_, rfl, ⟨List.nodup_nil, rfl⟩, .inr ⟨fun all => reserve_none short _ all.2.2, ?_⟩⟩
    exact Failure.of_partition parts parts rfl rfl
  · have got : u.heap.memget TFTP_FILE_DATA_BLOCK_SIZE = some (h, some a) := got
    obtain ⟨s, r, pre, bytes, fetched, g, outcome⟩ := (Gathered.init node got parts').tftpGet delivered retval
    rw [List.nil_append, List.length_nil, Nat.zero_add] at outcome
    rw [newBlock]
    simp only [got, List.nil_append, fetched]
    obtain ⟨f, finished, freed, result⟩ := g.finish parts r len memory
    refine ⟨f, finished, freed, ?_⟩
    rcases outcome with ⟨rfl, rfl⟩ | ⟨rfl, short⟩
    · have room (nonempty : delivered.flatten ≠ []) :
          Room u.heap delivered.flatten.length ↔ ∃ h' p, s.heap.memget delivered.flatten.length = some (h', some p) := by
        have positive := List.length_pos_iff.mpr nonempty
        rw [Room, g.listBlocks, g.reserved]
        constructor
        · rintro ⟨h', same, zero | given⟩
          · omega
          · cases same
            exact given
        · intro given
          exact ⟨_, rfl, .inr given⟩
      rcases result with ⟨ok, nonempty, given, success⟩ | ⟨unmet, failure⟩
      · exact .inl ⟨ok, nonempty, (room nonempty).mpr given, success⟩
      · exact .inr ⟨fun all => unmet ⟨all.1, all.2.1, (room all.2.1).mp all.2.2⟩, failure⟩
    · rcases result with ⟨ok, -⟩ | ⟨-, failure⟩
      · exact absurd ok (by decide)
      · refine .inr ⟨?_, failure⟩
        rintro ⟨-, -, h', taken, -⟩
        exact nomatch short.symm.trans taken

/-- A file that is delivered, with the memory for it, is in a buffer, and otherwise nothing has happened. -/
structure Delivers (lo hi : Nat) (u : Use) (free : List (Nat × Nat)) (len : Nat) (delivered : List (List Byte)) (retval : Int)
    (f : Fetched) : Prop where
  freed : Freed f
  success : retval = OK → Room u.heap delivered.flatten.length → Success lo hi u delivered.flatten f
  failure : ¬ (retval = OK ∧ Room u.heap delivered.flatten.length) → Failure u free len f

theorem fetch_buffer (parts : Partition lo hi u free) (len : Nat) (delivered : List (List Byte)) (retval : Int)
    (node : Nat → FileDataBlock) (memory : Int → Byte) :
    (∃ f, u.heap.tftpGetIntoBuffer (some len) delivered retval node memory = some f ∧
        Delivers lo hi u free len delivered retval f) ↔
      ¬ (retval = OK ∧ delivered.flatten = [] ∧ Room u.heap 0) := by
  obtain ⟨f, fetched, freed, outcome⟩ := tftpGetIntoBuffer_cases parts len delivered retval node memory
  constructor
  · rintro ⟨f', same, delivers⟩ ⟨ok, empty, room⟩
    cases fetched.symm.trans same
    obtain ⟨p, given, -⟩ := (delivers.success ok (by rw [empty]; exact room)).buffer
    rcases outcome with ⟨-, nonempty, -⟩ | ⟨-, failure⟩
    · exact nonempty empty
    · exact nomatch given.symm.trans failure.retval
  · intro expected
    refine ⟨f, fetched, freed, ?_, ?_⟩
    · intro ok room
      rcases outcome with ⟨-, -, -, success⟩ | ⟨unmet, -⟩
      · exact success
      · refine absurd ⟨ok, fun empty => expected ⟨ok, empty, ?_⟩, room⟩ unmet
        rw [empty] at room
        exact room
    · intro fails
      rcases outcome with ⟨ok, -, room, -⟩ | ⟨-, failure⟩
      · exact absurd ⟨ok, room⟩ fails
      · exact failure

theorem fetch_buffer_rpi :
    (∃ f, (heapInit rpi).tftpGetIntoBuffer (some 0) [[1, 2]] OK (fun _ => ⟨NULL, []⟩) (fun _ => 0) = some f ∧
        Delivers 0x100000 0xBFFFFF8 (Use.start rpi) [(0x100000, 0xBEFFFF8)] 0 [[1, 2]] OK f) ↔
      ¬ (OK = OK ∧ [[1, 2]].flatten = ([] : List Byte) ∧ Room (heapInit rpi) 0) :=
  fetch_buffer (start_partition rpi (by decide)) 0 [[1, 2]] OK (fun _ => ⟨NULL, []⟩) (fun _ => 0)

theorem fetch_buffer_empty : Room (heapInit rpi) 0 ∧
    ∃ f, (heapInit rpi).tftpGetIntoBuffer (some 0) [[]] OK (fun _ => ⟨NULL, []⟩) (fun _ => 0) = some f ∧ f.retval = none := by
  obtain ⟨f, fetched, -, outcome⟩ := tftpGetIntoBuffer_cases (start_partition rpi (by decide)) 0 [[]] OK (fun _ => ⟨NULL, []⟩)
    (fun _ => 0)
  constructor
  · obtain ⟨h, reserved⟩ := Option.isSome_iff_exists.mp (by decide +kernel : (reserve (Fetch.listBlocks 0) (heapInit rpi)).isSome)
    exact ⟨h, reserved, .inl rfl⟩
  · refine ⟨f, fetched, ?_⟩
    rcases outcome with ⟨-, nonempty, -⟩ | ⟨-, failure⟩
    · exact absurd rfl nonempty
    · exact failure.retval

end Xinu.Fetch
