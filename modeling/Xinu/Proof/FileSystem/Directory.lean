import Xinu.Lib.Runs
import Xinu.Lib.Scan
import Xinu.Proof.FileSystem.Layout

namespace Xinu.FileSystem
open Lib

section
variable {n : Nat} {s : FileSystem}

theorem scanFd_eq (m fd : Nat) :
    s.scanFd m fd = (probe (fun i => !(s.oft i).opened) 0 NUM_FD m fd).1 := by
  induction m generalizing fd with
  | zero => rfl
  | succ m ih =>
      cases state : (s.oft fd).opened <;> simp [scanFd, probe, state, ih]

theorem scanInode_found (fmt : Formatted n s) (word : n < 2 ^ 31) (m i : Nat) (x : Inode)
    (start : i < n) (found : (probe (fun i => (s.inode i).free n) 0 n m i).2 = true) :
    s.scanInode m i x = ((probe (fun i => (s.inode i).free n) 0 n m i).1,
      s.inode (probe (fun i => (s.inode i).free n) 0 n m i).1) := by
  induction m generalizing i x with
  | zero => simp [probe] at found
  | succ m ih =>
      have read := fmt.getInodeByNum (x := x) (i := i) (by omega) (by omega)
      cases free : (s.inode i).free n with
      | true => simp [scanInode, probe, read, free, fmt.ninodes]
      | false =>
          simp only [probe, free, Bool.false_eq_true, if_false] at found
          have next : (if i + 1 ≥ n then 0 else i + 1) < n := by split <;> omega
          simpa [scanInode, probe, read, free, fmt.ninodes] using ih _ (s.inode i) next found

theorem scanInode_read (fmt : Formatted n s) (word : n < 2 ^ 31) (m i : Nat) (x : Inode)
    (start : i < n) (read : m = 0 → ∃ j, j < n ∧ x = s.inode j) :
    ∃ j, j < n ∧ (s.scanInode m i x).2 = s.inode j := by
  induction m generalizing i x with
  | zero => exact read rfl
  | succ m ih =>
      have read := fmt.getInodeByNum (x := x) (i := i) (by omega) (by omega)
      simp only [scanInode, read, fmt.ninodes]
      split
      · exact ⟨i, start, rfl⟩
      · exact ih _ (s.inode i) (by split <;> omega) fun _ => ⟨i, start, rfl⟩

theorem putInodeByNum_numentries {dev i : Int} {x : Inode} :
    (s.putInodeByNum dev i x).numentries = s.numentries := by
  by_cases none : s.dev0Blocksize = 0
  · simp [putInodeByNum, bread, none]
  · simp [putInodeByNum, bread, bwrite, none, apply_ite numentries]

def names (s : FileSystem) (e i : Nat) : Prop := e < s.numentries ∧ (s.entry e).inodeNum = i

structure Directory (n : Nat) (s : FileSystem) : Prop where
  fmt : Formatted n s
  word : n < 2 ^ 31
  room : s.numentries ≤ DIRECTORY_SIZE
  unused : ∀ e, s.numentries ≤ e → e < DIRECTORY_SIZE → (s.entry e).name = []
  distinct : ∀ e e', e < s.numentries → e' < s.numentries →
    (s.entry e).name = (s.entry e').name → e = e'
  numbered : ∀ e, e < s.numentries → ∃ i, i < n ∧ s.names e i
  single : ∀ e e' i, s.names e i → s.names e' i → e = e'
  id : ∀ e i, s.names e i → (s.inode i).id = BitVec.ofNat 32 i
  fd : s.nextOpenFd < NUM_FD
  next : s.nextFreeInode < n

theorem Directory.bound (dir : Directory n s) {e i : Nat} (entry : s.names e i) : i < n := by
  obtain ⟨j, bound, numbered⟩ := dir.numbered e entry.1
  have := entry.2
  have := numbered.2
  omega

theorem toInt_ofNat {i : Nat} (bound : i < 2 ^ 31) : (BitVec.ofNat 32 i).toInt = i := by
  rw [BitVec.toInt_eq_toNat_bmod, BitVec.toNat_ofNat, Int.bmod_def]
  omega

theorem not_free {x : Inode} {i : Nat} (bound : i < n) (word : n < 2 ^ 31)
    (id : x.id = BitVec.ofNat 32 i) : x.free n = false := by
  have value : x.id.toInt = i := by rw [id, toInt_ofNat (by omega)]
  simp [Inode.free, value]
  omega

/-- `fcreate` comes as far as adding an entry to the directory. -/
def creates (s : FileSystem) (filename : List Byte) (mode : Int) : Prop :=
  filename.length < FILENAMELEN ∧ mode = O_CREAT ∧ s.lookup filename = none

def provided (s : FileSystem) : Prop :=
  s.numentries < DIRECTORY_SIZE ∧ (∃ fd, fd < NUM_FD ∧ (s.oft fd).opened = false) ∧
    ∃ i, i < s.ninodes ∧ (s.inode i).free s.ninodes = true

def emptyInode (s : FileSystem) (i : Nat) : Inode :=
  { s.inode i with id := BitVec.ofNat 32 i, type := INODE_TYPE_FILE, nlink := 0, device := 0, size := 0 }

def created (s : FileSystem) (fd i : Nat) (filename : List Byte) : FileSystem :=
  { s with
    numentries := s.numentries + 1
    entry := Function.update s.entry s.numentries ⟨i, filename⟩
    oft := Function.update s.oft fd ⟨true, 0, O_RDWR, some s.numentries, s.emptyInode i⟩
    inodesUsed := s.inodesUsed + 1
    nextOpenFd := fd
    nextFreeInode := i
    dev0Blocks := store s.dev0Blocks (slot i) (s.emptyInode i).encode }

theorem fcreate_eq (fmt : Formatted n s) (word : n < 2 ^ 31) {filename : List Byte} {mode : Int}
    (creates : s.creates filename mode) {fd i : Nat}
    (scanned : (probe (fun i => !(s.oft i).opened) 0 NUM_FD NUM_FD s.nextOpenFd).1 = fd)
    (closed : (s.oft fd).opened = false) (start : s.nextFreeInode < n)
    (found : probe (fun i => (s.inode i).free n) 0 n n s.nextFreeInode = (i, true)) (bound : i < n) :
    s.fcreate filename mode = (s.created fd i filename, (fd : Int)) := by
  obtain ⟨short, flag, absent⟩ := creates
  have count := fmt.ninodes
  subst count
  have free := probe_free (congrArg Prod.snd found)
  rw [found] at free
  have whole : filename.take (FILENAMELEN - 1) = filename := by
    apply List.take_of_length_le
    simp only [FILENAMELEN] at *
    omega
  have scan : ({ s with
      numentries := s.numentries + 1
      entry := Function.update s.entry s.numentries ⟨-1, filename⟩
      nextOpenFd := fd } : FileSystem).scanInode s.ninodes s.nextFreeInode (s.oft fd).inode =
        (i, s.inode i) := by
    rw [scanInode_found (n := s.ninodes)]
    · exact congrArg (fun r : Nat × Bool => (r.1, s.inode r.1)) found
    · exact fmt.same rfl
    · exact word
    · exact start
    · exact congrArg Prod.snd found
  simp only [fcreate, absent, setEntry, setFile, scanFd_eq, scanned, whole]
  rw [if_neg (by omega), if_neg (by simp [flag]), if_neg (by simp), if_neg (by simp [closed])]
  simp only [scan, free, not_true_eq_false, if_false, toInt_ofNat (Nat.lt_trans bound word)]
  rw [Formatted.putInodeByNum (n := s.ninodes)]
  · simp [created, emptyInode]
  · exact fmt.same rfl
  · omega
  · omega

theorem fcreate_cases (dir : Directory n s) {filename : List Byte} {mode : Int}
    (allowed : s.creates filename mode → s.provided) :
    (¬ s.creates filename mode ∧ s.fcreate filename mode = (s, SYSERR)) ∨
    ∃ fd i, s.creates filename mode ∧ s.numentries < DIRECTORY_SIZE ∧ fd < NUM_FD ∧
      (s.oft fd).opened = false ∧ i < n ∧ (s.inode i).free n = true ∧
      s.fcreate filename mode = (s.created fd i filename, (fd : Int)) := by
  by_cases creates : s.creates filename mode
  · obtain ⟨room, ⟨fd, bound, closed⟩, i, inRange, unused⟩ := allowed creates
    rw [dir.fmt.ninodes] at inRange unused
    have foundFd := probe_complete (p := fun i => !(s.oft i).opened)
      (i := s.nextOpenFd) ⟨Nat.zero_le _, dir.fd⟩ (Nat.zero_le fd) bound (by simp [closed])
      (Nat.le_refl NUM_FD)
    have foundInode := probe_complete (p := fun i => (s.inode i).free n)
      (i := s.nextFreeInode) ⟨Nat.zero_le _, dir.next⟩ (Nat.zero_le i) inRange unused
      (Nat.le_refl n)
    have fdRange := (probe_within (p := fun i => !(s.oft i).opened) (n := NUM_FD)
      ⟨Nat.zero_le _, dir.fd⟩).2
    have inodeRange := (probe_within (p := fun i => (s.inode i).free n) (n := n)
      ⟨Nat.zero_le _, dir.next⟩).2
    have fdFree : (s.oft (probe (fun i => !(s.oft i).opened) 0 NUM_FD NUM_FD s.nextOpenFd).1).opened =
        false := by simpa using probe_free foundFd
    have inodeFree := probe_free foundInode
    refine .inr ⟨_, _, creates, room, fdRange, fdFree, inodeRange, inodeFree, ?_⟩
    exact fcreate_eq dir.fmt dir.word creates rfl fdFree dir.next (Prod.ext rfl foundInode) inodeRange
  · refine .inl ⟨creates, ?_⟩
    simp only [FileSystem.creates] at creates
    simp only [fcreate]
    split
    · rfl
    · split
      · rfl
      · rename_i short flag
        cases found : s.lookup filename with
        | none => exact absurd ⟨by omega, by simpa using flag, found⟩ creates
        | some e => rfl

def reopened (s : FileSystem) (fd e i : Nat) (flags : Int) : FileSystem :=
  { s with
    oft := Function.update s.oft fd ⟨true, 0, flags, some e, s.inode i⟩
    nextOpenFd := fd }

theorem lookup_some {filename : List Byte} {e : Nat} (found : s.lookup filename = some e) :
    e < DIRECTORY_SIZE ∧ sameName (s.entry e).name filename = true := by
  have here := List.find?_some found
  have member := List.mem_of_find?_eq_some found
  exact ⟨List.mem_range.mp member, here⟩

theorem lookup_none {filename : List Byte} (absent : s.lookup filename = none) {e : Nat}
    (bound : e < DIRECTORY_SIZE) : (s.entry e).name ≠ filename := by
  intro same
  have := List.find?_eq_none.mp absent e (List.mem_range.mpr bound)
  simp [sameName, same] at this

theorem Directory.found (dir : Directory n s) {filename : List Byte} (nonempty : filename ≠ [])
    {e : Nat} (found : s.lookup filename = some e) : e < s.numentries := by
  obtain ⟨bound, same⟩ := lookup_some found
  by_contra outside
  have empty := dir.unused e (by omega) bound
  simp [sameName, empty, nonempty] at same

theorem fopen_cases (dir : Directory n s) {filename : List Byte} (nonempty : filename ≠ [])
    (flags : Int) :
    s.fopen filename flags = (s, SYSERR) ∨
    (∃ fd, fd < NUM_FD ∧ s.fopen filename flags = ({ s with nextOpenFd := fd }, SYSERR)) ∨
    ∃ fd e i, fd < NUM_FD ∧ (s.oft fd).opened = false ∧ s.names e i ∧
      s.lookup filename = some e ∧
      s.fopen filename flags = (s.reopened fd e i flags, (fd : Int)) := by
  simp only [fopen]
  cases found : s.lookup filename with
  | none => exact .inl rfl
  | some e =>
      obtain ⟨i, bound, entry⟩ := dir.numbered e (dir.found nonempty found)
      have range := (probe_within (p := fun i => !(s.oft i).opened) (n := NUM_FD)
        ⟨Nat.zero_le _, dir.fd⟩).2
      simp only [scanFd_eq]
      generalize (probe (fun i => !(s.oft i).opened) 0 NUM_FD NUM_FD s.nextOpenFd).1 = fd at range
      have word := dir.word
      cases state : (s.oft fd).opened with
      | true => exact .inr (.inl ⟨fd, range, by simp⟩)
      | false =>
          refine .inr (.inr ⟨fd, e, i, range, state, entry, rfl, ?_⟩)
          simp only [Bool.false_eq_true, if_false, entry.2]
          rw [Formatted.getInodeByNum (n := n)]
          · rfl
          · exact dir.fmt.same rfl
          · omega
          · omega

theorem fclose_cases {fd : Int} {r : FileSystem × Int} (action : s.fclose fd = some r) :
    r = (s, SYSERR) ∨ ∃ fd' : Nat, fd = fd' ∧ fd' < NUM_FD ∧ (s.oft fd').opened = true ∧
      r = ({ s with oft := Function.update s.oft fd' { s.oft fd' with opened := false } }, OK) := by
  simp only [fclose] at action
  split at action
  · cases action
  · rename_i range
    split at action
    · exact .inl (by simpa using action.symm)
    · rename_i state
      refine .inr ⟨fd.toNat, by omega, by omega, by simpa using state, ?_⟩
      simpa [setFile] using action.symm

theorem Directory.same {s' : FileSystem} (dir : Directory n s) (fmt : Formatted n s')
    (numentries : s'.numentries = s.numentries) (entry : s'.entry = s.entry)
    (id : ∀ i, i < n → (s'.inode i).id = (s.inode i).id) (fd : s'.nextOpenFd < NUM_FD)
    (next : s'.nextFreeInode < n) : Directory n s' := by
  have names (e i : Nat) : s'.names e i ↔ s.names e i := by
    rw [FileSystem.names, FileSystem.names, numentries, entry]
  constructor
  · exact fmt
  · exact dir.word
  · exact numentries ▸ dir.room
  · simpa only [numentries, entry] using dir.unused
  · simpa only [numentries, entry] using dir.distinct
  · simpa only [numentries, names] using dir.numbered
  · simpa only [names] using dir.single
  · intro e i named
    have named := (names e i).mp named
    rw [id i (dir.bound named), dir.id e i named]
  · exact fd
  · exact next

theorem created_names {fd i j e : Nat} {filename : List Byte} :
    (s.created fd i filename).names e j ↔
      s.names e j ∨ e = s.numentries ∧ j = i := by
  by_cases new : e = s.numentries
  · subst new
    simp only [names, created, Function.update_self, Nat.lt_irrefl, false_and, true_and, false_or]
    omega
  · simp only [names, created, Function.update_of_ne new, new, false_and, or_false]
    constructor
    · rintro ⟨bound, number⟩
      exact ⟨by omega, number⟩
    · rintro ⟨bound, number⟩
      exact ⟨by omega, number⟩

theorem created_inode_self {fd i : Nat} {filename : List Byte} :
    (s.created fd i filename).inode i = s.emptyInode i := inode_store_same rfl

theorem created_inode_other {fd i j : Nat} {filename : List Byte} (other : i ≠ j) :
    (s.created fd i filename).inode j = s.inode j := inode_store_other rfl other

theorem Directory.other (dir : Directory n s) {e i j : Nat} (entry : s.names e j)
    (free : (s.inode i).free n = true) : i ≠ j := by
  rintro rfl
  rw [not_free (dir.bound entry) dir.word (dir.id e i entry)] at free
  cases free

theorem Directory.created (dir : Directory n s) {fd i : Nat} {filename : List Byte} {mode : Int}
    (creates : s.creates filename mode) (room : s.numentries < DIRECTORY_SIZE) (bound : fd < NUM_FD)
    (inRange : i < n) (free : (s.inode i).free n = true) :
    Directory n (s.created fd i filename) := by
  have fresh (e : Nat) (used : e < s.numentries) : (s.entry e).name ≠ filename :=
    lookup_none creates.2.2 (by omega)
  constructor
  · exact dir.fmt.same rfl
  · exact dir.word
  · exact room
  · intro e unused bound
    simp only [FileSystem.created] at unused ⊢
    rw [Function.update_of_ne (by omega)]
    exact dir.unused e (by omega) bound
  · intro e e' used used' same
    simp only [FileSystem.created] at used used' same
    by_cases new : e = s.numentries <;> by_cases new' : e' = s.numentries
    · omega
    · rw [new, Function.update_self, Function.update_of_ne new'] at same
      exact absurd same.symm (fresh e' (by omega))
    · rw [new', Function.update_self, Function.update_of_ne new] at same
      exact absurd same (fresh e (by omega))
    · rw [Function.update_of_ne new, Function.update_of_ne new'] at same
      exact dir.distinct e e' (by omega) (by omega) same
  · intro e used
    simp only [FileSystem.created] at used
    by_cases new : e = s.numentries
    · exact ⟨i, inRange, created_names.mpr (.inr ⟨new, rfl⟩)⟩
    · obtain ⟨j, inRange, entry⟩ := dir.numbered e (by omega)
      exact ⟨j, inRange, created_names.mpr (.inl entry)⟩
  · intro e e' j entry entry'
    rcases created_names.mp entry with entry | ⟨rfl, rfl⟩ <;>
      rcases created_names.mp entry' with entry' | ⟨rfl, same⟩
    · exact dir.single e e' j entry entry'
    · exact absurd same.symm (dir.other entry free)
    · exact absurd rfl (dir.other entry' free)
    · rfl
  · intro e j entry
    rcases created_names.mp entry with entry | ⟨rfl, rfl⟩
    · rw [created_inode_other (dir.other entry free), dir.id e j entry]
    · rw [created_inode_self]
      rfl
  · exact bound
  · exact inRange

theorem Directory.reopened (dir : Directory n s) {fd e i : Nat} {flags : Int} (bound : fd < NUM_FD) :
    Directory n (s.reopened fd e i flags) :=
  dir.same (dir.fmt.same rfl) rfl rfl (fun _ _ => rfl) bound dir.next

end

theorem formatted_directory (device : Int → Byte) {numInodes : Int} (word : numInodes < 2 ^ 31)
    (address : Nat) (memory : Nat → Byte) :
    Directory (if numInodes < 1 then DEFAULT_NUM_INODES else numInodes.toNat)
      (formatted device numInodes address memory) := by
  have empty : (formatted device numInodes address memory).numentries = 0 := rfl
  have entry : (formatted device numInodes address memory).entry = fun _ => ⟨0, []⟩ := rfl
  have unnamed (e i : Nat) : ¬ (formatted device numInodes address memory).names e i := by
    simp [names, empty]
  have positive : 0 < (if numInodes < 1 then DEFAULT_NUM_INODES else numInodes.toNat) := by
    split
    · decide
    · omega
  constructor
  · exact formatted_fmt device numInodes address memory
  · split
    · decide
    · omega
  · simp [empty]
  · simp [entry]
  · simp [empty]
  · simp [empty]
  · exact fun e e' i named => absurd named (unnamed e i)
  · exact fun e i named => absurd named (unnamed e i)
  · exact Nat.zero_lt_succ _
  · exact positive

section
variable {n : Nat} {s : FileSystem}

structure Consistent (s : FileSystem) : Prop where
  room : s.numentries ≤ DIRECTORY_SIZE
  distinct : ∀ e e', e < s.numentries → e' < s.numentries → e ≠ e' →
    (s.entry e).name ≠ (s.entry e').name ∧ (s.entry e).inodeNum ≠ (s.entry e').inodeNum
  numbered : ∀ e, e < s.numentries → 0 ≤ (s.entry e).inodeNum ∧ (s.entry e).inodeNum < s.ninodes
  used : ∀ e x, e < s.numentries →
    (s.getInodeByNum 0 (s.entry e).inodeNum x).free s.ninodes = false

structure Untouched (s s' : FileSystem) : Prop where
  numentries : s'.numentries = s.numentries
  entry : s'.entry = s.entry
  oft : s'.oft = s.oft
  inode : ∀ (i : Nat) (x : Inode), i < s.ninodes → s'.getInodeByNum 0 i x = s.getInodeByNum 0 i x

theorem Directory.consistent (dir : Directory n s) : Consistent s := by
  have word := dir.word
  constructor
  · exact dir.room
  · intro e e' used used' other
    refine ⟨fun same => other (dir.distinct e e' used used' same), fun same => ?_⟩
    obtain ⟨i, _, entry⟩ := dir.numbered e used
    exact other (dir.single e e' i entry ⟨used', same ▸ entry.2⟩)
  · intro e used
    obtain ⟨i, bound, entry⟩ := dir.numbered e used
    rw [entry.2, dir.fmt.ninodes]
    omega
  · intro e x used
    obtain ⟨i, bound, entry⟩ := dir.numbered e used
    rw [entry.2, dir.fmt.getInodeByNum (by omega) (by omega), dir.fmt.ninodes]
    exact not_free bound dir.word (dir.id e i entry)

theorem fcreate_numentries {filename : List Byte} {mode : Int} (creates : s.creates filename mode) :
    (s.fcreate filename mode).1.numentries = s.numentries + 1 := by
  obtain ⟨short, flag, absent⟩ := creates
  simp only [fcreate, absent, setEntry, setFile, scanFd_eq]
  rw [if_neg (by omega), if_neg (by simp [flag]), if_neg (by simp)]
  simp only [apply_ite Prod.fst, apply_ite numentries, putInodeByNum_numentries, ite_self]

theorem fcreate_unprovided (dir : Directory n s) {filename : List Byte} {mode : Int}
    (creates : s.creates filename mode) (room : s.numentries < DIRECTORY_SIZE)
    (short : ¬ s.provided) : (s.fcreate filename mode).2 = SYSERR := by
  obtain ⟨brief, flag, absent⟩ := creates
  simp only [fcreate, absent, setEntry, setFile, scanFd_eq]
  rw [if_neg (by omega), if_neg (by simp [flag]), if_neg (by simp)]
  split
  · rfl
  · rename_i closed
    have range := (probe_within (p := fun i => !(s.oft i).opened) (n := NUM_FD)
      ⟨Nat.zero_le _, dir.fd⟩).2
    -- with an entry and a descriptor at hand it is the inode that is missing
    have taken (i : Nat) (bound : i < n) : (s.inode i).free s.ninodes = false := by
      rw [Bool.eq_false_iff]
      intro free
      exact short ⟨room, ⟨_, range, by simpa using closed⟩, i, dir.fmt.ninodes ▸ bound, free⟩
    split
    · rfl
    · rename_i free
      rw [Decidable.not_not] at free
      obtain ⟨j, bound, same⟩ := scanInode_read (n := n) (s := { s with
          numentries := s.numentries + 1
          entry := Function.update s.entry s.numentries ⟨-1, filename.take (FILENAMELEN - 1)⟩
          nextOpenFd := (probe (fun i => !(s.oft i).opened) 0 NUM_FD NUM_FD s.nextOpenFd).1 })
        (dir.fmt.same rfl) dir.word s.ninodes s.nextFreeInode
        (s.oft (probe (fun i => !(s.oft i).opened) 0 NUM_FD NUM_FD s.nextOpenFd).1).inode dir.next
        (fun none => by have := dir.next; have := dir.fmt.ninodes; omega)
      rw [same] at free
      exact absurd ((taken j bound).symm.trans free) Bool.false_ne_true

/-- What the directory has to be after `fcreate`. -/
def CreatesCleanly (s : FileSystem) (filename : List Byte) (mode : Int) : Prop :=
  Consistent (s.fcreate filename mode).1 ∧
    ((s.fcreate filename mode).2 = SYSERR → Untouched s (s.fcreate filename mode).1)

theorem not_createsCleanly (dir : Directory n s) {filename : List Byte} {mode : Int}
    (creates : s.creates filename mode) (short : ¬ s.provided) :
    ¬ s.CreatesCleanly filename mode := by
  rintro ⟨consistent, untouched⟩
  have count := fcreate_numentries creates
  by_cases room : s.numentries < DIRECTORY_SIZE
  · have := (untouched (fcreate_unprovided dir creates room short)).numentries
    omega
  · have := consistent.room
    omega

theorem createsCleanly_iff (dir : Directory n s) {filename : List Byte} {mode : Int} :
    s.CreatesCleanly filename mode ↔ (s.creates filename mode → s.provided) := by
  constructor
  · intro cleanly creates
    by_contra short
    exact not_createsCleanly dir creates short cleanly
  · intro allowed
    rcases fcreate_cases dir allowed with
      ⟨_, result⟩ | ⟨fd, i, creates, room, bound, closed, inRange, free, result⟩
    · rw [CreatesCleanly, result]
      exact ⟨dir.consistent, fun _ => ⟨rfl, rfl, rfl, fun _ _ _ => rfl⟩⟩
    · rw [CreatesCleanly, result]
      refine ⟨(dir.created creates room bound inRange free).consistent, fun failed => ?_⟩
      simp only [SYSERR] at failed
      omega

def isName (filename : List Byte) : Prop := filename ≠ [] ∧ 0 ∉ filename

def directoryCall : FileCall → Prop
  | .fcreate filename _ | .fopen filename _ => isName filename
  | .fclose _ => True
  | _ => False

/-- When `fcreate` adds an entry, it finds all that the file needs. -/
def allotted (s : FileSystem) : FileCall → Prop
  | .fcreate filename mode => s.creates filename mode → s.provided
  | _ => True

theorem Directory.step (dir : Directory n s) {s' : FileSystem} {call : FileCall}
    (kind : directoryCall call) (allowed : s.allotted call) (action : step call s = some s') :
    Directory n s' := by
  cases call with
  | fcreate filename mode =>
      simp only [FileSystem.step, Option.some.injEq] at action
      subst action
      rcases fcreate_cases dir allowed with
        ⟨_, result⟩ | ⟨fd, i, creates, room, bound, closed, inRange, free, result⟩
      · rwa [result]
      · rw [result]
        exact dir.created creates room bound inRange free
  | fopen filename flags =>
      simp only [FileSystem.step, Option.some.injEq] at action
      subst action
      rcases fopen_cases dir kind.1 flags with
        result | ⟨fd, bound, result⟩ | ⟨fd, e, i, bound, closed, entry, found, result⟩
      · rwa [result]
      · rw [result]
        exact dir.same (dir.fmt.same rfl) rfl rfl (fun _ _ => rfl) bound dir.next
      · rw [result]
        exact dir.reopened bound
  | fclose fd =>
      simp only [FileSystem.step, Option.map_eq_some_iff] at action
      obtain ⟨r, action, rfl⟩ := action
      rcases fclose_cases action with rfl | ⟨fd, rfl, bound, opened, rfl⟩
      · exact dir
      · exact dir.same (dir.fmt.same rfl) rfl rfl (fun _ _ => rfl) dir.fd dir.next
  | _ => exact kind.elim

/-- In every run in which `fcreate` finds what it needs the directory is consistent, and the next
`fcreate` leaves it so, and nothing changed if it fails, exactly if it finds what it needs. -/
theorem directory_consistent {device : Int → Byte} {numInodes : Int} (word : numInodes < 2 ^ 31)
    {address : Nat} {memory : Nat → Byte}
    (reach : Reach step (fun s call => directoryCall call ∧ s.allotted call)
      (formatted device numInodes address memory) s) :
    Consistent s ∧ ∀ filename mode, isName filename →
      (s.CreatesCleanly filename mode ↔ (s.creates filename mode → s.provided)) := by
  have dir := reach.invariant (formatted_directory device word address memory)
    fun _ _ _ dir allowed action => dir.step allowed.1 allowed.2 action
  exact ⟨dir.consistent, fun _ _ _ => createsCleanly_iff dir⟩

theorem formatted_uniform {b : Byte} {numInodes : Int} {address : Nat} {memory : Nat → Byte} (i : Nat) :
    (formatted (fun _ => b) numInodes address memory).inode i =
      Inode.decode (List.replicate Inode.SIZE b) := by
  rw [formatted_inode, load_const]

theorem blank_provided : (formatted (fun _ => 255) 128 0 fun _ => 0).provided := by
  refine ⟨by decide, ⟨0, by decide, rfl⟩, 0, by decide, ?_⟩
  rw [formatted_uniform]
  decide

theorem createOne_consistent :
    Consistent ((formatted (fun _ => 255) 128 0 fun _ => 0).fcreate [97] O_CREAT).1 := by
  have word : (128 : Int) < 2 ^ 31 := by decide
  have name : isName [97] := ⟨by decide, by decide⟩
  exact (directory_consistent word
    (.next (a := .fcreate [97] O_CREAT) .init ⟨name, fun _ => blank_provided⟩ rfl)).1

theorem createZero_unclean : ∃ s, Reach step (fun _ call => directoryCall call)
    (formatted (fun _ => 0) 128 0 fun _ => 0) s ∧ isName [97] ∧ ¬ s.CreatesCleanly [97] O_CREAT := by
  refine ⟨_, .init, ⟨by decide, by decide⟩, ?_⟩
  apply not_createsCleanly (formatted_directory _ (by decide) _ _)
  · exact ⟨by decide, rfl, rfl⟩
  · rintro ⟨_, _, i, _, free⟩
    rw [formatted_uniform] at free
    revert free
    decide

end
end Xinu.FileSystem
