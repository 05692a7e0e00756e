import Xinu.System.Tar
import Xinu.Proof.CString

namespace Xinu.Tar
open Lib (Byte)

def octal (digits : List Byte) : Nat := digits.foldl (fun n ch => n * 8 + (ch.toNat - 48)) 0

structure Member where
  header : List Byte
  data : List Byte
  padding : List Byte
  length_header : header.length = 512
  named : header.head? ≠ some 0
  digits : ∀ ch ∈ (header.drop FILESIZE).take (TAR_FILESIZE_LEN - 1), 48 ≤ ch.toNat ∧ ch.toNat ≤ 55
  size : octal ((header.drop FILESIZE).take (TAR_FILESIZE_LEN - 1)) = data.length
  small : data.length < 2 ^ 31
  padded : (data.length + padding.length) % 512 = 0
  short : padding.length < 512

namespace Member

def bytes (m : Member) : List Byte := m.header ++ m.data ++ m.padding

def name (m : Member) : List Byte := (m.header.take TAR_FILENAME_LEN).takeWhile (· ≠ 0)

def entry (m : Member) : List Byte := m.name ++ List.replicate (TAR_FILENAME_LEN - m.name.length) 0

def Ustar (m : Member) : Prop := (m.header.drop TYPE).take 5 = [117, 115, 116, 97, 114]

instance (m : Member) : Decidable m.Ustar := inferInstanceAs (Decidable (_ = _))

end Member

/-- The members, and a block of zeros. -/
def archive (members : List Member) : List Byte :=
  members.flatMap Member.bytes ++ List.replicate 512 0

def find (name : List Byte) : Int → List Member → Option Int
  | _, [] => none
  | pos, m :: members => if m.name = name then some pos else find name (pos + m.bytes.length) members

def Laid (mem : Int → Byte) : Int → List Member → Prop
  | pos, [] => mem pos = 0 ∧ pos + 512 < 2 ^ 31
  | pos, m :: members =>
      Lib.load mem pos 512 = m.header ∧ Lib.load mem (pos + 512) m.data.length = m.data ∧
        0 ≤ pos ∧ pos + m.bytes.length + 512 < 2 ^ 31 ∧ Laid mem (pos + m.bytes.length) members

variable {mem : Int → Byte} {pos : Int} {m : Member} {members : List Member}

theorem Member.length_bytes (m : Member) : m.bytes.length = 512 + (m.data.length + m.padding.length) := by
  rw [Member.bytes, List.length_append, List.length_append, m.length_header, Nat.add_assoc]

theorem length_archive (members : List Member) : 512 ≤ (archive members).length := by
  rw [archive, List.length_append, List.length_replicate]
  exact Nat.le_add_left ..

theorem laid_archive (start : 0 ≤ pos) (fits : pos + (archive members).length < 2 ^ 31)
    (holds : Lib.load mem pos (archive members).length = archive members) : Laid mem pos members := by
  induction members generalizing pos with
  | nil =>
      have block := length_archive []
      rw [archive, List.flatMap_nil, List.nil_append, List.length_replicate] at holds
      rw [Lib.load_succ, List.replicate_succ] at holds
      exact ⟨(List.cons.inj holds).1, by omega⟩
  | cons m members ih =>
      have split : archive (m :: members) = m.header ++ (m.data ++ (m.padding ++ archive members)) := by
        simp only [archive, Member.bytes, List.flatMap_cons, List.append_assoc]
      have length : (archive (m :: members)).length = 512 + (m.data.length + (m.padding.length + (archive members).length)) := by
        rw [split]
        simp only [List.length_append, m.length_header]
      have bytes := m.length_bytes
      have block := length_archive members
      rw [length] at holds fits
      rw [split, Lib.load_append] at holds
      obtain ⟨header, holds⟩ := List.append_inj holds (by rw [Lib.length_load, m.length_header])
      rw [Lib.load_append] at holds
      obtain ⟨data, holds⟩ := List.append_inj holds (by rw [Lib.length_load])
      rw [Lib.load_append] at holds
      obtain ⟨-, rest⟩ := List.append_inj holds (by rw [Lib.length_load])
      have place : pos + ((512 : Nat) : Int) + (m.data.length : Int) + (m.padding.length : Int) =
          pos + m.bytes.length := by omega
      rw [place] at rest
      exact ⟨header, data, start, by omega, ih (by omega) (by omega) rest⟩

theorem octal_digits (digits : List Byte) (bounds : ∀ ch ∈ digits, 48 ≤ ch.toNat ∧ ch.toNat ≤ 55) (n : Nat)
    (small : digits.foldl (fun n ch => n * 8 + (ch.toNat - 48)) n < 2 ^ 31) :
    n < 2 ^ 31 ∧ digits.foldl (fun size ch => int (int (size * TAR_FILESIZE_BASE) + (ch.toNat - 48))) (n : Int) =
      (digits.foldl (fun n ch => n * 8 + (ch.toNat - 48)) n : Nat) := by
  induction digits generalizing n with
  | nil => exact ⟨small, rfl⟩
  | cons ch digits ih =>
      obtain ⟨bound, bounds⟩ := List.forall_mem_cons.mp bounds
      obtain ⟨less, rest⟩ := ih bounds (n * 8 + (ch.toNat - 48)) small
      refine ⟨by omega, ?_⟩
      have product : int ((n : Int) * TAR_FILESIZE_BASE) = (n * 8 : Nat) := by
        rw [int, Int.bmod_eq_of_le]
        all_goals simp only [TAR_FILESIZE_BASE]
        all_goals omega
      have sum : int (((n * 8 : Nat) : Int) + ((ch.toNat : Int) - 48)) = ((n * 8 + (ch.toNat - 48) : Nat) : Int) := by
        rw [int, Int.bmod_eq_of_le]
        all_goals omega
      rw [List.foldl_cons, List.foldl_cons, product, sum]
      exact rest

theorem Member.size_read (m : Member) :
    ((m.header.drop FILESIZE).take (TAR_FILESIZE_LEN - 1)).foldl
      (fun size ch => int (int (size * TAR_FILESIZE_BASE) + (ch.toNat - 48))) 0 = m.data.length := by
  have small := m.small
  rw [← m.size] at small ⊢
  exact (octal_digits _ m.digits 0 small).2

theorem field_header (header : Lib.load mem pos 512 = m.header) (off len : Nat) (bound : off + len ≤ 512) :
    Lib.load mem (pos + off) len = (m.header.drop off).take len := by
  rw [← header, Lib.load_part off bound]

theorem tarFilesize_header (header : Lib.load mem pos 512 = m.header) :
    tarFilesize mem (pos + FILESIZE) = m.data.length := by
  rw [tarFilesize, field_header header FILESIZE (TAR_FILESIZE_LEN - 1) (by decide)]
  exact m.size_read

theorem roundtar_size (m : Member) :
    roundtar (SIZEOF + (m.data.length : Int)) =
      m.bytes.length + if m.data.length % 512 = 0 then 512 else 0 := by
  have length := m.length_bytes
  have small := m.small
  have padded := m.padded
  have short := m.short
  have sizeof : (SIZEOF : Int) = 513 := rfl
  rw [roundtar, length, sizeof]
  split
  · omega
  · omega

theorem next_laid (header : Lib.load mem pos 512 = m.header) (start : 0 ≤ pos)
    (fits : pos + m.bytes.length + 512 < 2 ^ 31) :
    next mem pos = pos + m.bytes.length ↔ m.data.length % 512 ≠ 0 := by
  have jump : next mem pos = pos + m.bytes.length + if m.data.length % 512 = 0 then 512 else 0 := by
    rw [next, tarFilesize_header header, roundtar_size, int]
    split
    · rw [Int.bmod_eq_of_le]
      all_goals omega
    · rw [Int.bmod_eq_of_le]
      all_goals omega
  rw [jump]
  split
  · omega
  · omega

theorem text_header (header : Lib.load mem pos 512 = m.header) :
    text (pointer mem pos) TAR_FILENAME_LEN = m.name := by
  have field := field_header header 0 TAR_FILENAME_LEN (by decide)
  rw [List.drop_zero, Int.natCast_zero, Int.add_zero] at field
  rw [text_pointer, field]
  rfl

theorem first_header (header : Lib.load mem pos 512 = m.header) : mem pos ≠ 0 := by
  intro zero
  apply m.named
  rw [← header, Lib.load_succ, zero]
  rfl

theorem listLoop_laid (laid : Laid mem pos members) (uneven : ∀ m ∈ members, m.data.length % 512 ≠ 0)
    {n : Nat} (room : members.length ≤ n) : listLoop mem n pos = members.map Member.entry := by
  induction members generalizing pos n with
  | nil =>
      cases n with
      | zero => rfl
      | succ n => rw [listLoop, if_pos laid.1, List.map_nil]
  | cons m members ih =>
      obtain ⟨header, -, start, fits, rest⟩ := laid
      obtain ⟨size, uneven⟩ := List.forall_mem_cons.mp uneven
      cases n with
      | zero => cases room
      | succ n =>
          rw [listLoop, if_neg (first_header header), (next_laid header start fits).mpr size,
            ih rest uneven (Nat.le_of_succ_le_succ room), strncpy_text, text_header header]
          rfl

theorem Member.length_name (m : Member) : m.name.length ≤ TAR_FILENAME_LEN :=
  Nat.le_trans (List.takeWhile_sublist _).length_le (List.length_take_le _ _)

theorem compare_header {name : List Byte} (header : Lib.load mem pos 512 = m.header) (string : 0 ∉ name) :
    strncmp (cstring name) (pointer mem pos) TAR_FILENAME_LEN = 0 ↔ name.take TAR_FILENAME_LEN = m.name := by
  rw [strncmp_zero, text_header header, text_cstring string]

theorem getLoop_laid {name : List Byte} (laid : Laid mem pos members) (string : 0 ∉ name)
    (before : ∀ m ∈ members.takeWhile (fun m => m.name ≠ name),
      m.data.length % 512 ≠ 0 ∧ name.take TAR_FILENAME_LEN ≠ m.name)
    {fuel : Nat} (enough : members.length < fuel) :
    getLoop mem (cstring name) fuel pos = some (find name pos members) := by
  induction members generalizing pos fuel with
  | nil =>
      obtain ⟨n, more⟩ : ∃ n, fuel = n + 1 := ⟨fuel - 1, by omega⟩
      rw [more, getLoop, if_pos laid.1]
      rfl
  | cons m members ih =>
      obtain ⟨header, -, start, fits, rest⟩ := laid
      obtain ⟨n, more⟩ : ∃ n, fuel = n + 1 := ⟨fuel - 1, by omega⟩
      have compare := compare_header header string
      rw [more, getLoop, if_neg (first_header header), find]
      by_cases found : m.name = name
      · rw [if_pos (compare.mpr ?_), if_pos found]
        rw [← found]
        exact List.take_of_length_le m.length_name
      · rw [List.takeWhile_cons_of_pos (by simpa using found)] at before
        obtain ⟨⟨size, other⟩, before⟩ := List.forall_mem_cons.mp before
        rw [if_neg fun same => other (compare.mp same), if_neg found, (next_laid header start fits).mpr size]
        exact ih rest before (by rw [more, List.length_cons] at enough; omega)

theorem tarGetData_laid (laid : Laid mem pos (m :: members)) (size : Nat) :
    tarGetData mem pos size =
      if m.Ustar then m.data.take size else Lib.load mem (pos + TYPE) (min size m.data.length) := by
  obtain ⟨header, data, -, -, -⟩ := laid
  have small := m.small
  have magic : strncmp (pointer mem (pos + TYPE)) (cstring [117, 115, 116, 97, 114]) 5 = 0 ↔ m.Ustar := by
    rw [strncmp_zero, text_cstring (by decide), text_pointer, field_header header TYPE 5 (by decide), Member.Ustar]
    generalize field : (m.header.drop TYPE).take 5 = bytes
    have length : bytes.length = 5 := by
      rw [← field, List.length_take, List.length_drop, m.length_header]
      rfl
    refine ⟨fun same => ?_, fun same => by rw [same]; decide⟩
    have whole : bytes.takeWhile (· ≠ 0) = bytes :=
      (List.takeWhile_prefix _).eq_of_length (by rw [same, length]; rfl)
    exact whole.symm.trans same
  have length : (if ((m.data.length : Int) % 2 ^ 32).toNat < size then ((m.data.length : Int) % 2 ^ 32).toNat
      else size) = min size m.data.length := by
    split
    · omega
    · omega
  rw [tarGetData, tarFilesize_header header]
  simp only [length]
  by_cases ustar : m.Ustar
  · rw [if_pos (magic.mpr ustar), if_pos ustar]
    have part := @Lib.load_part mem (pos + 512) m.data.length (min size m.data.length)
      0 (by omega)
    rw [List.drop_zero, data, Int.natCast_zero, Int.add_zero] at part
    refine part.symm.trans ?_
    rw [List.take_eq_take_iff]
    omega
  · rw [if_neg fun same => ustar (magic.mp same), if_neg ustar]

theorem laid_drop (laid : Laid mem pos members) (k : Nat) :
    Laid mem (pos + ((members.take k).flatMap Member.bytes).length) (members.drop k) := by
  induction members generalizing pos k with
  | nil => simpa using laid
  | cons m members ih =>
      cases k with
      | zero => simpa using laid
      | succ k =>
          obtain ⟨-, -, -, -, rest⟩ := laid
          have later := ih rest k
          rw [List.take_succ_cons, List.flatMap_cons, List.length_append, List.drop_succ_cons, Int.natCast_add,
            ← Int.add_assoc]
          exact later

def offset (members : List Member) (k : Nat) : Int := ((members.take k).flatMap Member.bytes).length

theorem tar_reads (fits : (archive members).length < 2 ^ 31)
    (holds : Lib.load mem 0 (archive members).length = archive members) :
    ((∀ m ∈ members, m.data.length % 512 ≠ 0) → ∀ nentries, members.length ≤ nentries →
      tarListFiles mem nentries = members.map Member.entry) ∧
    (∀ name, 0 ∉ name →
      (∀ m ∈ members.takeWhile (fun m => m.name ≠ name),
        m.data.length % 512 ≠ 0 ∧ name.take TAR_FILENAME_LEN ≠ m.name) →
      ∀ fuel, members.length < fuel → tarGetFile mem fuel (cstring name) = some (find name 0 members)) ∧
    (∀ k m, members[k]? = some m →
      (∀ size, tarGetData mem (offset members k) size =
        if m.Ustar then m.data.take size
        else Lib.load mem (offset members k + TYPE) (min size m.data.length)) ∧
      (next mem (offset members k) = offset members (k + 1) ↔ m.data.length % 512 ≠ 0)) := by
  have laid : Laid mem 0 members := laid_archive (Int.le_refl 0) (by omega) holds
  refine ⟨fun uneven nentries room => listLoop_laid laid uneven room,
    fun name string before fuel enough => getLoop_laid laid string before enough, ?_⟩
  intro k m found
  have later := laid_drop laid k
  have inside := (List.getElem?_eq_some_iff.mp found).1
  rw [List.drop_eq_getElem_cons inside, (List.getElem?_eq_some_iff.mp found).2, Int.zero_add] at later
  have place : offset members (k + 1) = offset members k + m.bytes.length := by
    rw [offset, offset, List.take_add_one, found, List.flatMap_append, List.length_append]
    simp
  refine ⟨tarGetData_laid later, ?_⟩
  obtain ⟨header, -, start, bound, -⟩ := later
  rw [place]
  exact next_laid header start bound

def header (name size : Byte) : List Byte :=
  [name] ++ List.replicate 123 0 ++ List.replicate 10 48 ++ [size] ++ List.replicate 122 0 ++
    [117, 115, 116, 97, 114] ++ List.replicate 250 0

def threeBytes : Member :=
  ⟨header 97 51, [1, 2, 3], List.replicate 509 0, by decide +kernel, by decide +kernel, by decide +kernel,
    by decide +kernel, by decide, by decide +kernel, by decide +kernel⟩

def empty : Member :=
  ⟨header 98 48, [], [], by decide +kernel, by decide +kernel, by decide +kernel, by decide +kernel, by decide,
    by decide, by decide⟩

def twoBytes : Member :=
  ⟨header 98 50, [4, 5], List.replicate 510 0, by decide +kernel, by decide +kernel, by decide +kernel,
    by decide +kernel, by decide, by decide +kernel, by decide +kernel⟩

def memory (members : List Member) : Int → Byte := Lib.store (fun _ => 0) 0 (archive members)

theorem tar_reads_three :
    tarListFiles (memory [threeBytes, twoBytes]) 5 = [97 :: List.replicate 99 0, 98 :: List.replicate 99 0] ∧
      tarGetFile (memory [threeBytes, twoBytes]) 3 (cstring [98]) = some (some 1024) ∧
      tarGetFile (memory [threeBytes, twoBytes]) 3 (cstring [99]) = some none ∧
      tarGetData (memory [threeBytes, twoBytes]) 0 2 = [1, 2] ∧
      tarGetData (memory [threeBytes, twoBytes]) 1024 512 = [4, 5] := by
  have fits : (archive [threeBytes, twoBytes]).length < 2 ^ 31 := by decide +kernel
  obtain ⟨list, get, data⟩ := tar_reads fits Lib.load_store_same
  obtain ⟨first, -⟩ := data 0 threeBytes rfl
  obtain ⟨second, -⟩ := data 1 twoBytes rfl
  have offset : offset [threeBytes, twoBytes] 1 = 1024 := by decide +kernel
  rw [offset] at second
  refine ⟨(list (by decide +kernel) 5 (by decide)).trans (by decide +kernel), ?_, ?_, ?_, ?_⟩
  · exact (get [98] (by decide) (by decide +kernel) 3 (by decide)).trans (by decide +kernel)
  · exact (get [99] (by decide) (by decide +kernel) 3 (by decide)).trans (by decide +kernel)
  · exact (first 2).trans (by decide +kernel)
  · exact (second 512).trans (by decide +kernel)

theorem emptyFile_skips :
    ¬ ∀ members mem, (archive members).length < 2 ^ 31 →
      Lib.load mem 0 (archive members).length = archive members →
        ∀ nentries, members.length ≤ nentries → tarListFiles mem nentries = members.map Member.entry := by
  intro claim
  have list := claim [empty, threeBytes] (memory [empty, threeBytes]) (by decide +kernel) Lib.load_store_same 2
    (by decide)
  revert list
  decide +kernel

end Xinu.Tar
