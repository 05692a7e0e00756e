import Mathlib.Data.List.Induction
import Mathlib.Data.Nat.Init
import Xinu.System.Tar

namespace Xinu.Tar
open Lib (Byte)

/-- The headers that `tarListFiles` looks at, in an archive with room for this many entries in the list. -/
def listed (mem : Int → Byte) : Nat → Int → List Int
  | 0, _ => []
  | n + 1, pos => pos :: if mem pos = 0 then [] else listed mem n (next mem pos)

def sought (mem : Int → Byte) (filename : Nat → Byte) : Nat → Int → List Int
  | 0, _ => []
  | fuel + 1, pos =>
      pos :: if mem pos = 0 ∨ strncmp filename (pointer mem pos) TAR_FILENAME_LEN = 0 then []
        else sought mem filename fuel (next mem pos)

structure Inside (len : Nat) (headers : List Int) : Prop where
  block : ∀ pos ∈ headers, 0 ≤ pos ∧ pos + 512 ≤ len
  forward : headers.Pairwise fun pos pos' => pos + 512 ≤ pos'

/-- Walking the archive comes to an end and looks at headers in it only. -/
structure Walks (mem : Int → Byte) (len : Nat) : Prop where
  list : ∀ nentries, Inside len (listed mem nentries 0)
  get : ∀ filename fuel, Inside len (sought mem filename fuel 0)
  ends : ∀ filename, ∃ fuel file, tarGetFile mem fuel filename = some file

def span (mem : Int → Byte) (pos : Int) : Int := (511 + (SIZEOF + tarFilesize mem (pos + FILESIZE))) / 512 * 512

/-- A zero byte is met at a header in the archive, and before it headers whose size is more than `-SIZEOF`. -/
inductive Sound (mem : Int → Byte) (len : Nat) : Int → Prop
  | last {pos : Int} : 0 ≤ pos → pos + 512 ≤ len → mem pos = 0 → Sound mem len pos
  | entry {pos : Int} : 0 ≤ pos → pos + 512 ≤ len → mem pos ≠ 0 → -(SIZEOF : Int) < tarFilesize mem (pos + FILESIZE) →
      pos + span mem pos < 2 ^ 31 → Sound mem len (pos + span mem pos) → Sound mem len pos

section
variable {mem : Int → Byte} {len : Nat} {pos x : Int} {filename : Nat → Byte}

theorem listLoop_listed (n : Nat) (pos : Int) :
    listLoop mem n pos = ((listed mem n pos).filter fun pos => mem pos ≠ 0).map
      fun pos => strncpy (pointer mem pos) TAR_FILENAME_LEN := by
  induction n generalizing pos with
  | zero => rfl
  | succ n ih =>
      rw [listLoop, listed]
      by_cases last : mem pos = 0
      · rw [if_pos last, if_pos last, List.filter_cons_of_neg (by simpa using last)]
        rfl
      · rw [if_neg last, if_neg last, List.filter_cons_of_pos (by simpa using last), List.map_cons, ih]

def outcome (mem : Int → Byte) (filename : Nat → Byte) (pos : Int) : Option (Option Int) :=
  if mem pos = 0 then some none
  else if strncmp filename (pointer mem pos) TAR_FILENAME_LEN = 0 then some (some pos)
  else none

theorem getLoop_sought (filename : Nat → Byte) (fuel : Nat) (pos : Int) :
    getLoop mem filename fuel pos = (sought mem filename fuel pos).getLast?.bind (outcome mem filename) := by
  induction fuel generalizing pos with
  | zero => rfl
  | succ fuel ih =>
      rw [getLoop, sought]
      by_cases last : mem pos = 0
      · rw [if_pos last, if_pos (.inl last), List.getLast?_singleton, Option.bind_some, outcome, if_pos last]
      · by_cases same : strncmp filename (pointer mem pos) TAR_FILENAME_LEN = 0
        · rw [if_neg last, if_pos same, if_pos (.inr same), List.getLast?_singleton, Option.bind_some, outcome,
            if_neg last, if_pos same]
        · have goesOn : outcome mem filename pos = none := by rw [outcome, if_neg last, if_neg same]
          rw [if_neg last, if_neg same, if_neg (not_or.mpr ⟨last, same⟩), ih, List.getLast?_cons]
          cases (sought mem filename fuel (next mem pos)).getLast? with
          | none => exact goesOn.symm
          | some pos' => rfl

theorem int_range (x : Int) : -2 ^ 31 ≤ int x ∧ int x < 2 ^ 31 := by
  rw [int, Int.bmod_def]
  omega

theorem tarFilesize_range (mem : Int → Byte) (octalsize : Int) :
    -2 ^ 31 ≤ tarFilesize mem octalsize ∧ tarFilesize mem octalsize < 2 ^ 31 := by
  unfold tarFilesize
  generalize Lib.load mem octalsize (TAR_FILESIZE_LEN - 1) = field
  induction field using List.reverseRecOn with
  | nil => decide
  | append_singleton field ch ih =>
      rw [List.foldl_append]
      exact int_range _

theorem sizeof_eq : (SIZEOF : Int) = 513 := rfl

theorem next_span (low : 0 ≤ pos) (size : -(SIZEOF : Int) < tarFilesize mem (pos + FILESIZE))
    (small : pos + span mem pos < 2 ^ 31) : next mem pos = pos + span mem pos ∧ pos + 512 ≤ pos + span mem pos := by
  obtain ⟨-, high⟩ := tarFilesize_range mem (pos + FILESIZE)
  unfold next
  unfold span at small ⊢
  rw [sizeof_eq] at size small ⊢
  generalize tarFilesize mem (pos + FILESIZE) = z at size small high ⊢
  rw [int, roundtar, Int.bmod_def]
  omega

theorem span_of_forward (low : 0 ≤ pos) (bound : pos < 2 ^ 31) (forward : pos + 512 ≤ next mem pos) :
    -(SIZEOF : Int) < tarFilesize mem (pos + FILESIZE) ∧ next mem pos = pos + span mem pos ∧
      pos + span mem pos < 2 ^ 31 := by
  obtain ⟨below, high⟩ := tarFilesize_range mem (pos + FILESIZE)
  unfold next at forward ⊢
  unfold span
  rw [sizeof_eq] at forward ⊢
  generalize tarFilesize mem (pos + FILESIZE) = z at forward below high ⊢
  rw [int, roundtar, Int.bmod_def] at forward ⊢
  omega

theorem Inside.nil (len : Nat) : Inside len [] := ⟨nofun, .nil⟩

theorem Inside.cons {headers : List Int} (rest : Inside len headers) (low : 0 ≤ pos) (high : pos + 512 ≤ len)
    (behind : ∀ pos' ∈ headers, pos + 512 ≤ pos') : Inside len (pos :: headers) :=
  ⟨List.forall_mem_cons.mpr ⟨⟨low, high⟩, rest.block⟩, .cons behind rest.forward⟩

theorem Inside.of_sublist {headers headers' : List Int} (whole : Inside len headers) (part : headers'.Sublist headers) :
    Inside len headers' :=
  ⟨fun pos member => whole.block pos (part.subset member), whole.forward.sublist part⟩

theorem sought_sublist (filename : Nat → Byte) (fuel : Nat) (pos : Int) :
    (sought mem filename fuel pos).Sublist (listed mem fuel pos) := by
  induction fuel generalizing pos with
  | zero => exact .slnil
  | succ fuel ih =>
      rw [sought, listed]
      apply List.Sublist.cons_cons
      by_cases last : mem pos = 0
      · rw [if_pos (.inl last)]
        exact List.nil_sublist _
      · rw [if_neg last]
        split
        · exact List.nil_sublist _
        · exact ih _

theorem Sound.range (sound : Sound mem len pos) : 0 ≤ pos ∧ pos + 512 ≤ len := by
  cases sound with
  | last low high => exact ⟨low, high⟩
  | entry low high => exact ⟨low, high⟩

theorem Sound.listed (sound : Sound mem len pos) (n : Nat) :
    Inside len (listed mem n pos) ∧ ∀ pos' ∈ listed mem n pos, pos ≤ pos' := by
  induction sound generalizing n with
  | @last pos low high ends =>
      cases n with
      | zero => exact ⟨.nil len, nofun⟩
      | succ n =>
          rw [Tar.listed, if_pos ends]
          exact ⟨(Inside.nil len).cons low high nofun, by simp⟩
  | @entry pos low high named size small rest ih =>
      cases n with
      | zero => exact ⟨.nil len, nofun⟩
      | succ n =>
          obtain ⟨step, forward⟩ := next_span low size small
          obtain ⟨inside, least⟩ := ih n
          rw [Tar.listed, if_neg named, step]
          refine ⟨inside.cons low high fun pos' member => Int.le_trans forward (least pos' member), ?_⟩
          intro pos' member
          rcases List.mem_cons.mp member with rfl | later
          · exact Int.le_refl _
          · have := least pos' later
            omega

theorem Sound.ends (sound : Sound mem len pos) (filename : Nat → Byte) :
    ∃ fuel file, getLoop mem filename fuel pos = some file := by
  induction sound with
  | last low high ends => exact ⟨1, none, by rw [getLoop, if_pos ends]⟩
  | @entry pos low high named size small rest ih =>
      obtain ⟨fuel, file, found⟩ := ih
      by_cases same : strncmp filename (pointer mem pos) TAR_FILENAME_LEN = 0
      · exact ⟨1, some pos, by rw [getLoop, if_neg named, if_pos same]⟩
      · exact ⟨fuel + 1, file, by rw [getLoop, if_neg named, if_neg same, (next_span low size small).1, found]⟩

theorem Sound.walks (sound : Sound mem len 0) : Walks mem len where
  list n := (sound.listed n).1
  get filename fuel := (sound.listed fuel).1.of_sublist (sought_sublist filename fuel 0)
  ends := sound.ends

theorem sound_of_listed (bound : pos < 2 ^ 31) (headers : ∀ n, Inside len (listed mem n pos)) : Sound mem len pos := by
  induction room : (len - pos).toNat using Nat.strong_induction_on generalizing pos with
  | _ room ih =>
      obtain ⟨low, high⟩ := (headers 1).block pos List.mem_cons_self
      by_cases ends : mem pos = 0
      · exact .last low high ends
      · have looked (n : Nat) : listed mem (n + 1) pos = pos :: listed mem n (next mem pos) := by
          rw [listed, if_neg ends]
        have second := headers 2
        rw [looked] at second
        have forward := List.rel_of_pairwise_cons second.forward List.mem_cons_self
        obtain ⟨size, step, small⟩ := span_of_forward low bound forward
        have rest : ∀ n, Inside len (listed mem n (next mem pos)) := fun n => by
          have whole := headers (n + 1)
          rw [looked] at whole
          exact whole.of_sublist (List.sublist_cons_self _ _)
        rw [step] at rest forward
        exact .entry low high ends size small (ih _ (by omega) small rest rfl)

/-- The archive is walked in it and to an end exactly when no header has a size that leads out of it or nowhere. The
headers that are looked at are those that the names and the result come from. -/
theorem tar_walks (mem : Int → Byte) (len : Nat) :
    (Walks mem len ↔ Sound mem len 0) ∧
      (∀ nentries, tarListFiles mem nentries = ((listed mem nentries 0).filter fun pos => mem pos ≠ 0).map
        fun pos => strncpy (pointer mem pos) TAR_FILENAME_LEN) ∧
      ∀ filename fuel, tarGetFile mem fuel filename =
        (sought mem filename fuel 0).getLast?.bind (outcome mem filename) :=
  ⟨⟨fun walks => sound_of_listed (by decide) walks.list, Sound.walks⟩, fun nentries => listLoop_listed nentries 0,
    fun filename fuel => getLoop_sought filename fuel 0⟩

def stuck (a : Int) : Byte :=
  if a = 0 then 97 else if 124 ≤ a ∧ a < 135 then if a = 132 then 33 else if a = 133 then 43 else 48 else 0

theorem stuck_stays : ¬ Walks stuck 1024 := by
  intro walks
  have headers : listed stuck 2 0 = [0, 0] := by decide +kernel
  have forward := (walks.list 2).forward
  rw [headers] at forward
  exact absurd (List.rel_of_pairwise_cons forward List.mem_cons_self) (by decide)

end

end Xinu.Tar
