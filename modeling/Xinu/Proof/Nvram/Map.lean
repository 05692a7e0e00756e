import Xinu.Lib.Keyed
import Xinu.Lib.Runs
import Xinu.System.Nvram
import Xinu.Proof.CString
import Mathlib.Data.List.TakeWhile

namespace Xinu.Nvram
open Lib (Byte)

def nameOf (pair : List Byte) : List Byte := pair.takeWhile (· ≠ 61)

def valueOf (pair : List Byte) : List Byte := pair.drop ((nameOf pair).length + 1)

structure Named (name : List Byte) : Prop where
  some : name ≠ []
  plain : 61 ∉ name
  string : 0 ∉ name
  short : name.length < NVRAM_STRMAX

instance (name : List Byte) : Decidable (Named name) :=
  decidable_of_iff (name ≠ [] ∧ 61 ∉ name ∧ 0 ∉ name ∧ name.length < NVRAM_STRMAX)
    ⟨fun ⟨a, b, c, d⟩ => ⟨a, b, c, d⟩, fun ⟨a, b, c, d⟩ => ⟨a, b, c, d⟩⟩

def Valued (value : List Byte) : Prop := 0 ∉ value ∧ value.length < NVRAM_STRMAX

instance (value : List Byte) : Decidable (Valued value) := inferInstanceAs (Decidable (_ ∧ _))

def tupleName (t : Tuple) : List Byte := nameOf t.pair

/-- The first tuple that starts with the name is the one of that name. -/
def Clear (s : Nvram) (name : List Byte) : Prop :=
  ∀ t ∈ (s.tuples (nvramHash name)).find? (found name), tupleName t = name

instance (s : Nvram) (name : List Byte) : Decidable (Clear s name) :=
  inferInstanceAs (Decidable (∀ t ∈ (s.tuples (nvramHash name)).find? (found name), tupleName t = name))

structure Pair (pair : List Byte) : Prop where
  named : Named (nameOf pair)
  split : pair = nameOf pair ++ 61 :: valueOf pair
  string : 0 ∉ pair

structure Sound (s : Nvram) (vars : List Byte → Option (List Byte)) : Prop where
  pairs : ∀ i, ∀ t ∈ s.tuples i, Pair t.pair ∧ nvramHash t.pair = i
  keyed : ∀ i, Lib.Keyed tupleName (s.tuples i)
  vars : ∀ name, vars name = (Lib.lookup tupleName (s.tuples (nvramHash name)) name).map fun t => valueOf t.pair

variable {s : Nvram} {vars : List Byte → Option (List Byte)} {name value : List Byte} {t : Tuple}

theorem nameOf_pair (plain : 61 ∉ name) : nameOf (name ++ 61 :: value) = name := by
  rw [nameOf, List.takeWhile_append_of_pos]
  · simp
  · intro ch inside
    simpa using fun same : ch = 61 => plain (same ▸ inside)

theorem nvramHash_nameOf (pair : List Byte) : nvramHash (nameOf pair) = nvramHash pair := by
  rw [nvramHash, nvramHash, nameOf, List.takeWhile_idem]

theorem pair_of (named : Named name) (valued : Valued value) : Pair (name ++ 61 :: value) := by
  have first := @nameOf_pair _ value named.plain
  refine ⟨first.symm ▸ named, ?_, ?_⟩
  · rw [valueOf, first]
    simp
  · rw [List.mem_append, List.mem_cons]
    rintro (inside | sign | inside)
    · exact named.string inside
    · cases sign
    · exact valued.1 inside

theorem strnlen_named (named : Named name) : strnlen name NVRAM_STRMAX = name.length :=
  Nat.min_eq_left (Nat.le_of_lt named.short)

theorem found_named (pair : Pair t.pair) (same : tupleName t = name) : found name t = true := by
  have start : t.pair = name ++ 61 :: valueOf t.pair := same ▸ pair.split
  have string : 0 ∉ name := by
    intro inside
    apply pair.string
    rw [start]
    exact List.mem_append_left _ inside
  rw [found, decide_eq_true_eq, strncmp_zero, text_cstring string, text_cstring pair.string, start]
  exact (List.take_append_of_le_length (Nat.min_le_left ..)).symm

theorem found_swap (name : List Byte) (t : Tuple) : found' name t = found name t := by
  rw [found', found, decide_eq_decide, strncmp_zero, strncmp_zero]
  exact eq_comm

theorem search (sound : Sound s vars) (clear : Clear s name) :
    (s.tuples (nvramHash name)).find? (found name) = Lib.lookup tupleName (s.tuples (nvramHash name)) name ∧
      (s.tuples (nvramHash name)).eraseP (found name) = Lib.drop tupleName (s.tuples (nvramHash name)) name := by
  refine Lib.find_weaker ?_ ?_
  · intro t inside same
    exact found_named (sound.pairs _ t inside).1 (by simpa using same)
  · intro t first
    simpa using clear t first

theorem nvramGet_vars (sound : Sound s vars) (named : Named name) (clear : Clear s name) :
    s.nvramGet name = vars name := by
  rw [nvramGet, (search sound clear).1, sound.vars, strnlen_named named]
  cases first : Lib.lookup tupleName (s.tuples (nvramHash name)) name with
  | none => rfl
  | some t =>
      have same : tupleName t = name := Lib.lookup_key first
      have same : nameOf t.pair = name := same
      rw [Option.map_some, Option.map_some, valueOf, same]

theorem insert_sound (sound : Sound s vars) {t : Tuple} (pair : Pair t.pair)
    (fresh : vars (tupleName t) = none) :
    Sound (s.nvramInsert t) (Function.update vars (tupleName t) (some (valueOf t.pair))) := by
  have hash : nvramHash (tupleName t) = nvramHash t.pair := nvramHash_nameOf t.pair
  have free : Lib.lookup tupleName (s.tuples (nvramHash t.pair)) (tupleName t) = none := by
    have absent := sound.vars (tupleName t)
    rw [fresh, hash] at absent
    exact Option.map_eq_none_iff.mp absent.symm
  have tuples : ∀ i, (s.nvramInsert t).tuples i =
      if i = nvramHash t.pair then s.tuples (nvramHash t.pair) ++ [t] else s.tuples i := by
    intro i
    rw [nvramInsert]
    by_cases same : i = nvramHash t.pair
    · rw [if_pos same, same]
      exact Function.update_self ..
    · rw [if_neg same]
      exact Function.update_of_ne same ..
  refine ⟨?_, ?_, ?_⟩
  · intro i u inside
    rw [tuples] at inside
    split at inside
    · rename_i same
      rcases List.mem_append.mp inside with before | last
      · rw [same]
        exact sound.pairs _ u before
      · rw [List.mem_singleton.mp last, same]
        exact ⟨pair, rfl⟩
    · exact sound.pairs i u inside
  · intro i
    rw [tuples]
    split
    · exact (sound.keyed _).append free
    · exact sound.keyed i
  · intro name
    rw [tuples]
    by_cases same : name = tupleName t
    · subst same
      rw [Function.update_self, if_pos hash, Lib.lookup_append, free, Lib.lookup_single, if_pos rfl]
      rfl
    · rw [Function.update_of_ne same, sound.vars]
      split
      · rename_i bucket
        rw [Lib.lookup_append, Lib.lookup_single, if_neg (Ne.symm same), Option.or_none, bucket]
      · rfl

theorem unset_sound (sound : Sound s vars) (clear : Clear s name) :
    Sound (s.nvramUnset name).1 (Function.update vars name none) := by
  obtain ⟨first, rest⟩ := search sound clear
  have swap : found' name = found name := funext (found_swap name)
  rw [nvramUnset, swap, first]
  cases here : Lib.lookup tupleName (s.tuples (nvramHash name)) name with
  | none =>
      have absent : vars name = none := by rw [sound.vars, here, Option.map_none]
      have same : Function.update vars name none = vars := by
        rw [← absent, Function.update_eq_self]
      rw [same]
      exact sound
  | some t =>
      simp only [rest]
      have tuples : ∀ i, Function.update s.tuples (nvramHash name)
          (Lib.drop tupleName (s.tuples (nvramHash name)) name) i =
            if i = nvramHash name then Lib.drop tupleName (s.tuples i) name else s.tuples i := by
        intro i
        by_cases same : i = nvramHash name
        · rw [if_pos same, same]
          exact Function.update_self ..
        · rw [if_neg same]
          exact Function.update_of_ne same ..
      refine ⟨?_, ?_, ?_⟩
      · intro i u inside
        refine sound.pairs i u ?_
        have inside := (tuples i).subst (motive := fun l => u ∈ l) inside
        split at inside
        · exact List.mem_of_mem_eraseP inside
        · exact inside
      · intro i
        simp only [tuples]
        split
        · exact (sound.keyed i).drop name
        · exact sound.keyed i
      · intro other
        simp only [tuples]
        by_cases same : other = name
        · subst same
          rw [Function.update_self, if_pos rfl, Lib.lookup_drop_self (sound.keyed _)]
          rfl
        · rw [Function.update_of_ne same, sound.vars]
          split
          · rw [Lib.lookup_drop_other same]
          · rfl

def strings : Nat → List Byte → List (List Byte)
  | 0, _ => []
  | fuel + 1, rest =>
      if rest = [] then []
      else
        let pair := rest.takeWhile (· ≠ 0)
        let rest := rest.drop (pair.length + 1)
        if pair.length ≤ 0 then strings fuel rest else pair :: strings fuel rest

def imageStrings (image : List Byte) : List (List Byte) :=
  let nvram_length := (Lib.wordAt image 4).toNat
  strings nvram_length ((image.take nvram_length).drop SIZEOF_HEADER)

def valuesOf (pairs : List (List Byte)) : List Byte → Option (List Byte) :=
  pairs.foldl (fun vars pair => Function.update vars (nameOf pair) (some (valueOf pair))) fun _ => none

def Formed (image : List Byte) : Prop :=
  (∀ pair ∈ imageStrings image, Pair pair) ∧ ((imageStrings image).map nameOf).Nodup

theorem initLoop_strings (fuel : Nat) (rest : List Byte) (s : Nvram) :
    initLoop fuel rest s =
      (strings fuel rest).foldl (fun s pair => s.nvramInsert ⟨pair, SIZEOF_TUPLE + pair.length⟩) s := by
  induction fuel generalizing rest s with
  | zero => rfl
  | succ fuel ih =>
      rw [initLoop, strings]
      split
      · rfl
      · simp only
        split
        · exact ih ..
        · rw [ih, List.foldl_cons]

def blank (image : List Byte) : Nvram :=
  { header := { length := SIZEOF_HEADER, crc_ver_init := Lib.wordAt image 8
                config_refresh := Lib.wordAt image 12, config_ncdl := Lib.wordAt image 16 }
    tuples := fun _ => [], freed := [], images := [] }

theorem nvramInit_strings {image : List Byte} (magic : Lib.wordAt image 0 = NVRAM_MAGIC) :
    nvramInit image = some ((imageStrings image).foldl
      (fun s pair => s.nvramInsert ⟨pair, SIZEOF_TUPLE + pair.length⟩) (blank image)) := by
  rw [nvramInit, if_neg (not_not.mpr magic)]
  exact congrArg some (initLoop_strings ..)

theorem nvramInit_some {image : List Byte} (start : nvramInit image = some s) :
    s = (imageStrings image).foldl
      (fun s pair => s.nvramInsert ⟨pair, SIZEOF_TUPLE + pair.length⟩) (blank image) := by
  by_cases magic : Lib.wordAt image 0 = NVRAM_MAGIC
  · rw [nvramInit_strings magic] at start
    exact (Option.some.inj start).symm
  · rw [nvramInit, if_pos magic] at start
    cases start

theorem inserts_sound {pairs : List (List Byte)} (sound : Sound s vars) (all : ∀ pair ∈ pairs, Pair pair)
    (once : (pairs.map nameOf).Nodup) (fresh : ∀ pair ∈ pairs, vars (nameOf pair) = none) :
    Sound (pairs.foldl (fun s pair => s.nvramInsert ⟨pair, SIZEOF_TUPLE + pair.length⟩) s)
      (pairs.foldl (fun vars pair => Function.update vars (nameOf pair) (some (valueOf pair))) vars) := by
  induction pairs generalizing s vars with
  | nil => exact sound
  | cons pair pairs ih =>
      obtain ⟨this, all⟩ := List.forall_mem_cons.mp all
      obtain ⟨first, fresh⟩ := List.forall_mem_cons.mp fresh
      obtain ⟨apart, once⟩ := List.nodup_cons.mp once
      refine ih (insert_sound (t := ⟨pair, SIZEOF_TUPLE + pair.length⟩) sound this first) all once ?_
      intro later inside
      have other : nameOf later ≠ nameOf pair := fun same => apart (same ▸ List.mem_map_of_mem inside)
      exact (Function.update_of_ne other ..).trans (fresh later inside)

theorem nvramInit_sound {image : List Byte} (formed : Formed image) (start : nvramInit image = some s) :
    Sound s (valuesOf (imageStrings image)) := by
  rw [nvramInit_some start]
  exact inserts_sound ⟨nofun, fun _ => List.nodup_nil, fun _ => rfl⟩ formed.1 formed.2 fun _ _ => rfl

inductive Op
  | set (name value : List Byte)
  | unset (name : List Byte)
  deriving DecidableEq, Repr

structure World where
  nvram : Nvram
  vars : List Byte → Option (List Byte)

def mapStep : Op → World → Option World
  | .set name value, w => some ⟨(w.nvram.nvramSet name value).1, Function.update w.vars name (some value)⟩
  | .unset name, w => some ⟨(w.nvram.nvramUnset name).1, Function.update w.vars name none⟩

/-- Names and values can be set, and the first tuple that starts with the name is the one of it. -/
def Distinct (w : World) : Op → Prop
  | .set name value => Named name ∧ Valued value ∧ Clear w.nvram name
  | .unset name => Named name ∧ Clear w.nvram name

instance (w : World) : (op : Op) → Decidable (Distinct w op)
  | .set name value => inferInstanceAs (Decidable (Named name ∧ Valued value ∧ Clear w.nvram name))
  | .unset name => inferInstanceAs (Decidable (Named name ∧ Clear w.nvram name))

theorem set_pair (named : Named name) (valued : Valued value) :
    strncpy (cstring name) (strnlen name NVRAM_STRMAX) ++ [61] ++
      strncpy (cstring value) (strnlen value NVRAM_STRMAX) = name ++ 61 :: value := by
  have copy : ∀ {s : List Byte}, 0 ∉ s → s.length < NVRAM_STRMAX →
      strncpy (cstring s) (strnlen s NVRAM_STRMAX) = s := by
    intro s string short
    rw [strncpy_text, text_cstring string, strnlen, Nat.min_eq_left (Nat.le_of_lt short), List.take_length,
      Nat.sub_self, List.replicate_zero, List.append_nil]
  rw [copy named.string named.short, copy valued.1 valued.2, List.append_assoc, List.singleton_append]

theorem set_sound (sound : Sound s vars) (named : Named name) (valued : Valued value) (clear : Clear s name) :
    Sound (s.nvramSet name value).1 (Function.update vars name (some value)) := by
  have first := @nameOf_pair _ value named.plain
  have last : valueOf (name ++ 61 :: value) = value := by
    rw [valueOf, first]
    simp
  have unset : Sound (if s.nvramGet name ≠ none then (s.nvramUnset name).1 else s) (Function.update vars name none) := by
    split
    · exact unset_sound sound clear
    · rename_i absent
      rw [nvramGet_vars sound named clear, not_not] at absent
      have same : Function.update vars name none = vars := by rw [← absent, Function.update_eq_self]
      rw [same]
      exact sound
  rw [nvramSet, set_pair named valued]
  generalize SIZEOF_TUPLE + strnlen name NVRAM_STRMAX + 1 + strnlen value NVRAM_STRMAX = size
  have inserted := insert_sound (t := ⟨name ++ 61 :: value, size⟩) unset (pair_of named valued) (by
    rw [tupleName, first, Function.update_self])
  rw [tupleName, first, last, Function.update_idem] at inserted
  exact inserted

theorem mapStep_sound {w w' : World} {op : Op} (sound : Sound w.nvram w.vars) (distinct : Distinct w op)
    (action : mapStep op w = some w') : Sound w'.nvram w'.vars := by
  cases op with
  | set name value =>
      cases action
      exact set_sound sound distinct.1 distinct.2.1 distinct.2.2
  | unset name =>
      cases action
      exact unset_sound sound distinct.2

/-- Over any run, a name has the value that it has been set to last. -/
theorem nvramGet_map {image : List Byte} {s : Nvram} (formed : Formed image) (start : nvramInit image = some s)
    {w : World} (reach : Lib.Reach mapStep Distinct ⟨s, valuesOf (imageStrings image)⟩ w) {name : List Byte}
    (named : Named name) (clear : Clear w.nvram name) : w.nvram.nvramGet name = w.vars name := by
  have sound : Sound w.nvram w.vars :=
    reach.invariant (P := fun w => Sound w.nvram w.vars) (nvramInit_sound formed start)
      fun _ _ _ sound distinct action => mapStep_sound sound distinct action
  exact nvramGet_vars sound named clear

def oneImage : List Byte := (Header.mk 24 0 0 0).bytes ++ [97, 61, 49, 0]

theorem nvramGet_map_two :
    ∃ s w, nvramInit oneImage = some s ∧
      Lib.Reach mapStep Distinct ⟨s, valuesOf (imageStrings oneImage)⟩ w ∧
      w.nvram.nvramGet [97] = w.vars [97] ∧ w.nvram.nvramGet [97] = some [49] := by
  have formed : Formed oneImage := by
    constructor
    · intro pair inside
      have same : imageStrings oneImage = [[97] ++ 61 :: [49]] := by decide +kernel
      rw [same] at inside
      rw [List.mem_singleton.mp inside]
      exact pair_of (by decide) (by decide)
    · decide +kernel
  have runs : (nvramInit oneImage).bind (fun s =>
      (Lib.run mapStep (fun w op => decide (Distinct w op)) [.set [97, 116] [120]]
        ⟨s, valuesOf (imageStrings oneImage)⟩).map fun w => (w.nvram.nvramGet [97], decide (Clear w.nvram [97]))) =
      some (some [49], true) := by
    decide +kernel
  obtain ⟨s, start, runs⟩ := Option.bind_eq_some_iff.mp runs
  obtain ⟨w, run, same⟩ := Option.map_eq_some_iff.mp runs
  obtain ⟨value, clear⟩ := Prod.mk.inj same
  have reach := @Lib.Reach.run _ _ _ Distinct _ _ _ _ (fun _ _ holds => of_decide_eq_true holds) .init _ run
  exact ⟨s, w, start, reach, nvramGet_map formed start reach (by decide) (of_decide_eq_true clear), value⟩

def Op.Proper : Op → Prop
  | .set name value => Named name ∧ Valued value
  | .unset name => Named name

def noImage : List Byte := (Header.mk 20 0 0 0).bytes

theorem longerName_found :
    ¬ ∀ image s w name, Formed image → nvramInit image = some s →
      Lib.Reach mapStep (fun _ op => op.Proper) ⟨s, valuesOf (imageStrings image)⟩ w → Named name →
        w.nvram.nvramGet name = w.vars name := by
  intro claim
  have formed : Formed noImage := ⟨by
    have none : imageStrings noImage = [] := by decide +kernel
    rw [none]
    nofun, by decide +kernel⟩
  have runs : (nvramInit noImage).bind (fun s =>
      (mapStep (.set [97, 116] [120]) ⟨s, valuesOf (imageStrings noImage)⟩).map fun w =>
        (w.nvram.nvramGet [97], w.vars [97])) = some (some [61, 120], none) := by
    decide +kernel
  obtain ⟨s, start, runs⟩ := Option.bind_eq_some_iff.mp runs
  obtain ⟨w, action, same⟩ := Option.map_eq_some_iff.mp runs
  obtain ⟨got, value⟩ := Prod.mk.inj same
  have proper : Op.Proper (.set [97, 116] [120]) := ⟨by decide, by decide⟩
  have equal := claim noImage s w [97] formed start (.next .init proper action) (by decide)
  rw [got, value] at equal
  cases equal

end Xinu.Nvram
