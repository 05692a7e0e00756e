import Xinu.Proof.Memory.Covered
import Xinu.System.Machine

namespace Xinu.Heap
open Lib

variable {h h' h'' : Heap} {lo hi k n a b p : Nat} {free free' : List (Nat × Nat)}

def Intersects (b k : Nat) (free : List (Nat × Nat)) : Prop :=
  ∃ c ∈ free, (Set.Ico b (b + k) ∩ Set.Ico c.1 (c.1 + c.2)).Nonempty

theorem intersects_iff : Intersects b k free ↔ ¬ Disjoint (Set.Ico b (b + k)) (covered free) := by
  rw [Set.not_disjoint_iff]
  constructor
  · rintro ⟨c, member, x, inside, own⟩
    exact ⟨x, inside, c, member, own⟩
  · rintro ⟨x, inside, c, member, own⟩
    exact ⟨c, member, x, inside, own⟩

/-- `memfree` refuses a block if and only if it meets a free one. -/
theorem memfree_detects (list : FreeList h (WORD - 1) free) (nonzero : 0 < n) (small : n ≤ 0xFFFFFFF8)
    (above : h.memheap ≤ b) (below : b ≤ h.maxaddr) (fits : b + roundmb n ≤ WORD - 1) :
    (Intersects b (roundmb n) free → h.memfree b n = some (h, SYSERR)) ∧
      (¬ Intersects b (roundmb n) free → ∃ h' free', h.memfree b n = some (h', OK) ∧ FreeList h' (WORD - 1) free' ∧
        covered free' = covered free ∪ Set.Ico b (b + roundmb n) ∧
        h'.memlist.length = add32 h.memlist.length (roundmb n) ∧
        (h.memlist.length = total free → h'.memlist.length = h.memlist.length + roundmb n)) := by
  rw [intersects_iff]
  rcases memfree_gave list (Nat.ne_of_gt nonzero) small above below fits with
    ⟨meets, failed⟩ | ⟨apart, h', free', freed, gave⟩
  · exact ⟨fun _ => failed, fun apart => absurd meets apart⟩
  · refine ⟨fun meets => absurd apart meets, fun _ => ⟨h', free', freed, gave.list, gave.bytes, gave.length, fun old => ?_⟩⟩
    have room := gave.list.total_le
    have top := list.whole.top
    rw [gave.length, old, add32, Nat.mod_eq_of_lt]
    rw [gave.total] at room
    omega

theorem rpi_list : FreeList (heapInit rpi) (heapInit rpi).maxaddr [(0x100000, 0xBEFFFF8)] :=
  (heapInit_list rpi (by decide)).1

theorem memfree_detects_all : (heapInit rpi).memfree 0x100000 0xBEFFFF8 = some (heapInit rpi, SYSERR) := by
  have list : FreeList (heapInit rpi) (WORD - 1) [(0x100000, 0xBEFFFF8)] := rpi_list.mono (by decide) (by decide)
  refine (memfree_detects list (by decide) (by decide) (by decide) (by decide) (by decide)).1 ?_
  exact ⟨(0x100000, 0xBEFFFF8), .head _, 0x100000, ⟨by decide, by decide⟩, by decide, by decide⟩

inductive Kind
  | heap | stack
  deriving DecidableEq, Repr

def Kind.get (kind : Kind) (h : Heap) (n : Nat) : Option (Heap × Option Nat) :=
  match kind with
  | .heap => h.memget n
  | .stack => h.stkget n

def Kind.give (kind : Kind) (h : Heap) (p n : Nat) : Option (Heap × Int) :=
  match kind with
  | .heap => h.memfree p n
  | .stack => h.stkfree p n

/-- Nested pairs of an allocation and its release. -/
inductive Nested
  | done
  | pair (kind : Kind) (n : Nat) (inner rest : Nested)

def Nested.run : Nested → Heap → Option Heap
  | .done, h => some h
  | .pair kind n inner rest, h =>
      match kind.get h n with
      | none => none
      | some (h, none) => (inner.run h).bind rest.run
      | some (h, some p) =>
          (inner.run h).bind fun h => (kind.give h p n).bind fun out => if out.2 = OK then rest.run out.1 else none

def Nested.Sized : Nested → Prop
  | .done => True
  | .pair _ n inner rest => (0 < n ∧ n ≤ 0xFFFFFFF8) ∧ inner.Sized ∧ rest.Sized

structure Restored (h h' : Heap) (free : List (Nat × Nat)) : Prop where
  list : FreeList h' h'.maxaddr free
  length : h'.memlist.length = h.memlist.length
  memheap : h'.memheap = h.memheap
  maxaddr : h'.maxaddr = h.maxaddr

theorem Restored.refl (list : FreeList h h.maxaddr free) : Restored h h free := ⟨list, rfl, rfl, rfl⟩

theorem Restored.trans (fst : Restored h h' free') (snd : Restored h' h'' free) : Restored h h'' free :=
  ⟨snd.list, snd.length.trans fst.length, snd.memheap.trans fst.memheap, snd.maxaddr.trans fst.maxaddr⟩

theorem add32_sub32 {x k : Nat} (word : x < WORD) : add32 (sub32 x k) k = x := by
  rw [WORD] at word
  rw [add32, sub32, WORD]
  omega

theorem roundmb_roundmb (small : n ≤ 0xFFFFFFF8) : roundmb (roundmb n) = roundmb n := by
  have spec := roundmb_spec small
  obtain ⟨q, unit⟩ := roundmb_dvd n
  rw [unit] at spec ⊢
  rw [roundmb, Nat.mod_eq_of_lt (by rw [WORD]; omega)]
  omega

theorem stkfree_eq (small : n ≤ 0xFFFFFFF8) (positive : 0 < n) (top : a + roundmb n < WORD) :
    h.stkfree (a + roundmb n - 4) n = h.memfree a (roundmb n) := by
  have spec := roundmb_spec small
  obtain ⟨q, unit⟩ := roundmb_dvd n
  have place : add32 (sub32 (a + roundmb n - 4) (roundmb n)) 4 = a := by
    rw [unit] at spec top ⊢
    rw [add32, sub32, WORD] at *
    omega
  rw [stkfree, place]

theorem Kind.give_took (kind : Kind) (list : FreeList h h.maxaddr free) (word : h.memlist.length < WORD)
    (nonzero : 0 < n) (small : n ≤ 0xFFFFFFF8) :
    kind.get h n = some (h, none) ∨ ∃ h' p free', kind.get h n = some (h', some p) ∧ Restored h' h' free' ∧
      h'.memlist.length < WORD ∧
      ∀ h'', Restored h' h'' free' → ∃ h₁, kind.give h'' p n = some (h₁, OK) ∧ Restored h h₁ free := by
  have nonzero' := Nat.ne_of_gt nonzero
  have spec := roundmb_spec small
  have top := list.whole.top
  have back {h' h'' : Heap} {a m : Nat} {free' : List (Nat × Nat)} (took : Took h h' h.maxaddr a (roundmb n) free free')
      (same : Restored h' h'' free') (size : m ≠ 0) (size' : m ≤ 0xFFFFFFF8) (rounded : roundmb m = roundmb n) :
      ∃ h₁, h''.memfree a m = some (h₁, OK) ∧ Restored h h₁ free := by
    obtain ⟨c, member, start, fin⟩ := took.inside
    have bounds := list.whole.ordered.bounds c member
    have list'' := same.list
    have maxaddr : h''.maxaddr = h.maxaddr := same.maxaddr.trans took.maxaddr
    have memheap : h''.memheap = h.memheap := same.memheap.trans took.memheap
    rw [maxaddr] at list''
    rcases memfree_gave list'' size size' (b := a) (by omega) (by omega) (by omega) with ⟨meets, -⟩ | ⟨-, h₁, free₁, freed, gave⟩
    · rw [took.bytes, rounded] at meets
      exact absurd Set.disjoint_sdiff_right meets
    · rw [rounded] at gave
      have took' : Took h h'' h.maxaddr a (roundmb n) free free' :=
        ⟨list'', took.inside, took.bytes, took.total, took.aligned, same.length.trans took.length, memheap, maxaddr⟩
      obtain rfl := list.restored took' gave
      have gone : h₁.maxaddr = h.maxaddr := gave.maxaddr.trans maxaddr
      refine ⟨h₁, freed, by rw [gone]; exact gave.list, ?_, gave.memheap.trans memheap, gone⟩
      rw [gave.length, took'.length, add32_sub32 word]
  have next {h' : Heap} {a : Nat} {free' : List (Nat × Nat)} (took : Took h h' h.maxaddr a (roundmb n) free free') :
      Restored h' h' free' ∧ h'.memlist.length < WORD := by
    refine ⟨.refl (by rw [took.maxaddr]; exact took.list), ?_⟩
    rw [took.length]
    exact Nat.mod_lt _ (by decide)
  cases kind with
  | heap =>
      rcases memget_took list nonzero' small with ⟨-, none⟩ | ⟨a, h', free', got, took⟩
      · exact .inl none
      · exact .inr ⟨h', a, free', got, (next took).1, (next took).2, fun h'' same => back took same nonzero' small rfl⟩
  | stack =>
      rcases stkget_took list nonzero' small with ⟨-, none⟩ | ⟨a, h', free', got, took⟩
      · exact .inl none
      · refine .inr ⟨h', _, free', got, (next took).1, (next took).2, fun h'' same => ?_⟩
        obtain ⟨c, member, start, fin⟩ := took.inside
        have bounds := list.whole.ordered.bounds c member
        rw [Kind.give, stkfree_eq small nonzero (by omega)]
        exact back took same (by omega) spec.2.1 (roundmb_roundmb small)

theorem Nested.restores (nested : Nested) (sized : nested.Sized) (list : FreeList h h.maxaddr free)
    (word : h.memlist.length < WORD) : ∃ h', nested.run h = some h' ∧ Restored h h' free := by
  induction nested generalizing h free with
  | done => exact ⟨h, rfl, .refl list⟩
  | pair kind n inner rest ih ih' =>
      obtain ⟨⟨nonzero, small⟩, sized, sized'⟩ := sized
      rcases kind.give_took list word nonzero small with none | ⟨h₁, p, free₁, got, same₁, word₁, back⟩
      · obtain ⟨h₁, ran, same₁⟩ := ih sized list word
        obtain ⟨h₂, ran', same₂⟩ := ih' sized' same₁.list (by rw [same₁.length]; exact word)
        refine ⟨h₂, ?_, same₁.trans same₂⟩
        rw [Nested.run, none]
        simp only [ran, Option.bind_some, ran']
      · obtain ⟨h₂, ran, same₂⟩ := ih sized same₁.list word₁
        obtain ⟨h₃, given, same₃⟩ := back h₂ same₂
        obtain ⟨h₄, ran', same₄⟩ := ih' sized' same₃.list (by rw [same₃.length]; exact word)
        refine ⟨h₄, ?_, same₃.trans same₄⟩
        rw [Nested.run, got]
        simp only [ran, Option.bind_some, given, if_true, ran']

/-- Memory that has been given back leaves the free list as it was. -/
theorem alloc_free_restores (list : FreeList h h.maxaddr free) (word : h.memlist.length < WORD) :
    (∀ (kind : Kind) n h' p, 0 < n → n ≤ 0xFFFFFFF8 → kind.get h n = some (h', some p) →
        ∃ h'', kind.give h' p n = some (h'', OK) ∧ Restored h h'' free) ∧
      ∀ nested : Nested, nested.Sized → ∃ h', nested.run h = some h' ∧ Restored h h' free := by
  refine ⟨fun kind n h' p nonzero small got => ?_, fun nested sized => nested.restores sized list word⟩
  rcases kind.give_took list word nonzero small with none | ⟨h₁, p₁, free₁, got₁, same₁, -, back⟩
  · rw [none] at got
    cases got
  · rw [got₁] at got
    cases got
    exact back h' same₁

def stackInHeap : Nested := .pair .heap 24 (.pair .stack 100 .done .done) .done

theorem stackInHeap_restores :
    ∃ h', stackInHeap.run (heapInit rpi) = some h' ∧ Restored (heapInit rpi) h' [(0x100000, 0xBEFFFF8)] :=
  (alloc_free_restores rpi_list (by decide)).2 stackInHeap ⟨⟨by decide, by decide⟩, ⟨⟨by decide, by decide⟩, trivial, trivial⟩, trivial⟩

end Xinu.Heap
