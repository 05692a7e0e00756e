import Xinu.Proof.Memory.Requests

namespace Xinu.Heap
open Lib

variable {h h' : Heap} {hi n start size : Nat} {free : List (Nat × Nat)}

structure Grants (h' : Heap) (free : List (Nat × Nat)) (start size : Nat) : Prop where
  before : ∃ c ∈ free, c.1 ≤ start ∧ start + size ≤ c.1 + c.2
  after : ∃ free', FreeList h' h'.maxaddr free' ∧ ∀ c ∈ free', Disjoint (Set.Ico start (start + size)) (Set.Ico c.1 (c.1 + c.2))

/-- `memget` changes nothing, or it grants `n` bytes from the address that it returns on. -/
def MemgetSound (h : Heap) (free : List (Nat × Nat)) (n : Nat) : Prop :=
  ∃ h' p, h.memget n = some (h', p) ∧
    match p with
    | none => h' = h
    | some p => ∃ size ≥ n, Grants h' free p size

def StkgetSound (h : Heap) (free : List (Nat × Nat)) (n : Nat) : Prop :=
  ∃ h' p, h.stkget n = some (h', p) ∧
    match p with
    | none => h' = h
    | some p => ∃ start, ∃ size ≥ n, start + size = p + 4 ∧ Grants h' free start size

theorem Took.grants {a k : Nat} {free' : List (Nat × Nat)} (took : Took h h' h.maxaddr a k free free') : Grants h' free a k where
  before := took.inside
  after := by
    refine ⟨free', by rw [took.maxaddr]; exact took.list, fun c member => Set.disjoint_left.mpr fun x inside own => ?_⟩
    have free : x ∈ covered free' := ⟨c, member, own⟩
    rw [took.bytes] at free
    exact free.2 inside

theorem Grants.size_le (list : FreeList h h.maxaddr free) (aligned : Aligned free) (grants : Grants h' free start size) :
    size ≤ 0xFFFFFFF0 := by
  obtain ⟨c, member, low, high⟩ := grants.before
  obtain ⟨⟨q, first⟩, r, length⟩ := aligned c member
  have bounds := list.whole.ordered.bounds c member
  have positive := list.whole.positive
  have top := list.whole.top
  rw [WORD] at top
  omega

theorem roundmb_large (large : 0xFFFFFFF8 < n) (word : n < WORD) : roundmb n = 0 := by
  rw [WORD] at word
  rw [roundmb, WORD]
  omega

theorem memget_empty (list : FreeList h hi []) (n : Nat) : h.memget n = some (h, none) := by
  by_cases zero : n = 0
  · rw [memget, if_pos zero]
  · rw [memget, if_neg zero, list.whole.head]
    exact memgetLoop_none (show Listed h ([] ++ []) from list.whole.listed) (List.forall_mem_nil _)
      (List.forall_mem_nil _) list.whole.enough

theorem stkget_empty (list : FreeList h hi []) (n : Nat) : h.stkget n = some (h, none) := by
  by_cases zero : n = 0
  · rw [stkget, if_pos zero]
  · rw [stkget, if_neg zero, list.whole.head]
    simp only [stkgetLoop_eq (show Listed h ([] ++ []) from list.whole.listed) (List.forall_mem_nil _)
      list.whole.enough, lastFit]

theorem memget_wraps {c : Nat × Nat} (list : FreeList h hi (c :: free)) (nonzero : n ≠ 0) (wraps : roundmb n = 0) :
    ∃ h', h.memget n = some (h', some c.1) ∧ h'.memlist.next = c.1 ∧ h'.memheap = h.memheap ∧ h'.maxaddr = h.maxaddr := by
  have length : (h.block c.1).length = c.2 := list.whole.listed.lengths c (.head _)
  have bounds := list.whole.ordered.bounds c (.head _)
  have top := list.whole.top
  have nonnull := list.whole.nonnull c (.head _)
  have same : add32 c.1 0 = c.1 := Nat.mod_eq_of_lt (by omega)
  obtain ⟨fuel, enough⟩ : ∃ fuel, walkFuel = fuel + 1 := ⟨WORD - 1, rfl⟩
  rw [memget, if_neg nonzero, wraps, list.whole.head, enough, List.map_cons, List.headD_cons, memgetLoop, if_neg nonnull,
    if_neg (by omega), if_pos (by omega)]
  exact ⟨_, rfl, same, rfl, rfl⟩

theorem memfree_wraps {a : Nat} (first : h.memlist.next = a) (nonnull : a ≠ NULL) (low : h.memheap ≤ a)
    (high : a ≤ h.maxaddr) (word : a < WORD) (nonzero : n ≠ 0) (wraps : roundmb n = 0) :
    ∃ h', h.memfree a n = some (h', OK) ∧ h'.block a = ⟨a, 0⟩ := by
  have loop : h.memfreeLoop a walkFuel none a = some (none, a) := by
    obtain ⟨fuel, enough⟩ : ∃ fuel, walkFuel = fuel + 1 := ⟨WORD - 1, rfl⟩
    rw [enough, memfreeLoop, if_neg fun below => Nat.lt_irrefl a below.2]
  have same : add32 a 0 = a := Nat.mod_eq_of_lt word
  have apart : ¬ NULL = a := fun eq => nonnull eq.symm
  refine ⟨h.memfreeLink a 0 none a NULL, ?_, ?_⟩
  · rw [memfree, if_neg (by omega), wraps, first]
    simp only [loop]
    rw [if_neg]
    rintro (above | ⟨-, meets⟩)
    · exact Nat.not_lt_zero _ above
    · rw [same] at meets
      exact Nat.lt_irrefl a meets
  · simp [memfreeLink, apart, setLength, setNext, Heap.set, get, add32]

theorem stkget_wraps {c : Nat × Nat} (list : FreeList h hi (c :: free)) (nonzero : n ≠ 0) (wraps : roundmb n = 0) :
    ∃ h' p, h.stkget n = some (h', some p) := by
  have loop : h.stkgetLoop 0 walkFuel none (((c :: free).map Prod.fst).headD NULL) none =
      some (lastFit 0 none (c :: free) none) :=
    stkgetLoop_eq (show Listed h ([] ++ c :: free) from list.whole.listed) list.whole.nonnull list.whole.enough
  rw [stkget, if_neg nonzero, wraps, list.whole.head]
  simp only [loop]
  rcases lastFit_cases 0 none (c :: free) none with ⟨small, -⟩ | ⟨-, a, -, -, -, prev, -, -, found, -⟩
  · exact absurd (small c (.head _)) (Nat.not_lt_zero _)
  · rw [found]
    simp only
    split <;> exact ⟨_, _, rfl⟩

theorem memget_sound_iff (list : FreeList h h.maxaddr free) (aligned : Aligned free) (nonzero : 0 < n) (word : n < WORD) :
    MemgetSound h free n ↔ n ≤ 0xFFFFFFF8 ∨ free = [] := by
  have nonzero' := Nat.ne_of_gt nonzero
  constructor
  · rintro ⟨h', p, got, sound⟩
    by_contra large
    rw [not_or, not_le] at large
    obtain ⟨c, rest, rfl⟩ := List.exists_cons_of_ne_nil large.2
    obtain ⟨h₁, got₁, -⟩ := memget_wraps list nonzero' (roundmb_large large.1 word)
    rw [got₁] at got
    cases got
    obtain ⟨size, more, grants⟩ := sound
    have := grants.size_le list aligned
    omega
  · rintro (small | rfl)
    · rcases memget_took list nonzero' small with ⟨-, none⟩ | ⟨a, h', free', got, took⟩
      · exact ⟨h, .none, none, rfl⟩
      · exact ⟨h', some a, got, roundmb n, (roundmb_spec small).1, took.grants⟩
    · exact ⟨h, none, memget_empty list n, rfl⟩

theorem stkget_sound_iff (list : FreeList h h.maxaddr free) (aligned : Aligned free) (nonzero : 0 < n) (word : n < WORD) :
    StkgetSound h free n ↔ n ≤ 0xFFFFFFF8 ∨ free = [] := by
  have nonzero' := Nat.ne_of_gt nonzero
  constructor
  · rintro ⟨h', p, got, sound⟩
    by_contra large
    rw [not_or, not_le] at large
    obtain ⟨c, rest, rfl⟩ := List.exists_cons_of_ne_nil large.2
    obtain ⟨h₁, p₁, got₁⟩ := stkget_wraps list nonzero' (roundmb_large large.1 word)
    rw [got₁] at got
    cases got
    obtain ⟨start, size, more, -, grants⟩ := sound
    have := grants.size_le list aligned
    omega
  · rintro (small | rfl)
    · rcases stkget_took list nonzero' small with ⟨-, none⟩ | ⟨a, h', free', got, took⟩
      · exact ⟨h, .none, none, rfl⟩
      · have spec := roundmb_spec small
        obtain ⟨q, unit⟩ := roundmb_dvd n
        exact ⟨h', some _, got, a, roundmb n, spec.1, by omega, took.grants⟩
    · exact ⟨h, none, stkget_empty list n, rfl⟩

end Xinu.Heap
