import Xinu.Lib.Links
import Xinu.System.Memory

namespace Xinu.Heap

structure Ordered (lo hi : Nat) (free : List (Nat × Nat)) : Prop where
  sorted : free.Pairwise fun b c => b.1 + b.2 ≤ c.1
  bounds : ∀ b ∈ free, lo ≤ b.1 ∧ b.1 + b.2 ≤ hi ∧ 0 < b.2

def ptr (v : Nat) : Option (Option Nat) := if v = NULL then none else some (some v)

def links (h : Heap) (p : Option Nat) : Option (Option Nat) := ptr (h.get p).next

def headers (free : List (Nat × Nat)) : List (Option Nat) := free.map fun b => some b.1

structure Listed (h : Heap) (free : List (Nat × Nat)) : Prop where
  line : Lib.Line h.links (none :: headers free)
  lengths : ∀ b ∈ free, (h.get (some b.1)).length = b.2

variable {h h' : Heap} {lo hi k n a b v : Nat} {p q : Option Nat} {free pre post new : List (Nat × Nat)}

@[simp] theorem get_set_self (h : Heap) (p : Option Nat) (m : Memblock) : (h.set p m).get p = m := by
  cases p <;> simp [set, get]

@[simp] theorem get_set_other (h : Heap) (m : Memblock) (other : q ≠ p) : (h.set p m).get q = h.get q := by
  cases p <;> cases q <;> simp_all [set, get]

@[simp] theorem setLength_next (h : Heap) (p q : Option Nat) (v : Nat) : ((h.setLength p v).get q).next = (h.get q).next := by
  by_cases same : q = p
  · subst same
    simp [setLength]
  · simp [setLength, same]

theorem setLength_length_other (other : q ≠ p) : ((h.setLength p v).get q).length = (h.get q).length := by
  simp [setLength, other]

@[simp] theorem setNext_length (h : Heap) (p q : Option Nat) (v : Nat) : ((h.setNext p v).get q).length = (h.get q).length := by
  by_cases same : q = p
  · subst same
    simp [setNext]
  · simp [setNext, same]

theorem setNext_next_other (other : q ≠ p) : ((h.setNext p v).get q).next = (h.get q).next := by
  simp [setNext, other]

@[simp] theorem links_setLength (h : Heap) (p q : Option Nat) (v : Nat) : (h.setLength p v).links q = h.links q := by
  rw [links, links, setLength_next]

@[simp] theorem links_setNext (h : Heap) (p : Option Nat) (v : Nat) : (h.setNext p v).links p = ptr v := by
  simp [links, setNext]

theorem links_setNext_other (other : q ≠ p) : (h.setNext p v).links q = h.links q := by
  rw [links, links, setNext_next_other other]

@[simp] theorem links_set (h : Heap) (p : Option Nat) (m : Memblock) : (h.set p m).links p = ptr m.next := by
  simp [links]

theorem links_set_other (m : Memblock) (other : q ≠ p) : (h.set p m).links q = h.links q := by
  rw [links, links, get_set_other h m other]

@[simp] theorem memheap_set (h : Heap) (p : Option Nat) (m : Memblock) : (h.set p m).memheap = h.memheap := by
  cases p <;> rfl

@[simp] theorem maxaddr_set (h : Heap) (p : Option Nat) (m : Memblock) : (h.set p m).maxaddr = h.maxaddr := by
  cases p <;> rfl

theorem get_some (h : Heap) (a : Nat) : h.get (some a) = h.block a := rfl

theorem sub32_le (le : k ≤ n) (bound : n < WORD) : sub32 n k = n - k := by
  rw [sub32, Nat.mod_eq_of_lt (show k < WORD by omega), show n + (WORD - k) = (n - k) + WORD by omega, Nat.add_mod_right,
    Nat.mod_eq_of_lt (by omega)]

theorem Ordered.append (ordered : Ordered lo hi (pre ++ post)) : Ordered lo hi pre ∧ Ordered lo hi post := by
  have split := List.pairwise_append.mp ordered.sorted
  exact ⟨⟨split.1, fun b member => ordered.bounds b (List.mem_append_left _ member)⟩,
    ⟨split.2.1, fun b member => ordered.bounds b (List.mem_append_right _ member)⟩⟩

theorem Ordered.tail {c : Nat × Nat} (ordered : Ordered lo hi (c :: free)) :
    Ordered lo hi free ∧ ∀ d ∈ free, c.1 + c.2 ≤ d.1 :=
  ⟨⟨(List.pairwise_cons.mp ordered.sorted).2, fun b member => ordered.bounds b (.tail _ member)⟩,
    (List.pairwise_cons.mp ordered.sorted).1⟩

theorem Ordered.nodup (ordered : Ordered lo hi free) : (none :: headers free).Nodup := by
  refine List.nodup_cons.mpr ⟨by simp [headers], ?_⟩
  rw [headers, List.Nodup, List.pairwise_map]
  refine ordered.sorted.imp_of_mem fun {b c} member _ before same => ?_
  have := Option.some.inj same
  have := ordered.bounds b member
  omega

theorem Ordered.length (ordered : Ordered lo hi free) (range : lo ≤ hi) : lo + free.length ≤ hi := by
  induction free generalizing lo with
  | nil => simpa using range
  | cons c free ih =>
      have own := ordered.bounds c (.head _)
      have rest : Ordered (lo + 1) hi free := by
        refine ⟨ordered.tail.1.sorted, fun d member => ?_⟩
        have := ordered.tail.2 d member
        have := ordered.tail.1.bounds d member
        omega
      have := ih rest (by omega)
      rw [List.length_cons]
      omega

theorem Listed.next (listed : Listed h (pre ++ (a, n) :: post)) : h.links (some a) = (headers post).head? := by
  have line := listed.line
  rw [headers, List.map_append, List.map_cons, ← List.cons_append] at line
  exact line.next_eq

theorem links_eq (first : h.links p = (headers free).head?) : (h.get p).next = (free.map Prod.fst).headD NULL := by
  cases free with
  | nil =>
      rw [links, ptr] at first
      split at first
      · assumption
      · simp [headers] at first
  | cons c free =>
      rw [links, ptr] at first
      split at first
      · simp [headers] at first
      · simpa [headers] using first

theorem Listed.relink {before : List (Option Nat)} {prev : Option Nat} (listed : Listed h (pre ++ post))
    (ordered : Ordered lo hi (pre ++ post)) (last : none :: headers pre = before ++ [prev])
    (own : h'.links prev = (headers new).head?) (rest : Lib.Line h'.links (headers new))
    (same : ∀ p ∈ before, h'.links p = h.links p) : Lib.Line h'.links (none :: headers (pre ++ new)) := by
  have line := listed.line
  have nodup := ordered.nodup
  simp only [headers, List.map_append, ← List.cons_append] at line nodup last ⊢
  rw [last, List.append_assoc, List.singleton_append] at line nodup ⊢
  exact line.relink nodup own rest same

theorem Listed.next_at {before : List (Option Nat)} {prev : Option Nat} (listed : Listed h (pre ++ post))
    (last : none :: headers pre = before ++ [prev]) : h.links prev = (headers post).head? := by
  have line := listed.line
  simp only [headers, List.map_append, ← List.cons_append] at line last
  rw [last, List.append_assoc, List.singleton_append] at line
  exact line.next_eq

theorem Listed.line_right (listed : Listed h (pre ++ post)) : Lib.Line h.links (headers post) := by
  have line := listed.line
  simp only [headers, List.map_append, ← List.cons_append] at line
  exact line.right

theorem snoc_header {before : List (Option Nat)} {prev : Option Nat} (last : none :: headers pre = before ++ [prev])
    (a n : Nat) : none :: headers (pre ++ [(a, n)]) = (before ++ [prev]) ++ [some a] := by
  rw [← last]
  simp [headers]

theorem Ordered.before_ne {before : List (Option Nat)} {prev : Option Nat} (ordered : Ordered lo hi (pre ++ post))
    (last : none :: headers pre = before ++ [prev]) (member : p ∈ before ++ [prev]) (later : q ∈ headers post) : p ≠ q := by
  have nodup := ordered.nodup
  simp only [headers, List.map_append, ← List.cons_append] at nodup last
  rw [last] at nodup
  exact (List.nodup_append.mp nodup).2.2 p member q later

theorem Ordered.last_ne {before : List (Option Nat)} {prev : Option Nat} (ordered : Ordered lo hi (pre ++ post))
    (last : none :: headers pre = before ++ [prev]) (member : p ∈ before) : p ≠ prev := by
  have nodup := ordered.append.1.nodup
  rw [last] at nodup
  exact (List.nodup_append.mp nodup).2.2 p member prev (by simp)

theorem mem_headers : p ∈ headers free ↔ ∃ b ∈ free, p = some b.1 := by
  simp [headers, eq_comm]

theorem Listed.replace {old : List (Nat × Nat)} {before : List (Option Nat)} {prev : Option Nat}
    (listed : Listed h (pre ++ (old ++ post))) (ordered : Ordered lo hi (pre ++ (old ++ post)))
    (ordered' : Ordered lo hi (pre ++ (new ++ post))) (last : none :: headers pre = before ++ [prev])
    (few : new.length ≤ 1) (own : h'.links prev = (headers (new ++ post)).head?)
    (link : ∀ c ∈ new, h'.links (some c.1) = (headers post).head? ∧ (h'.get (some c.1)).length = c.2)
    (frame : ∀ q, q ≠ prev → q ∉ headers new → h'.links q = h.links q)
    (lengths : ∀ b : Nat, some b ∉ headers new → (h'.get (some b)).length = (h.get (some b)).length) :
    Listed h' (pre ++ (new ++ post)) := by
  have apart {q : Option Nat} (member : q ∈ before ++ [prev]) (inside : q ∈ headers (new ++ post)) : False :=
    ordered'.before_ne last member inside rfl
  have fresh {q : Option Nat} (member : q ∈ headers post) : q ∉ headers new := by
    intro again
    have nodup := ordered'.append.2.nodup
    rw [headers, List.map_append, List.nodup_cons, List.nodup_append] at nodup
    exact nodup.2.2.2 q again q member rfl
  have behind : Lib.Line h'.links (headers post) := by
    have rest : Lib.Line h.links (headers post) := by
      rw [← List.append_assoc] at listed
      exact listed.line_right
    apply rest.congr
    intro q member
    refine frame q ?_ (fresh member)
    rintro rfl
    exact apart (q := q) (by simp) (by simp only [headers, List.map_append, List.mem_append]; exact .inr member)
  constructor
  · refine listed.relink ordered last own ?_ ?_
    · match new, few with
      | [], _ => exact behind
      | [c], _ => exact ⟨(link c (by simp)).1, behind⟩
    · intro q member
      refine frame q (ordered.last_ne last member) fun inside => apart (List.mem_append_left _ member) ?_
      simp only [headers, List.map_append, List.mem_append]
      exact .inl inside
  · intro b member
    have old (inside : b ∈ pre ++ post) (other : some b.1 ∉ headers new) : (h'.get (some b.1)).length = b.2 := by
      rw [lengths b.1 other]
      apply listed.lengths
      simp only [List.mem_append] at inside ⊢
      tauto
    simp only [List.mem_append] at member
    rcases member with first | own | later
    · refine old (List.mem_append_left _ first) fun inside => apart (q := some b.1) ?_ ?_
      · rw [← last]
        exact .tail _ (mem_headers.mpr ⟨b, first, rfl⟩)
      · simp only [headers, List.map_append, List.mem_append]
        exact .inl inside
    · exact (link b own).2
    · exact old (List.mem_append_right _ later) (fresh (mem_headers.mpr ⟨b, later, rfl⟩))

def leftover (a n : Nat) : List (Nat × Nat) := if n = 0 then [] else [(a, n)]

theorem mem_leftover {c : Nat × Nat} (member : c ∈ leftover a n) : c = (a, n) ∧ 0 < n := by
  rw [leftover] at member
  split at member
  · cases member
  · exact ⟨List.mem_singleton.mp member, by omega⟩

theorem length_leftover : (leftover a n).length ≤ 1 := by
  rw [leftover]
  split <;> simp

theorem shrink_pairwise {a' n' : Nat} (gap : Nat)
    (apart : (pre ++ ((a, n) :: post)).Pairwise fun c d => c.1 + c.2 + gap ≤ d.1) (start : a ≤ a') (fin : a' + n' ≤ a + n) :
    (pre ++ (leftover a' n' ++ post)).Pairwise fun c d => c.1 + c.2 + gap ≤ d.1 := by
  have split := List.pairwise_append.mp apart
  have after := List.pairwise_cons.mp split.2.1
  rw [List.pairwise_append, List.pairwise_append]
  refine ⟨split.1, ⟨?_, after.2, ?_⟩, ?_⟩
  · rw [leftover]
    split
    · exact .nil
    · exact List.pairwise_singleton _ _
  · intro c member d later
    obtain ⟨rfl, -⟩ := mem_leftover member
    have : a + n + gap ≤ d.1 := after.1 d later
    show a' + n' + gap ≤ d.1
    omega
  · intro c member d later
    rcases List.mem_append.mp later with own | later
    · obtain ⟨rfl, -⟩ := mem_leftover own
      have : c.1 + c.2 + gap ≤ a := split.2.2 c member (a, n) (.head _)
      show c.1 + c.2 + gap ≤ a'
      omega
    · exact split.2.2 c member d (.tail _ later)

theorem Ordered.shrink {a' n' : Nat} (ordered : Ordered lo hi (pre ++ ((a, n) :: post))) (start : a ≤ a')
    (fin : a' + n' ≤ a + n) : Ordered lo hi (pre ++ (leftover a' n' ++ post)) := by
  refine ⟨?_, fun b member => ?_⟩
  · exact shrink_pairwise 0 ordered.sorted start fin
  · rcases List.mem_append.mp member with before | member
    · exact ordered.bounds b (List.mem_append_left _ before)
    · rcases List.mem_append.mp member with own | later
      · obtain ⟨rfl, positive⟩ := mem_leftover own
        have : lo ≤ a ∧ a + n ≤ hi ∧ 0 < n := ordered.bounds (a, n) (by simp)
        show lo ≤ a' ∧ a' + n' ≤ hi ∧ 0 < n'
        omega
      · exact ordered.bounds b (List.mem_append_right _ (.tail _ later))

def Coalesced (free : List (Nat × Nat)) : Prop := free.Pairwise fun c d => c.1 + c.2 < d.1

theorem Coalesced.shrink {a' n' : Nat} (coalesced : Coalesced (pre ++ ((a, n) :: post))) (start : a ≤ a')
    (fin : a' + n' ≤ a + n) : Coalesced (pre ++ (leftover a' n' ++ post)) :=
  shrink_pairwise 1 coalesced start fin

structure Whole (h : Heap) (lo hi : Nat) (free : List (Nat × Nat)) : Prop where
  listed : Listed h free
  ordered : Ordered lo hi free
  positive : 0 < lo
  range : lo ≤ hi
  top : hi < WORD

theorem Whole.enough (whole : Whole h lo hi free) : free.length < walkFuel := by
  have := whole.ordered.length whole.range
  have := whole.top
  rw [walkFuel]
  omega

theorem Whole.nonnull (whole : Whole h lo hi free) : ∀ b ∈ free, b.1 ≠ NULL := by
  intro b member
  have := (whole.ordered.bounds b member).1
  have := whole.positive
  rw [NULL]
  omega

theorem Whole.head (whole : Whole h lo hi free) : h.memlist.next = (free.map Prod.fst).headD NULL :=
  links_eq (show h.links none = _ from whole.listed.line.1)

end Xinu.Heap
