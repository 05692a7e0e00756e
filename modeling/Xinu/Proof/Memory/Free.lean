import Xinu.Proof.Memory.Alloc

namespace Xinu.Heap

variable {h h' : Heap} {lo hi k n b : Nat} {p q : Option Nat} {free pre post : List (Nat × Nat)}

theorem memfreeLoop_eq {fuel : Nat} {mid : List (Nat × Nat)} {before : List (Option Nat)} {prev : Option Nat}
    (listed : Listed h (pre ++ (mid ++ post))) (nonnull : ∀ c ∈ mid, c.1 ≠ NULL) (lower : ∀ c ∈ mid, c.1 < b)
    (upper : ∀ c ∈ post, b ≤ c.1) (last : none :: headers pre = before ++ [prev]) (enough : mid.length < fuel) :
    ∃ front prev', h.memfreeLoop b fuel prev (((mid ++ post).map Prod.fst).headD NULL) =
        some (prev', (post.map Prod.fst).headD NULL) ∧ none :: headers (pre ++ mid) = front ++ [prev'] := by
  induction mid generalizing pre fuel before prev with
  | nil =>
      cases fuel with
      | zero => cases enough
      | succ fuel =>
          refine ⟨before, prev, ?_, by simpa using last⟩
          rw [List.nil_append, memfreeLoop, if_neg]
          rintro ⟨some, below⟩
          cases post with
          | nil => exact some rfl
          | cons c post =>
              have := upper c (.head _)
              simp only [List.map_cons, List.headD_cons] at below
              omega
  | cons c mid ih =>
      obtain ⟨a, n⟩ := c
      cases fuel with
      | zero => cases enough
      | succ fuel =>
          have next := links_eq listed.next
          have below : a < b := lower (a, n) (.head _)
          rw [get_some] at next
          rw [List.cons_append, List.map_cons, List.headD_cons, memfreeLoop, if_pos ⟨nonnull (a, n) (.head _), below⟩, next]
          rw [List.cons_append, ← List.singleton_append, ← List.append_assoc] at listed
          have found := ih listed (fun c member => nonnull c (.tail _ member)) (fun c member => lower c (.tail _ member))
            (snoc_header last a n) (Nat.lt_of_succ_lt_succ enough)
          simpa using found

structure Given (h h' : Heap) (k : Nat) (free : List (Nat × Nat)) : Prop where
  listed : Listed h' free
  length : h'.memlist.length = add32 h.memlist.length k
  memheap : h'.memheap = h.memheap
  maxaddr : h'.maxaddr = h.maxaddr

theorem exists_last (free : List (Nat × Nat)) : ∃ before prev, none :: headers free = before ++ [prev] := by
  rcases List.eq_nil_or_concat (none :: headers free) with nil | ⟨before, prev, eq⟩
  · cases nil
  · exact ⟨before, prev, by rw [eq, List.concat_eq_append]⟩

theorem ptr_head (nonnull : ∀ c ∈ free, c.1 ≠ NULL) : ptr ((free.map Prod.fst).headD NULL) = (headers free).head? := by
  cases free with
  | nil => rfl
  | cons c free => simp [ptr, headers, nonnull c (.head _)]

theorem Ordered.nonnull (ordered : Ordered lo hi free) (positive : 0 < lo) : ∀ c ∈ free, c.1 ≠ NULL := by
  intro c member
  have := (ordered.bounds c member).1
  rw [NULL]
  omega

theorem link_listed {front : List (Option Nat)} {prev : Option Nat} (listed : Listed h (pre ++ post))
    (ordered : Ordered lo hi (pre ++ post)) (ordered' : Ordered lo hi (pre ++ ([(b, k)] ++ post))) (positive : 0 < lo)
    (last : none :: headers pre = front ++ [prev]) :
    Listed ((h.set (some b) ⟨(post.map Prod.fst).headD NULL, k⟩).setNext prev b) (pre ++ ([(b, k)] ++ post)) := by
  have own : some b ≠ prev := (ordered'.before_ne last (by simp) (by simp [headers])).symm
  have nonnull : b ≠ NULL := ordered'.nonnull positive (b, k) (by simp)
  have old : Listed h (pre ++ ([] ++ post)) := listed
  refine old.replace ordered ordered' last (by simp) ?_ ?_ ?_ ?_
  · rw [links_setNext, ptr, if_neg nonnull]
    rfl
  · intro c member
    rw [List.mem_singleton.mp member, links_setNext_other own, links_set, setNext_length, get_set_self]
    exact ⟨ptr_head (ordered.append.2.nonnull positive), rfl⟩
  · intro q other fresh
    rw [links_setNext_other other, links_set_other _ (by simpa [headers] using fresh)]
  · intro c fresh
    rw [setNext_length, get_set_other _ _ (by simpa [headers] using fresh)]

theorem grow_listed {m : Nat} (listed : Listed h (pre ++ ([(a, n)] ++ post)))
    (ordered : Ordered lo hi (pre ++ ([(a, n)] ++ post))) (ordered' : Ordered lo hi (pre ++ ([(a, m)] ++ post))) :
    Listed (h.setLength (some a) m) (pre ++ ([(a, m)] ++ post)) := by
  obtain ⟨front, prev, last⟩ := exists_last pre
  refine listed.replace ordered ordered' last (by simp) ?_ ?_ ?_ ?_
  · rw [links_setLength, listed.next_at last]
    rfl
  · intro c member
    rw [List.mem_singleton.mp member, links_setLength]
    exact ⟨listed.next, by simp [setLength]⟩
  · intro q _ _
    exact links_setLength ..
  · intro c fresh
    exact setLength_length_other (by simpa [headers] using fresh)

theorem join_listed {m : Nat} (listed : Listed h (pre ++ ([(a, n), (a + n, m)] ++ post)))
    (ordered : Ordered lo hi (pre ++ ([(a, n), (a + n, m)] ++ post)))
    (ordered' : Ordered lo hi (pre ++ ([(a, n + m)] ++ post))) :
    Listed ((h.setLength (some a) (n + m)).setNext (some a) (h.block (a + n)).next) (pre ++ ([(a, n + m)] ++ post)) := by
  obtain ⟨front, prev, last⟩ := exists_last pre
  have before : prev ≠ some a := ordered'.before_ne last (by simp) (by simp [headers])
  have next : h.links (some (a + n)) = (headers post).head? := by
    have shifted : Listed h ((pre ++ [(a, n)]) ++ (a + n, m) :: post) := by simpa using listed
    exact shifted.next
  refine listed.replace ordered ordered' last (by simp) ?_ ?_ ?_ ?_
  · rw [links_setNext_other before, links_setLength, listed.next_at last]
    rfl
  · intro c member
    rw [List.mem_singleton.mp member, links_setNext, setNext_length]
    exact ⟨next, by simp [setLength]⟩
  · intro q _ fresh
    rw [links_setNext_other (by simpa [headers] using fresh), links_setLength]
  · intro c fresh
    rw [setNext_length, setLength_length_other (by simpa [headers] using fresh)]

theorem kept_setLength (h : Heap) (a v : Nat) : Kept h (h.setLength (some a) v) := ⟨rfl, rfl, rfl⟩

theorem Kept.trans {h₁ h₂ h₃ : Heap} (fst : Kept h₁ h₂) (snd : Kept h₂ h₃) : Kept h₁ h₃ :=
  ⟨snd.length.trans fst.length, snd.memheap.trans fst.memheap, snd.maxaddr.trans fst.maxaddr⟩

structure Place (lo hi b k l r : Nat) (pre post : List (Nat × Nat)) : Prop where
  whole : Ordered lo hi (pre ++ ([(b - l, l + k + r)] ++ post))
  before : ∀ c ∈ pre, c.1 + c.2 < b - l
  after : ∀ c ∈ post, b + k + r < c.1
  within : l ≤ b

variable {l r : Nat}

theorem Place.part (place : Place lo hi b k l r pre post) {a n : Nat} (start : b - l ≤ a) (fin : a + n ≤ b + k + r) :
    Ordered lo hi (pre ++ (leftover a n ++ post)) :=
  place.whole.shrink start (by
    have := place.within
    omega)

theorem Place.first (place : Place lo hi b k l r pre post) (least : 0 < k) :
    Ordered lo hi (pre ++ ([(b - l, l + k)] ++ (leftover (b + k) r ++ post))) := by
  have within := place.within
  have range : lo ≤ b - l ∧ b - l + (l + k + r) ≤ hi ∧ 0 < l + k + r := place.whole.bounds (b - l, l + k + r) (by simp)
  have inner := place.part (a := b + k) (n := r) (by omega) (Nat.le_refl _)
  have split := List.pairwise_append.mp inner.sorted
  constructor
  · rw [List.pairwise_append, List.singleton_append, List.pairwise_cons]
    refine ⟨split.1, ⟨?_, split.2.1⟩, ?_⟩
    · intro c member
      rcases List.mem_append.mp member with own | later
      · obtain ⟨rfl, -⟩ := mem_leftover own
        show b - l + (l + k) ≤ b + k
        omega
      · have := place.after c later
        show b - l + (l + k) ≤ c.1
        omega
    · intro c member d later
      rcases List.mem_cons.mp later with rfl | later
      · exact Nat.le_of_lt (place.before c member)
      · exact split.2.2 c member d later
  · intro c member
    simp only [List.mem_append, List.mem_singleton] at member
    rcases member with first | rfl | rest
    · exact place.whole.bounds c (List.mem_append_left _ first)
    · show lo ≤ b - l ∧ b - l + (l + k) ≤ hi ∧ 0 < l + k
      omega
    · exact inner.bounds c (by simpa using Or.inr rest)

theorem memfreeLink_spec {front : List (Option Nat)} {prev : Option Nat} {next top : Nat}
    (listed : Listed h (pre ++ (leftover (b - l) l ++ (leftover (b + k) r ++ post))))
    (place : Place lo hi b k l r pre post) (positive : 0 < lo) (least : 0 < k) (bound : hi < WORD)
    (ordered : Ordered lo hi (pre ++ (leftover (b - l) l ++ (leftover (b + k) r ++ post))))
    (last : none :: headers (pre ++ leftover (b - l) l) = front ++ [prev])
    (following : next = ((leftover (b + k) r ++ post).map Prod.fst).headD NULL) (touches : top = b ↔ l ≠ 0) :
    Given h (h.memfreeLink b k prev next top) k (pre ++ ([(b - l, l + k + r)] ++ post)) := by
  have within := place.within
  have range : lo ≤ b - l ∧ b - l + (l + k + r) ≤ hi ∧ 0 < l + k + r := place.whole.bounds (b - l, l + k + r) (by simp)
  have start : Listed (h.setLength none (add32 h.memlist.length k))
      (pre ++ (leftover (b - l) l ++ (leftover (b + k) r ++ post))) := by
    refine ⟨listed.line.congr fun q _ => links_setLength .., fun c member => ?_⟩
    rw [setLength_length_other (by simp)]
    exact listed.lengths c member
  rw [memfreeLink]
  simp only
  generalize made : h.setLength none (add32 h.memlist.length k) = h₀ at start ⊢
  obtain ⟨h₁, stepped, first, kept⟩ : ∃ h₁, (if top = b then (h₀.setLength prev (add32 (h₀.get prev).length k), prev)
      else ((h₀.set (some b) ⟨next, k⟩).setNext prev b, some b)) = (h₁, some (b - l)) ∧
      Listed h₁ (pre ++ ([(b - l, l + k)] ++ (leftover (b + k) r ++ post))) ∧ Kept h₀ h₁ := by
    by_cases alone : l = 0
    · subst alone
      have empty : leftover (b - 0) 0 = [] := rfl
      rw [empty] at start ordered last
      rw [if_neg (by simpa using touches), following, Nat.sub_zero, Nat.zero_add]
      refine ⟨_, rfl, ?_, ?_⟩
      · exact link_listed start ordered (by simpa using place.first least) positive (by simpa using last)
      · exact ⟨setNext_length _ prev none b, memheap_set .., maxaddr_set ..⟩
    · have neighbour : leftover (b - l) l = [(b - l, l)] := if_neg alone
      rw [neighbour] at start ordered last
      obtain ⟨before, prev', snoc⟩ := exists_last pre
      rw [snoc_header snoc] at last
      obtain ⟨-, same⟩ := List.append_inj' last rfl
      obtain rfl : some (b - l) = prev := by simpa using same
      have length : (h₀.get (some (b - l))).length = l := start.lengths (b - l, l) (by simp)
      rw [if_pos (touches.mpr alone), length, add32, Nat.mod_eq_of_lt (by omega)]
      exact ⟨_, rfl, grow_listed start ordered (place.first least), kept_setLength ..⟩
  simp only [stepped, Option.getD_some]
  have given {h₂ : Heap} (kept : Kept h₀ h₂) (listed : Listed h₂ (pre ++ ([(b - l, l + k + r)] ++ post))) :
      Given h h₂ k (pre ++ ([(b - l, l + k + r)] ++ post)) := by
    subst made
    exact ⟨listed, kept.length, kept.memheap, kept.maxaddr⟩
  have length : (h₁.get (some (b - l))).length = l + k := first.lengths (b - l, l + k) (by simp)
  rw [length, show add32 (b - l) (l + k) = b + k by rw [add32, Nat.mod_eq_of_lt (by omega)]; omega]
  by_cases alone : r = 0
  · subst alone
    have empty : leftover (b + k) 0 = [] := rfl
    rw [empty, List.nil_append] at following first
    have apart : b + k ≠ next := by
      rw [following]
      cases post with
      | nil =>
          rw [List.map_nil, List.headD_nil, NULL]
          omega
      | cons c post =>
          have := place.after c (.head _)
          rw [List.map_cons, List.headD_cons]
          omega
    rw [if_neg apart]
    exact given kept first
  · have neighbour : leftover (b + k) r = [(b + k, r)] := if_neg alone
    rw [neighbour] at following first
    have same : next = b + k := following
    have rlength : (h₁.block (b + k)).length = r := first.lengths (b + k, r) (by simp)
    rw [if_pos same.symm, same, rlength, add32, Nat.mod_eq_of_lt (by omega)]
    have fin : b - l + (l + k) = b + k := by omega
    have first' : Listed h₁ (pre ++ ([(b - l, l + k), (b - l + (l + k), r)] ++ post)) := by
      rw [fin]
      simpa using first
    have split : Ordered lo hi (pre ++ ([(b - l, l + k), (b - l + (l + k), r)] ++ post)) := by
      rw [fin]
      have := place.first least
      rw [neighbour] at this
      simpa using this
    have joined := join_listed first' split place.whole
    rw [fin] at joined
    exact given (kept.trans ((kept_setLength ..).trans (kept_setNext ..))) joined

def topOf (h : Heap) : Option Nat → Nat
  | none => NULL
  | some p => add32 p (h.block p).length

def Meets (b k : Nat) (free : List (Nat × Nat)) : Prop := ∃ c ∈ free, c.1 < b + k ∧ b < c.1 + c.2

theorem front_cases {front : List (Option Nat)} {prev : Option Nat} (listed : Listed h (pre ++ post))
    (ordered : Ordered lo hi pre) (coalesced : Coalesced pre) (bound : hi < WORD) (positive : 0 < b)
    (lower : ∀ c ∈ pre, c.1 < b) (last : none :: headers pre = front ++ [prev]) :
    (b < topOf h prev ∧ ∃ c ∈ pre, b < c.1 + c.2) ∨
      ∃ before l, pre = before ++ leftover (b - l) l ∧ l ≤ b ∧ topOf h prev ≤ b ∧ (topOf h prev = b ↔ l ≠ 0) ∧
        ∀ c ∈ before, c.1 + c.2 < b - l := by
  rcases List.eq_nil_or_concat pre with rfl | ⟨before, ⟨a, m⟩, concat⟩
  · have last' : [] ++ [none] = front ++ [prev] := last
    obtain ⟨-, same⟩ := List.append_inj' last' rfl
    obtain rfl : none = prev := (List.cons.inj same).1
    exact .inr ⟨[], 0, rfl, Nat.zero_le b, Nat.zero_le b, iff_of_false (Nat.ne_of_lt positive) (fun ne => ne rfl), nofun⟩
  · rw [List.concat_eq_append] at concat
    subst concat
    obtain ⟨behind, prev', snoc⟩ := exists_last before
    rw [snoc_header snoc] at last
    obtain ⟨-, same⟩ := List.append_inj' last rfl
    obtain rfl : some a = prev := by simpa using same
    have range : lo ≤ a ∧ a + m ≤ hi ∧ 0 < m := ordered.bounds (a, m) (by simp)
    have length : (h.block a).length = m := listed.lengths (a, m) (by simp)
    have top : topOf h (some a) = a + m := by
      rw [topOf, length, add32, Nat.mod_eq_of_lt (by omega)]
    have below : a < b := lower (a, m) (by simp)
    have apart : ∀ c ∈ before, c.1 + c.2 < a := fun c member =>
      (List.pairwise_append.mp coalesced).2.2 c member (a, m) (.head _)
    rw [top]
    rcases Nat.lt_trichotomy (a + m) b with less | same | more
    · refine .inr ⟨before ++ [(a, m)], 0, by simp [leftover], Nat.zero_le b, Nat.le_of_lt less, ?_, ?_⟩
      · exact iff_of_false (Nat.ne_of_lt less) (fun ne => ne rfl)
      · intro c member
        rcases List.mem_append.mp member with early | own
        · have := apart c early
          omega
        · cases List.mem_singleton.mp own
          exact less
    · have start : b - m = a := by omega
      have own : leftover (b - m) m = [(a, m)] := by
        rw [start]
        exact if_neg (Nat.ne_of_gt range.2.2)
      refine .inr ⟨before, m, by rw [own], by omega, Nat.le_of_eq same, ?_, ?_⟩
      · exact iff_of_true same (Nat.ne_of_gt range.2.2)
      · rw [start]
        exact apart
    · exact .inl ⟨more, (a, m), by simp, more⟩

theorem back_cases (ordered : Ordered lo hi post) (coalesced : Coalesced post) (positive : 0 < lo) (bound : hi < WORD)
    (upper : ∀ c ∈ post, b ≤ c.1) (fits : b + k ≤ hi) :
    let next := (post.map Prod.fst).headD NULL
    (next ≠ NULL ∧ add32 b k > next ∧ ∃ c ∈ post, c.1 < b + k) ∨
      ∃ r after, post = leftover (b + k) r ++ after ∧ ¬ (next ≠ NULL ∧ add32 b k > next) ∧ ∀ c ∈ after, b + k + r < c.1 := by
  intro next
  have fin : add32 b k = b + k := Nat.mod_eq_of_lt (by omega)
  rw [fin]
  cases post with
  | nil => exact .inr ⟨0, [], rfl, fun wrong => wrong.1 rfl, nofun⟩
  | cons c post =>
      obtain ⟨a, m⟩ := c
      have range : lo ≤ a ∧ a + m ≤ hi ∧ 0 < m := ordered.bounds (a, m) (.head _)
      have head : next = a := rfl
      have nonnull : a ≠ NULL := by
        rw [NULL]
        omega
      have apart : ∀ c ∈ post, a + m < c.1 := (List.pairwise_cons.mp coalesced).1
      rw [head]
      rcases Nat.lt_trichotomy a (b + k) with less | same | more
      · exact .inl ⟨nonnull, less, (a, m), .head _, less⟩
      · subst same
        have own : leftover (b + k) m = [(b + k, m)] := if_neg (Nat.ne_of_gt range.2.2)
        refine .inr ⟨m, post, by rw [own]; rfl, fun wrong => Nat.lt_irrefl _ wrong.2, apart⟩
      · refine .inr ⟨0, (a, m) :: post, rfl, fun wrong => Nat.lt_asymm more wrong.2, ?_⟩
        intro c member
        rcases List.mem_cons.mp member with rfl | later
        · exact more
        · have := apart c later
          omega

theorem Ordered.merge (ordered : Ordered lo hi (pre ++ (leftover (b - l) l ++ (leftover (b + k) r ++ post))))
    (before : ∀ c ∈ pre, c.1 + c.2 < b - l) (after : ∀ c ∈ post, b + k + r < c.1) (within : l ≤ b) (least : 0 < k)
    (start : lo ≤ b) (fits : b + k ≤ hi) : Ordered lo hi (pre ++ ([(b - l, l + k + r)] ++ post)) := by
  have fin : b - l + (l + k + r) = b + k + r := by omega
  have split := List.pairwise_append.mp ordered.sorted
  have later := (List.pairwise_append.mp (List.pairwise_append.mp split.2.1).2.1).2.1
  constructor
  · rw [List.pairwise_append, List.singleton_append, List.pairwise_cons]
    refine ⟨split.1, ⟨fun c member => ?_, later⟩, fun c member d rest => ?_⟩
    · have := after c member
      show b - l + (l + k + r) ≤ c.1
      omega
    · have := before c member
      rcases List.mem_cons.mp rest with rfl | rest
      · exact Nat.le_of_lt this
      · have := after d rest
        omega
  · intro c member
    simp only [List.mem_append, List.mem_singleton] at member
    rcases member with first | rfl | rest
    · exact ordered.bounds c (List.mem_append_left _ first)
    · have low : lo ≤ b - l := by
        by_cases alone : l = 0
        · omega
        · exact (ordered.bounds (b - l, l) (by simp [leftover, alone])).1
      have high : b + k + r ≤ hi := by
        by_cases alone : r = 0
        · omega
        · exact (ordered.bounds (b + k, r) (by simp [leftover, alone])).2.1
      show lo ≤ b - l ∧ b - l + (l + k + r) ≤ hi ∧ 0 < l + k + r
      omega
    · exact ordered.bounds c (by simp [rest])

theorem cut (ordered : Ordered lo hi free) (b : Nat) :
    ∃ pre post, free = pre ++ post ∧ (∀ c ∈ pre, c.1 < b) ∧ ∀ c ∈ post, b ≤ c.1 := by
  induction free with
  | nil => exact ⟨[], [], rfl, nofun, nofun⟩
  | cons c free ih =>
      by_cases below : c.1 < b
      · obtain ⟨pre, post, rfl, lower, upper⟩ := ih ordered.tail.1
        exact ⟨c :: pre, post, rfl, List.forall_mem_cons.mpr ⟨below, lower⟩, upper⟩
      · refine ⟨[], c :: free, rfl, nofun, List.forall_mem_cons.mpr ⟨Nat.le_of_not_lt below, fun d member => ?_⟩⟩
        have := ordered.tail.2 d member
        omega

theorem Place.apart (place : Place lo hi b k l r pre post) :
    ¬ Meets b k (pre ++ (leftover (b - l) l ++ (leftover (b + k) r ++ post))) := by
  rintro ⟨c, member, below, above⟩
  have within := place.within
  simp only [List.mem_append] at member
  rcases member with first | own | own | later
  · have := place.before c first
    omega
  · obtain ⟨rfl, -⟩ := mem_leftover own
    have : b < b - l + l := above
    omega
  · obtain ⟨rfl, -⟩ := mem_leftover own
    exact Nat.lt_irrefl _ below
  · have := place.after c later
    omega

theorem memfree_found {prev : Option Nat} {next : Nat} (valid : ¬ (n = 0 ∨ b < h.memheap ∨ b > h.maxaddr))
    (loop : h.memfreeLoop b walkFuel none h.memlist.next = some (prev, next)) :
    h.memfree b n = if topOf h prev > b ∨ (next ≠ NULL ∧ add32 b (roundmb n) > next) then some (h, SYSERR)
      else some (h.memfreeLink b (roundmb n) prev next (topOf h prev), OK) := by
  rw [memfree, if_neg valid]
  simp only [loop]
  cases prev <;> rfl

theorem memfree_spec (whole : Whole h lo hi free) (coalesced : Coalesced free) (nonzero : n ≠ 0) (least : 0 < roundmb n)
    (above : h.memheap ≤ b) (below : b ≤ h.maxaddr) (start : lo ≤ b) (fits : b + roundmb n ≤ hi) :
    Meets b (roundmb n) free ∧ h.memfree b n = some (h, SYSERR) ∨
      ∃ pre post l r h', free = pre ++ (leftover (b - l) l ++ (leftover (b + roundmb n) r ++ post)) ∧
        Place lo hi b (roundmb n) l r pre post ∧ h.memfree b n = some (h', OK) ∧
        Given h h' (roundmb n) (pre ++ ([(b - l, l + roundmb n + r)] ++ post)) := by
  obtain ⟨front, rear, rfl, lower, upper⟩ := cut whole.ordered b
  have positive := whole.positive
  have top := whole.top
  have listed : Listed h ([] ++ (front ++ rear)) := whole.listed
  have nonnull : ∀ c ∈ front, c.1 ≠ NULL := fun c member => whole.nonnull c (List.mem_append_left _ member)
  have enough : front.length < walkFuel := by
    have := whole.enough
    rw [List.length_append] at this
    omega
  obtain ⟨before, prev, loop, last⟩ := memfreeLoop_eq listed nonnull lower upper
    (show none :: headers [] = [] ++ [none] from rfl) enough
  rw [List.nil_append] at listed last
  have split := List.pairwise_append.mp coalesced
  have valid : ¬ (n = 0 ∨ b < h.memheap ∨ b > h.maxaddr) := by omega
  rw [← whole.head] at loop
  rw [memfree_found valid loop]
  rcases front_cases listed whole.ordered.append.1 split.1 top (by omega) lower last with
    ⟨more, c, member, joined⟩ | ⟨pre, l, rfl, within, notAbove, touches, gapped⟩
  · left
    rw [if_pos (.inl more)]
    refine ⟨⟨c, List.mem_append_left _ member, ?_, joined⟩, rfl⟩
    have := lower c member
    omega
  · rcases back_cases whole.ordered.append.2 split.2.1 positive top upper fits with
      ⟨next, more, c, member, joined⟩ | ⟨r, post, rfl, fine, gapped'⟩
    · left
      rw [if_pos (.inr ⟨next, more⟩)]
      refine ⟨⟨c, List.mem_append_right _ member, joined, ?_⟩, rfl⟩
      have := upper c member
      have := whole.ordered.bounds c (List.mem_append_right _ member)
      omega
    · right
      rw [if_neg fun wrong => wrong.elim (Nat.not_lt.mpr notAbove) fine]
      have ordered := whole.ordered
      rw [List.append_assoc] at listed ordered
      have place : Place lo hi b (roundmb n) l r pre post :=
        ⟨ordered.merge gapped gapped' within least start fits, gapped, gapped', within⟩
      exact ⟨pre, post, l, r, _, by rw [List.append_assoc], place, rfl,
        memfreeLink_spec listed place positive least top ordered last rfl touches⟩

end Xinu.Heap
