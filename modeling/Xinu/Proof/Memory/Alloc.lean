import Xinu.Proof.Memory.FreeList

namespace Xinu.Heap

variable {h h' : Heap} {lo hi k n a b : Nat} {p q : Option Nat} {free pre post : List (Nat × Nat)}

structure Taken (h h' : Heap) (k : Nat) (free : List (Nat × Nat)) : Prop where
  listed : Listed h' free
  length : h'.memlist.length = sub32 h.memlist.length k
  memheap : h'.memheap = h.memheap
  maxaddr : h'.maxaddr = h.maxaddr

structure Kept (h h' : Heap) : Prop where
  length : h'.memlist.length = h.memlist.length
  memheap : h'.memheap = h.memheap
  maxaddr : h'.maxaddr = h.maxaddr

theorem kept_setNext (h : Heap) (p : Option Nat) (v : Nat) : Kept h (h.setNext p v) :=
  ⟨setNext_length h p none v, memheap_set .., maxaddr_set ..⟩

theorem Kept.set (kept : Kept h h') (a : Nat) (m : Memblock) : Kept h (h'.set (some a) m) :=
  ⟨kept.length, kept.memheap, kept.maxaddr⟩

theorem Listed.lessen (listed : Listed h' free) (kept : Kept h h') :
    Taken h (h'.setLength none (sub32 h'.memlist.length k)) k free := by
  refine ⟨⟨?_, ?_⟩, ?_, ?_, ?_⟩
  · exact listed.line.congr fun q _ => links_setLength ..
  · intro b member
    rw [setLength_length_other (by simp)]
    exact listed.lengths b member
  · rw [← kept.length]
    rfl
  · exact kept.memheap
  · exact kept.maxaddr

theorem memgetLoop_none {fuel : Nat} (listed : Listed h (pre ++ free)) (nonnull : ∀ b ∈ free, b.1 ≠ NULL)
    (small : ∀ b ∈ free, b.2 < k) (enough : free.length < fuel) :
    h.memgetLoop k fuel p ((free.map Prod.fst).headD NULL) = some (h, none) := by
  induction free generalizing pre fuel p with
  | nil =>
      cases fuel with
      | zero => cases enough
      | succ fuel => simp [memgetLoop]
  | cons c free ih =>
      obtain ⟨a, n⟩ := c
      cases fuel with
      | zero => cases enough
      | succ fuel =>
          have length : (h.block a).length = n := listed.lengths (a, n) (by simp)
          have less : n < k := small (a, n) (.head _)
          have next := links_eq listed.next
          rw [get_some] at next
          rw [List.map_cons, List.headD_cons, memgetLoop, if_neg (nonnull (a, n) (.head _)), length,
            if_neg (by omega), if_neg (by omega), next]
          rw [← List.singleton_append, ← List.append_assoc] at listed
          exact ih listed (fun b member => nonnull b (.tail _ member)) (fun b member => small b (.tail _ member))
            (Nat.lt_of_succ_lt_succ enough)

theorem memgetLoop_some {fuel : Nat} {mid : List (Nat × Nat)} {before : List (Option Nat)} {prev : Option Nat}
    (listed : Listed h (pre ++ (mid ++ (a, n) :: post))) (ordered : Ordered lo hi (pre ++ (mid ++ (a, n) :: post)))
    (positive : 0 < lo) (top : hi < WORD) (last : none :: headers pre = before ++ [prev])
    (small : ∀ b ∈ mid, b.2 < k) (fits : k ≤ n) (least : 0 < k) (enough : mid.length < fuel) :
    ∃ h', h.memgetLoop k fuel prev (((mid ++ (a, n) :: post).map Prod.fst).headD NULL) = some (h', some a) ∧
      Taken h h' k (pre ++ (mid ++ (leftover (a + k) (n - k) ++ post))) := by
  induction mid generalizing pre fuel before prev with
  | cons c mid ih =>
      obtain ⟨b, m⟩ := c
      cases fuel with
      | zero => cases enough
      | succ fuel =>
          have length : (h.block b).length = m := listed.lengths (b, m) (by simp)
          have less : m < k := small (b, m) (.head _)
          have next := links_eq listed.next
          have nonnull := (ordered.bounds (b, m) (by simp)).1
          rw [get_some] at next
          rw [List.cons_append, List.map_cons, List.headD_cons, memgetLoop, if_neg (by rw [NULL]; omega), length,
            if_neg (by omega), if_neg (by omega), next]
          rw [List.cons_append, ← List.singleton_append, ← List.append_assoc] at listed ordered
          have found := ih listed ordered (snoc_header last b m) (fun b member => small b (.tail _ member))
            (Nat.lt_of_succ_lt_succ enough)
          simpa using found
  | nil =>
      cases fuel with
      | zero => cases enough
      | succ fuel =>
          have length : (h.block a).length = n := listed.lengths (a, n) (by simp)
          have next : h.links (some a) = (headers post).head? := listed.next
          have range : lo ≤ a ∧ a + n ≤ hi ∧ 0 < n := ordered.bounds (a, n) (by simp)
          rw [List.nil_append, List.map_cons, List.headD_cons, memgetLoop, if_neg (by rw [NULL]; omega), length]
          simp only [List.nil_append] at listed ordered ⊢
          have ordered' : Ordered lo hi (pre ++ (leftover (a + k) (n - k) ++ post)) :=
            ordered.shrink (by omega) (by omega)
          have old : Listed h (pre ++ ([(a, n)] ++ post)) := listed
          have oldOrdered : Ordered lo hi (pre ++ ([(a, n)] ++ post)) := ordered
          by_cases whole : n = k
          · subst whole
            rw [Nat.sub_self] at ordered' ⊢
            rw [if_pos rfl]
            have shorter : Listed (h.setNext prev (h.block a).next) (pre ++ ([] ++ post)) := by
              refine old.replace oldOrdered ordered' last (by simp) ?_ (List.forall_mem_nil _) ?_ ?_
              · rw [links_setNext]
                exact next
              · intro q other _
                exact links_setNext_other other
              · intro b _
                exact setNext_length ..
            exact ⟨_, rfl, shorter.lessen (kept_setNext ..)⟩
          · have room : n > k := by omega
            have end_ : add32 a k = a + k := Nat.mod_eq_of_lt (by omega)
            have rest : sub32 n k = n - k := sub32_le fits (by omega)
            rw [if_neg whole, if_pos room, end_, rest]
            have some_ : leftover (a + k) (n - k) = [(a + k, n - k)] := if_neg (by omega)
            have distinct : prev ≠ some (a + k) := by
              apply ordered'.before_ne last (by simp)
              simp [some_, headers]
            have shorter : Listed ((h.setNext prev (a + k)).set (some (a + k)) ⟨(h.block a).next, n - k⟩)
                (pre ++ (leftover (a + k) (n - k) ++ post)) := by
              refine old.replace oldOrdered ordered' last length_leftover ?_ ?_ ?_ ?_
              · rw [links_set_other _ distinct, links_setNext, some_]
                simp [headers, ptr]
                omega
              · intro c member
                obtain ⟨rfl, -⟩ := mem_leftover member
                rw [links_set, get_set_self]
                exact ⟨next, rfl⟩
              · intro q other fresh
                rw [some_] at fresh
                rw [links_set_other _ (by simpa [headers] using fresh), links_setNext_other other]
              · intro b fresh
                rw [some_] at fresh
                rw [get_set_other _ _ (by simpa [headers] using fresh), setNext_length]
            exact ⟨_, rfl, shorter.lessen ((kept_setNext ..).set _ _)⟩

theorem first_fit (k : Nat) (free : List (Nat × Nat)) : (∀ b ∈ free, b.2 < k) ∨
    ∃ before a n after, free = before ++ (a, n) :: after ∧ (∀ b ∈ before, b.2 < k) ∧ k ≤ n := by
  induction free with
  | nil => exact .inl nofun
  | cons c free ih =>
      obtain ⟨a, n⟩ := c
      by_cases fits : k ≤ n
      · exact .inr ⟨[], a, n, free, rfl, nofun, fits⟩
      · rcases ih with small | ⟨before, a', n', after, rfl, small, fits'⟩
        · exact .inl (List.forall_mem_cons.mpr ⟨Nat.lt_of_not_le fits, small⟩)
        · exact .inr ⟨(a, n) :: before, a', n', after, rfl,
            List.forall_mem_cons.mpr ⟨Nat.lt_of_not_le fits, small⟩, fits'⟩

theorem memget_spec (whole : Whole h lo hi free) (nonzero : n ≠ 0) (least : 0 < roundmb n) :
    (∀ b ∈ free, b.2 < roundmb n) ∧ h.memget n = some (h, none) ∨
    ∃ before a m after h', free = before ++ (a, m) :: after ∧ roundmb n ≤ m ∧ h.memget n = some (h', some a) ∧
      Taken h h' (roundmb n) (before ++ (leftover (a + roundmb n) (m - roundmb n) ++ after)) := by
  rw [memget, if_neg nonzero, whole.head]
  rcases first_fit (roundmb n) free with small | ⟨before, a, m, after, rfl, small, fits⟩
  · left
    exact ⟨small, memgetLoop_none (show Listed h ([] ++ free) from whole.listed) whole.nonnull small whole.enough⟩
  · right
    obtain ⟨h', got, taken⟩ := memgetLoop_some
      (show Listed h ([] ++ (before ++ (a, m) :: after)) from whole.listed) whole.ordered whole.positive whole.top
      (show none :: headers [] = [] ++ [none] from rfl) small fits least (show before.length < walkFuel by
        have := whole.enough
        rw [List.length_append] at this
        omega)
    exact ⟨before, a, m, after, h', rfl, fits, got, taken⟩

def lastFit (k : Nat) : Option Nat → List (Nat × Nat) → Option (Option Nat × Nat) → Option (Option Nat × Nat)
  | _, [], fits => fits
  | prev, c :: free, fits => lastFit k (some c.1) free (if c.2 ≥ k then some (prev, c.1) else fits)

theorem stkgetLoop_eq {fuel : Nat} {fits : Option (Option Nat × Nat)} (listed : Listed h (pre ++ free))
    (nonnull : ∀ b ∈ free, b.1 ≠ NULL) (enough : free.length < fuel) :
    h.stkgetLoop k fuel p ((free.map Prod.fst).headD NULL) fits = some (lastFit k p free fits) := by
  induction free generalizing pre fuel p fits with
  | nil =>
      cases fuel with
      | zero => cases enough
      | succ fuel => simp [stkgetLoop, lastFit]
  | cons c free ih =>
      obtain ⟨a, n⟩ := c
      cases fuel with
      | zero => cases enough
      | succ fuel =>
          have length : (h.block a).length = n := listed.lengths (a, n) (by simp)
          have next := links_eq listed.next
          rw [get_some] at next
          rw [List.map_cons, List.headD_cons, stkgetLoop, if_neg (nonnull (a, n) (.head _)), length, next]
          rw [← List.singleton_append, ← List.append_assoc] at listed
          exact ih listed (fun b member => nonnull b (.tail _ member)) (Nat.lt_of_succ_lt_succ enough)

theorem lastFit_cases (k : Nat) (prev : Option Nat) (free : List (Nat × Nat)) (fits : Option (Option Nat × Nat)) :
    (∀ b ∈ free, b.2 < k) ∧ lastFit k prev free fits = fits ∨
    ∃ before a n after front prev', free = before ++ (a, n) :: after ∧ k ≤ n ∧
      lastFit k prev free fits = some (prev', a) ∧ prev :: headers before = front ++ [prev'] := by
  induction free generalizing prev fits with
  | nil => exact .inl ⟨nofun, rfl⟩
  | cons c free ih =>
      obtain ⟨a, n⟩ := c
      rcases ih (some a) (if n ≥ k then some (prev, a) else fits) with
        ⟨small, same⟩ | ⟨before, b, m, after, front, prev', rfl, fits', found, last⟩
      · by_cases own : n ≥ k
        · rw [if_pos own] at same
          refine .inr ⟨[], a, n, free, [], prev, rfl, own, ?_, rfl⟩
          rw [lastFit, if_pos own]
          exact same
        · rw [if_neg own] at same
          refine .inl ⟨List.forall_mem_cons.mpr ⟨Nat.lt_of_not_le own, small⟩, ?_⟩
          rw [lastFit, if_neg own]
          exact same
      · exact .inr ⟨(a, n) :: before, b, m, after, prev :: front, prev', rfl, fits', found, by
          rw [headers, List.map_cons]
          simpa [headers] using last⟩

theorem stkget_spec (whole : Whole h lo hi free) (nonzero : n ≠ 0) (least : 0 < roundmb n) :
    (∀ b ∈ free, b.2 < roundmb n) ∧ h.stkget n = some (h, none) ∨
    ∃ before a m after h', free = before ++ (a, m) :: after ∧ roundmb n ≤ m ∧
      h.stkget n = some (h', some (a + m - 4)) ∧
      Taken h h' (roundmb n) (before ++ (leftover a (m - roundmb n) ++ after)) := by
  have loop (k : Nat) : h.stkgetLoop k walkFuel none ((free.map Prod.fst).headD NULL) none =
      some (lastFit k none free none) :=
    stkgetLoop_eq (show Listed h ([] ++ free) from whole.listed) whole.nonnull whole.enough
  rw [stkget, if_neg nonzero, whole.head]
  simp only [loop]
  rcases lastFit_cases (roundmb n) none free none with ⟨small, found⟩ | ⟨before, a, m, after, front, prev, rfl, fits, found, last⟩
  · left
    rw [found]
    exact ⟨small, rfl⟩
  · right
    rw [found]
    simp only
    have length : (h.block a).length = m := whole.listed.lengths (a, m) (by simp)
    have next : h.links (some a) = (headers after).head? := whole.listed.next
    have range : lo ≤ a ∧ a + m ≤ hi ∧ 0 < m := whole.ordered.bounds (a, m) (by simp)
    have positive := whole.positive
    have top := whole.top
    have old : Listed h (before ++ ([(a, m)] ++ after)) := whole.listed
    have ordered : Ordered lo hi (before ++ ([(a, m)] ++ after)) := whole.ordered
    have ordered' : Ordered lo hi (before ++ (leftover a (m - roundmb n) ++ after)) :=
      whole.ordered.shrink (Nat.le_refl a) (by omega)
    have four : (4 : Nat) ≤ a + m := by
      have : roundmb n % 8 = 0 := by
        rw [roundmb]
        omega
      omega
    rw [length]
    by_cases exact_ : roundmb n = m
    · rw [if_pos exact_]
      rw [exact_, Nat.sub_self] at ordered'
      rw [exact_]
      have shorter : Listed (h.setNext prev (h.block a).next) (before ++ ([] ++ after)) := by
        refine old.replace ordered ordered' last (by simp) ?_ nofun ?_ ?_
        · rw [links_setNext]
          exact next
        · intro q other _
          exact links_setNext_other other
        · intro b _
          exact setNext_length ..
      have place : sub32 (add32 a m) 4 = a + m - 4 := by
        rw [add32, Nat.mod_eq_of_lt (by omega), sub32_le four (by omega)]
      exact ⟨before, a, m, after, _, rfl, Nat.le_refl _, by rw [place], by
        rw [Nat.sub_self]
        exact shorter.lessen (kept_setNext ..)⟩
    · rw [if_neg exact_, sub32_le fits (by omega)]
      have some_ : leftover a (m - roundmb n) = [(a, m - roundmb n)] := if_neg (by omega)
      have shorter : Listed (h.setLength (some a) (m - roundmb n)) (before ++ (leftover a (m - roundmb n) ++ after)) := by
        refine old.replace ordered ordered' last length_leftover ?_ ?_ ?_ ?_
        · rw [links_setLength, whole.listed.next_at last, some_]
          rfl
        · intro c member
          obtain ⟨rfl, -⟩ := mem_leftover member
          rw [links_setLength]
          exact ⟨next, by simp [setLength]⟩
        · intro q _ _
          exact links_setLength ..
        · intro b fresh
          rw [some_] at fresh
          exact setLength_length_other (by simpa [headers] using fresh)
      have left : ((h.setLength (some a) (m - roundmb n)).block a).length = m - roundmb n := by
        rw [← get_some]
        simp [setLength]
      have place : sub32 (add32 (add32 a (m - roundmb n)) (roundmb n)) 4 = a + m - 4 := by
        rw [add32, add32, Nat.mod_eq_of_lt (show a + (m - roundmb n) < WORD by omega),
          Nat.mod_eq_of_lt (by omega), sub32_le (by omega) (by omega)]
        omega
      exact ⟨before, a, m, after, _, rfl, fits, by rw [left, place], shorter.lessen ⟨rfl, rfl, rfl⟩⟩

end Xinu.Heap
