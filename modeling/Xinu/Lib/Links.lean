import Mathlib.Data.List.Chain

namespace Xinu.Lib

variable {ι : Type*} {next prev next' prev' : ι → ι} {l pre post : List ι} {a b t : ι}

def Linked (next prev : ι → ι) (l : List ι) : Prop :=
  l.IsChain fun a b => next a = b ∧ prev b = a

theorem Linked.congr (h : Linked next prev l)
    (hn : ∀ x ∈ l.dropLast, next' x = next x) (hp : ∀ x ∈ l.tail, prev' x = prev x) :
    Linked next' prev' l := by
  induction l with
  | nil => exact .nil
  | cons x l ih =>
      cases l with
      | nil => exact .singleton _
      | cons y l =>
          obtain ⟨⟨nx, py⟩, rest⟩ := List.isChain_cons_cons.mp h
          refine List.isChain_cons_cons.mpr ⟨⟨?_, ?_⟩, ih rest ?_ ?_⟩
          · rw [hn x (by simp), nx]
          · rw [hp y (by simp), py]
          · intro z member
            exact hn z (by simp [member])
          · intro z member
            exact hp z (List.mem_cons_of_mem _ member)

theorem Linked.frame (h : Linked next prev l)
    (hn : ∀ x ∈ l, next' x = next x) (hp : ∀ x ∈ l, prev' x = prev x) : Linked next' prev' l :=
  h.congr (fun x member => hn x (List.dropLast_subset l member))
    (fun x member => hp x (List.mem_of_mem_tail member))

theorem Linked.adjacent (h : Linked next prev (pre ++ a :: b :: post)) : next a = b ∧ prev b = a :=
  (List.isChain_append_cons_cons.mp h).2.1

theorem Linked.right (h : Linked next prev (pre ++ post)) : Linked next prev post :=
  List.IsChain.right_of_append h

theorem Linked.next_head (h : Linked next prev (a :: l ++ [b])) : next a = l.headD b := by
  cases l with
  | nil => exact (List.isChain_cons_cons.mp h).1.1
  | cons x l => exact (List.isChain_cons_cons.mp h).1.1

theorem Linked.insert (h : Linked next prev (pre ++ a :: b :: post))
    (nodup : (pre ++ a :: b :: post).Nodup) (fresh : t ∉ pre ++ a :: b :: post)
    (na : next' a = t) (nt : next' t = b) (pb : prev' b = t) (pt : prev' t = a)
    (hn : ∀ x, x ≠ a → x ≠ t → next' x = next x) (hp : ∀ x, x ≠ b → x ≠ t → prev' x = prev x) :
    Linked next' prev' (pre ++ a :: t :: b :: post) := by
  simp only [List.mem_append, List.mem_cons, not_or] at fresh
  obtain ⟨tpre, ta, tb, tpost⟩ := fresh
  rw [List.nodup_append] at nodup
  obtain ⟨-, right, apart⟩ := nodup
  simp only [List.nodup_cons, List.mem_cons, not_or] at right
  obtain ⟨before, -, after⟩ := List.isChain_append_cons_cons.mp h
  refine List.isChain_append_cons_cons.mpr ⟨?_, ⟨na, pt⟩, ?_⟩
  · refine Linked.congr before ?_ ?_
    · intro x member
      simp only [List.dropLast_concat] at member
      exact hn x (apart x member a (by simp)) (fun eq => tpre (eq ▸ member))
    · intro x member
      have inside : x ∈ pre ++ [a] := List.mem_of_mem_tail member
      simp only [List.mem_append, List.mem_singleton] at inside
      rcases inside with inside | rfl
      · exact hp x (apart x inside b (by simp)) (fun eq => tpre (eq ▸ inside))
      · exact hp x right.1.1 (fun eq => ta eq.symm)
  · refine List.isChain_cons_cons.mpr ⟨⟨nt, pb⟩, Linked.congr after ?_ ?_⟩
    · intro x member
      have inside : x ∈ b :: post := List.dropLast_subset _ member
      simp only [List.mem_cons] at inside
      rcases inside with rfl | inside
      · exact hn x (fun eq => right.1.1 eq.symm) (fun eq => tb eq.symm)
      · exact hn x (fun eq => right.1.2 (eq ▸ inside)) (fun eq => tpost (eq ▸ inside))
    · intro x member
      simp only [List.tail_cons] at member
      exact hp x (fun eq => right.2.1 (eq ▸ member)) (fun eq => tpost (eq ▸ member))

theorem Linked.remove (h : Linked next prev (pre ++ a :: t :: b :: post))
    (nodup : (pre ++ a :: t :: b :: post).Nodup)
    (na : next' a = b) (pb : prev' b = a)
    (hn : ∀ x, x ≠ a → x ≠ t → next' x = next x) (hp : ∀ x, x ≠ b → x ≠ t → prev' x = prev x) :
    Linked next' prev' (pre ++ a :: b :: post) := by
  rw [List.nodup_append] at nodup
  obtain ⟨-, right, apart⟩ := nodup
  simp only [List.nodup_cons, List.mem_cons, not_or] at right
  obtain ⟨before, -, after⟩ := List.isChain_append_cons_cons.mp h
  obtain ⟨-, after⟩ := List.isChain_cons_cons.mp after
  refine List.isChain_append_cons_cons.mpr ⟨?_, ⟨na, pb⟩, ?_⟩
  · refine Linked.congr before ?_ ?_
    · intro x member
      simp only [List.dropLast_concat] at member
      exact hn x (apart x member a (by simp)) (apart x member t (by simp))
    · intro x member
      have inside : x ∈ pre ++ [a] := List.mem_of_mem_tail member
      simp only [List.mem_append, List.mem_singleton] at inside
      rcases inside with inside | rfl
      · exact hp x (apart x inside b (by simp)) (apart x inside t (by simp))
      · exact hp x right.1.2.1 right.1.1
  · refine Linked.congr after ?_ ?_
    · intro x member
      have inside : x ∈ b :: post := List.dropLast_subset _ member
      simp only [List.mem_cons] at inside
      rcases inside with rfl | inside
      · exact hn x (fun eq => right.1.2.1 eq.symm) (fun eq => right.2.1.1 eq.symm)
      · exact hn x (fun eq => right.1.2.2 (eq ▸ inside)) (fun eq => right.2.1.2 (eq ▸ inside))
    · intro x member
      simp only [List.tail_cons] at member
      exact hp x (fun eq => right.2.2.1 (eq ▸ member)) (fun eq => right.2.1.2 (eq ▸ member))

section
variable {next next' : ι → Option ι}

def Line (next : ι → Option ι) : List ι → Prop
  | [] => True
  | a :: l => next a = l.head? ∧ Line next l

namespace Line

theorem congr (h : Line next l) (same : ∀ x ∈ l, next' x = next x) : Line next' l := by
  induction l with
  | nil => trivial
  | cons x l ih =>
      obtain ⟨own, rest⟩ := h
      exact ⟨by rw [same x (by simp), own], ih rest fun y member => same y (by simp [member])⟩

theorem next_eq (h : Line next (pre ++ a :: post)) : next a = post.head? := by
  induction pre with
  | nil => exact h.1
  | cons x pre ih => exact ih h.2

theorem relink {post' : List ι} (h : Line next (pre ++ a :: post)) (nodup : (pre ++ a :: post).Nodup)
    (own : next' a = post'.head?) (rest : Line next' post')
    (same : ∀ x ∈ pre, next' x = next x) : Line next' (pre ++ a :: post') := by
  induction pre with
  | nil => exact ⟨own, rest⟩
  | cons x pre ih =>
      obtain ⟨first, tail⟩ := h
      refine ⟨?_, ih tail (List.nodup_cons.mp nodup).2 fun y member => same y (by simp [member])⟩
      rw [same x (by simp), first]
      cases pre <;> rfl

theorem right (h : Line next (pre ++ post)) : Line next post := by
  induction pre with
  | nil => exact h
  | cons x pre ih => exact ih h.2

theorem insert (h : Line next (pre ++ a :: post)) (nodup : (pre ++ a :: post).Nodup)
    (fresh : t ∉ pre ++ a :: post) (na : next' a = some t) (nt : next' t = post.head?)
    (others : ∀ x, x ≠ a → x ≠ t → next' x = next x) : Line next' (pre ++ a :: t :: post) := by
  simp only [List.mem_append, List.mem_cons, not_or] at fresh
  have split := nodup
  rw [List.nodup_append] at split
  obtain ⟨-, right, apart⟩ := split
  have behind : Line next (a :: post) := h.right
  refine h.relink nodup na ⟨nt, behind.2.congr ?_⟩ ?_
  · intro x member
    exact others x (fun eq => (List.nodup_cons.mp right).1 (eq ▸ member))
      fun eq => fresh.2.2 (eq ▸ member)
  · intro x member
    exact others x (apart x member a (by simp)) fun eq => fresh.1 (eq ▸ member)

theorem remove (h : Line next (pre ++ a :: t :: post)) (nodup : (pre ++ a :: t :: post).Nodup)
    (na : next' a = post.head?) (others : ∀ x, x ≠ a → x ≠ t → next' x = next x) :
    Line next' (pre ++ a :: post) := by
  have split := nodup
  rw [List.nodup_append] at split
  obtain ⟨-, right, apart⟩ := split
  simp only [List.nodup_cons, List.mem_cons, not_or] at right
  have behind : Line next (a :: t :: post) := h.right
  refine h.relink nodup na (behind.2.2.congr ?_) ?_
  · intro x member
    exact others x (fun eq => right.1.2 (eq ▸ member)) fun eq => right.2.1 (eq ▸ member)
  · intro x member
    exact others x (apart x member a (by simp)) (apart x member t (by simp))

end Line

end

end Xinu.Lib
