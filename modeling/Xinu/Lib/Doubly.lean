import Mathlib.Data.List.Basic
import Mathlib.Data.List.Nodup

namespace Xinu.Lib

variable {ι : Type*} {next prev next' prev' : ι → Option ι} {l pre post : List ι} {a b t : ι} {p n m : Option ι}

def Doubly (next prev : ι → Option ι) : Option ι → List ι → Option ι → Prop
  | _, [], _ => True
  | p, a :: l, n => prev a = p ∧ next a = l.head?.or n ∧ Doubly next prev (some a) l n

namespace Doubly

theorem congr (h : Doubly next prev p l n) (same : ∀ x ∈ l, next' x = next x ∧ prev' x = prev x) :
    Doubly next' prev' p l n := by
  induction l generalizing p with
  | nil => trivial
  | cons x l ih =>
      obtain ⟨before, behind, rest⟩ := h
      have own := same x (.head _)
      exact ⟨own.2.trans before, own.1.trans behind, ih rest fun y member => same y (.tail _ member)⟩

theorem append : Doubly next prev p (pre ++ post) n ↔
    Doubly next prev p pre (post.head?.or n) ∧ Doubly next prev (pre.getLast?.or p) post n := by
  induction pre generalizing p with
  | nil => exact ⟨fun h => ⟨trivial, h⟩, And.right⟩
  | cons x pre ih =>
      have first : ((pre ++ post).head?.or n) = pre.head?.or (post.head?.or n) := by
        rw [List.head?_append, Option.or_assoc]
      have last : ((x :: pre).getLast?.or p) = pre.getLast?.or (some x) := by
        cases pre with
        | nil => rfl
        | cons y pre =>
            rw [List.getLast?_cons_cons, List.getLast?_cons]
            rfl
      rw [List.cons_append, Doubly, Doubly, ih, first, last]
      constructor
      · rintro ⟨before, behind, front, back⟩
        exact ⟨⟨before, behind, front⟩, back⟩
      · rintro ⟨⟨before, behind, front⟩, back⟩
        exact ⟨before, behind, front, back⟩

theorem prev_eq (h : Doubly next prev p (pre ++ a :: post) n) : prev a = pre.getLast?.or p := (append.mp h).2.1

theorem next_eq (h : Doubly next prev p (pre ++ a :: post) n) : next a = post.head?.or n := (append.mp h).2.2.1

theorem unique {l' : List ι} (h : Doubly next prev p l none) (h' : Doubly next prev p l' none) (same : l.head? = l'.head?) :
    l = l' := by
  induction l generalizing p l' with
  | nil => exact (List.head?_eq_none_iff.mp same.symm).symm
  | cons x l ih =>
      cases l' with
      | nil => exact nomatch same
      | cons y l' =>
          cases same
          obtain ⟨-, behind, rest⟩ := h
          obtain ⟨-, behind', rest'⟩ := h'
          rw [Option.or_none] at behind behind'
          rw [ih rest rest' (behind.symm.trans behind')]

theorem renext (h : Doubly next prev p l n) (nodup : l.Nodup) (last : ∀ a, l.getLast? = some a → next' a = m)
    (others : ∀ x ∈ l, l.getLast? ≠ some x → next' x = next x) (same : ∀ x ∈ l, prev' x = prev x) :
    Doubly next' prev' p l m := by
  induction l generalizing p with
  | nil => trivial
  | cons x l ih =>
      obtain ⟨before, behind, rest⟩ := h
      refine ⟨(same x (.head _)).trans before, ?_, ?_⟩
      · cases l with
        | nil => exact last x rfl
        | cons y l =>
            have inner : (x :: y :: l).getLast? ≠ some x := by
              rw [List.getLast?_cons_cons]
              intro eq
              exact (List.nodup_cons.mp nodup).1 (List.mem_of_getLast? eq)
            exact (others x (.head _) inner).trans behind
      · cases l with
        | nil => trivial
        | cons y l =>
            refine ih rest (List.nodup_cons.mp nodup).2 ?_ ?_ fun z member => same z (.tail _ member)
            · intro a eq
              exact last a (by rw [List.getLast?_cons_cons, eq])
            · intro z member inner
              exact others z (.tail _ member) (by rw [List.getLast?_cons_cons]; exact inner)

theorem reprev {q : Option ι} (h : Doubly next prev p l n) (nodup : l.Nodup)
    (first : ∀ a, l.head? = some a → prev' a = q) (others : ∀ x ∈ l, l.head? ≠ some x → prev' x = prev x)
    (same : ∀ x ∈ l, next' x = next x) : Doubly next' prev' q l n := by
  cases l with
  | nil => trivial
  | cons x l =>
      obtain ⟨-, behind, rest⟩ := h
      refine ⟨first x rfl, (same x (.head _)).trans behind, rest.congr fun y member => ⟨same y (.tail _ member), ?_⟩⟩
      refine others y (.tail _ member) fun eq => ?_
      cases eq
      exact (List.nodup_cons.mp nodup).1 member

theorem insert (h : Doubly next prev p (pre ++ post) n) (nodup : (pre ++ post).Nodup) (fresh : t ∉ pre ++ post)
    (behind : next' t = post.head?.or n) (before : prev' t = pre.getLast?.or p)
    (last : ∀ a, pre.getLast? = some a → next' a = some t) (first : ∀ b, post.head? = some b → prev' b = some t)
    (nexts : ∀ x, x ≠ t → pre.getLast? ≠ some x → next' x = next x)
    (prevs : ∀ x, x ≠ t → post.head? ≠ some x → prev' x = prev x) : Doubly next' prev' p (pre ++ t :: post) n := by
  obtain ⟨front, back⟩ := append.mp h
  obtain ⟨nodup, nodup', apart⟩ := List.nodup_append.mp nodup
  have out : ∀ x ∈ pre ++ post, x ≠ t := fun x member eq => fresh (eq ▸ member)
  rw [append]
  refine ⟨front.renext nodup last ?_ ?_, before, behind, back.reprev nodup' first ?_ ?_⟩
  · exact fun x member inner => nexts x (out x (List.mem_append_left _ member)) inner
  · refine fun x member => prevs x (out x (List.mem_append_left _ member)) fun eq => ?_
    exact apart x member x (List.mem_of_head? eq) rfl
  · exact fun x member inner => prevs x (out x (List.mem_append_right _ member)) inner
  · refine fun x member => nexts x (out x (List.mem_append_right _ member)) fun eq => ?_
    exact apart x (List.mem_of_getLast? eq) x member rfl

theorem remove (h : Doubly next prev p (pre ++ t :: post) n) (nodup : (pre ++ t :: post).Nodup)
    (last : ∀ a, pre.getLast? = some a → next' a = post.head?.or n)
    (first : ∀ b, post.head? = some b → prev' b = pre.getLast?.or p)
    (nexts : ∀ x, x ≠ t → pre.getLast? ≠ some x → next' x = next x)
    (prevs : ∀ x, x ≠ t → post.head? ≠ some x → prev' x = prev x) : Doubly next' prev' p (pre ++ post) n := by
  obtain ⟨front, -, -, back⟩ := append.mp h
  obtain ⟨nodup, nodup', apart⟩ := List.nodup_append.mp nodup
  obtain ⟨fresh, nodup'⟩ := List.nodup_cons.mp nodup'
  have out : ∀ x ∈ pre, x ≠ t := fun x member => apart x member t (.head _)
  have out' : ∀ x ∈ post, x ≠ t := fun x member eq => fresh (eq ▸ member)
  rw [append]
  refine ⟨front.renext nodup last ?_ ?_, back.reprev nodup' first ?_ ?_⟩
  · exact fun x member inner => nexts x (out x member) inner
  · refine fun x member => prevs x (out x member) fun eq => ?_
    exact apart x member x (.tail _ (List.mem_of_head? eq)) rfl
  · exact fun x member inner => prevs x (out' x member) inner
  · refine fun x member => nexts x (out' x member) fun eq => ?_
    exact apart x (List.mem_of_getLast? eq) x (.tail _ member) rfl

end Doubly

end Xinu.Lib
