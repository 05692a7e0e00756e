import Xinu.Lib.Links
import Xinu.System.Kernel
import Xinu.Proof.Queue.Lists

namespace Xinu
open Lib

def Config.IsQueue (c : Config) (q : Int) : Prop :=
  ∃ i : Nat, q = c.nthread + 2 * i ∧ q + 1 < c.nqent

theorem Config.IsQueue.good {c : Config} {q : Int} (h : c.IsQueue q) : isbadqid c q = false := by
  obtain ⟨i, rfl, bound⟩ := h
  simp only [isbadqid, quehead, quetail, Bool.or_eq_false_iff, decide_eq_false_iff_not]
  exact ⟨⟨by omega, by omega⟩, by omega⟩

theorem Config.IsQueue.tail_ne {c : Config} {q t : Int} (h : c.IsQueue q) (hi : t < c.nthread) :
    quetail q ≠ t := by
  obtain ⟨i, rfl, -⟩ := h
  simp only [quetail]
  omega

theorem Config.IsQueue.tail_ne_head {c : Config} {q q' : Int} (h : c.IsQueue q) (h' : c.IsQueue q') :
    quetail q ≠ quehead q' := by
  obtain ⟨i, rfl, -⟩ := h
  obtain ⟨j, rfl, -⟩ := h'
  simp only [quetail, quehead]
  omega

namespace Quetab
variable {c : Config} (tab : Quetab c)

def next (i : Int) : Int := (tab.ent i).next
def prev (i : Int) : Int := (tab.ent i).prev
def key (i : Int) : Int := (tab.ent i).key

variable (i j v : Int)

@[simp] theorem setNext_next : (tab.setNext i v).next j = if j = i then v else tab.next j := by
  by_cases h : j = i <;> simp [setNext, next, h]

@[simp] theorem setNext_prev : (tab.setNext i v).prev j = tab.prev j := by
  by_cases h : j = i <;> simp [setNext, prev, h]

@[simp] theorem setNext_key : (tab.setNext i v).key j = tab.key j := by
  by_cases h : j = i <;> simp [setNext, key, h]

@[simp] theorem setPrev_next : (tab.setPrev i v).next j = tab.next j := by
  by_cases h : j = i <;> simp [setPrev, next, h]

@[simp] theorem setPrev_prev : (tab.setPrev i v).prev j = if j = i then v else tab.prev j := by
  by_cases h : j = i <;> simp [setPrev, prev, h]

@[simp] theorem setPrev_key : (tab.setPrev i v).key j = tab.key j := by
  by_cases h : j = i <;> simp [setPrev, key, h]

@[simp] theorem setKey_next : (tab.setKey i v).next j = tab.next j := by
  by_cases h : j = i <;> simp [setKey, next, h]

@[simp] theorem setKey_prev : (tab.setKey i v).prev j = tab.prev j := by
  by_cases h : j = i <;> simp [setKey, prev, h]

@[simp] theorem setKey_key : (tab.setKey i v).key j = if j = i then v else tab.key j := by
  by_cases h : j = i <;> simp [setKey, key, h]

end Quetab

def Lists.full (l : Lists) (q : Int) : List Int := quehead q :: l.ids q ++ [quetail q]

structure Represents {c : Config} (n : Int) (tab : Quetab c) (l : Lists) : Prop where
  linked : ∀ q, c.IsQueue q → q < n → Linked tab.next tab.prev (l.full q)
  range : ∀ q t, t ∈ l.ids q → 0 ≤ t ∧ t < c.nthread
  queue : ∀ q t, t ∈ l.ids q → c.IsQueue q ∧ q < n
  nodup : ∀ q, (l.ids q).Nodup
  loc : ∀ q t, t ∈ l.ids q → l.loc t = q
  key : ∀ t : Int, 0 ≤ t → t < c.nthread → tab.key t = l.key t
  tailkey : ∀ q, c.IsQueue q → q < n → tab.key (quetail q) = MINKEY
  tailnext : ∀ q, c.IsQueue q → q < n → tab.next (quetail q) = EMPTY

namespace Represents
variable {c : Config} {n : Int} {tab : Quetab c} {l : Lists} {t q : Int}

theorem empty (c : Config) :
    Represents (c := c) c.nthread ⟨fun _ => ⟨0, 0, 0⟩⟩ ⟨fun _ => [], fun _ => 0, fun _ => 0⟩ := by
  have none : ∀ q, c.IsQueue q → ¬ q < c.nthread := by
    rintro q ⟨i, rfl, -⟩
    omega
  refine ⟨?_, by simp, by simp, by simp, by simp, fun _ _ _ => rfl, ?_, ?_⟩ <;>
    intro q isq low <;> exact absurd low (none q isq)

theorem full_nodup (h : Represents n tab l) (isq : c.IsQueue q) : (l.full q).Nodup := by
  obtain ⟨i, rfl, -⟩ := isq
  simp only [Lists.full, quehead, quetail, List.cons_append, List.nodup_cons, List.mem_append,
    List.mem_singleton, not_or]
  refine ⟨⟨fun member => ?_, by omega⟩, ?_⟩
  · have := (h.range _ _ member).2
    omega
  · refine List.nodup_append.mpr ⟨h.nodup _, by simp, ?_⟩
    intro x member y
    have := (h.range _ _ member).2
    simp only [List.mem_singleton]
    omega

theorem off_full (isq : c.IsQueue q) (low : t < c.nthread) (off : t ∉ l.ids q) :
    t ∉ l.full q := by
  obtain ⟨i, rfl, -⟩ := isq
  simp only [Lists.full, quehead, quetail, List.cons_append, List.mem_cons, List.mem_append,
    List.not_mem_nil, or_false, not_or]
  exact ⟨by omega, off, by omega⟩

theorem full_disjoint (h : Represents n tab l) {q' x : Int} (isq : c.IsQueue q) (isq' : c.IsQueue q')
    (ne : q ≠ q') (hx : x ∈ l.full q) : x ∉ l.full q' := by
  obtain ⟨i, rfl, -⟩ := isq
  obtain ⟨j, rfl, -⟩ := isq'
  simp only [Lists.full, quehead, quetail, List.cons_append, List.mem_cons, List.mem_append,
    List.not_mem_nil, or_false] at hx ⊢
  rintro (eq | member | eq) <;> rcases hx with eq' | member' | eq'
  · omega
  · have := (h.range _ _ member').2; omega
  · omega
  · have := (h.range _ _ member).2; omega
  · exact ne ((h.loc _ _ member').symm.trans (h.loc _ _ member))
  · have := (h.range _ _ member).2; omega
  · omega
  · have := (h.range _ _ member').2; omega
  · omega

theorem firstid (h : Represents n tab l) (isq : c.IsQueue q) (low : q < n) :
    tab.next (quehead q) = (l.ids q).headD (quetail q) :=
  (h.linked q isq low).next_head

theorem congr (h : Represents n tab l) {tab' : Quetab c} (hn : ∀ i, tab'.next i = tab.next i)
    (hp : ∀ i, tab'.prev i = tab.prev i) (hk : ∀ i, tab'.key i = tab.key i) : Represents n tab' l := by
  refine { h with linked := ?_, key := ?_, tailkey := ?_, tailnext := ?_ }
  · intro q isq low
    exact (h.linked q isq low).frame (fun x _ => hn x) (fun x _ => hp x)
  · intro t lo hi
    rw [hk, h.key t lo hi]
  · intro q isq low
    rw [hk, h.tailkey q isq low]
  · intro q isq low
    rw [hn, h.tailnext q isq low]

theorem setKey (h : Represents n tab l) {v : Int} (hi : t < c.nthread) :
    Represents n (tab.setKey t v) (l.setKey t v) := by
  refine { h with linked := ?_, key := ?_, tailkey := ?_, tailnext := ?_ }
  · intro q isq low
    refine (h.linked q isq low).frame ?_ ?_ <;> intro x _ <;> simp
  · intro u lo' hi'
    by_cases this : u = t
    · simp [Lists.setKey, this]
    · simp [Lists.setKey, this, h.key u lo' hi']
  · intro q isq low
    simp [isq.tail_ne hi, h.tailkey q isq low]
  · intro q isq low
    simp [h.tailnext q isq low]

theorem link (h : Represents n tab l) (isq : c.IsQueue q) (low : q < n) (lo : 0 ≤ t) (hi : t < c.nthread)
    (off : ∀ q, t ∉ l.ids q) {xs ys pre post : List Int} {a b : Int} {tab' : Quetab c}
    (ids : l.ids q = xs ++ ys) (left : quehead q :: xs = pre ++ [a])
    (right : ys ++ [quetail q] = b :: post)
    (hn : ∀ x, tab'.next x = if x = a then t else if x = t then b else tab.next x)
    (hp : ∀ x, tab'.prev x = if x = b then t else if x = t then a else tab.prev x)
    (hk : ∀ x, tab'.key x = tab.key x) :
    Represents n tab' (l.put t q (xs ++ t :: ys)) := by
  have nodup := h.full_nodup isq
  have fresh := off_full isq hi (off q)
  have split : l.full q = pre ++ a :: b :: post := by
    rw [Lists.full, ids, ← List.cons_append, left, List.append_assoc, right]
    simp
  have split' : quehead q :: (xs ++ t :: ys) ++ [quetail q] = pre ++ a :: t :: b :: post := by
    rw [← List.cons_append, left, List.append_assoc, List.cons_append, right]
    simp
  have perm : (xs ++ t :: ys).Perm (t :: l.ids q) := by
    rw [ids]
    exact List.perm_middle
  have ta : t ≠ a := fun eq => fresh (by simp [split, eq])
  have tb : t ≠ b := fun eq => fresh (by simp [split, eq])
  refine ⟨?_, ?_, ?_, ?_, ?_, ?_, ?_, ?_⟩
  · intro q' isq' low'
    by_cases same : q' = q
    · subst same
      have old := h.linked q' isq' low'
      rw [split] at old nodup fresh
      have new : Linked tab'.next tab'.prev (pre ++ a :: t :: b :: post) := old.insert nodup fresh
        (by simp [hn]) (by simp [hn, ta]) (by simp [hp]) (by simp [hp, tb])
        (fun x xa xt => by simp [hn, xa, xt]) (fun x xb xt => by simp [hp, xb, xt])
      rw [← split'] at new
      simpa [Lists.full, Lists.put] using new
    · have inA : a ∈ l.full q := by simp [split]
      have inB : b ∈ l.full q := by simp [split]
      have offT := off_full isq' hi (off q')
      have keep : (l.put t q (xs ++ t :: ys)).full q' = l.full q' := by simp [Lists.full, Lists.put, same]
      rw [keep]
      refine (h.linked q' isq' low').frame ?_ ?_
      · intro x member
        have xa : x ≠ a := fun eq => h.full_disjoint isq isq' (Ne.symm same) inA (eq ▸ member)
        have xt : x ≠ t := fun eq => offT (eq ▸ member)
        simp [hn, xa, xt]
      · intro x member
        have xb : x ≠ b := fun eq => h.full_disjoint isq isq' (Ne.symm same) inB (eq ▸ member)
        have xt : x ≠ t := fun eq => offT (eq ▸ member)
        simp [hp, xb, xt]
  · intro q' u member
    by_cases same : q' = q
    · subst same
      simp only [Lists.put, Function.update_self, perm.mem_iff, List.mem_cons] at member
      rcases member with rfl | member
      · exact ⟨lo, hi⟩
      · exact h.range _ _ member
    · simp only [Lists.put, Function.update_of_ne same] at member
      exact h.range _ _ member
  · intro q' u member
    by_cases same : q' = q
    · exact same ▸ ⟨isq, low⟩
    · simp only [Lists.put, Function.update_of_ne same] at member
      exact h.queue _ _ member
  · intro q'
    by_cases same : q' = q
    · subst same
      simp only [Lists.put, Function.update_self]
      exact perm.nodup_iff.mpr (List.nodup_cons.mpr ⟨off q', h.nodup q'⟩)
    · simpa only [Lists.put, Function.update_of_ne same] using h.nodup q'
  · intro q' u member
    by_cases this : u = t
    · subst this
      by_cases same : q' = q
      · simp [Lists.put, same]
      · simp only [Lists.put, Function.update_of_ne same] at member
        exact absurd member (off q')
    · by_cases same : q' = q
      · subst same
        simp only [Lists.put, Function.update_self, perm.mem_iff, List.mem_cons, this,
          false_or] at member
        simpa [Lists.put, this] using h.loc q' u member
      · simp only [Lists.put, Function.update_of_ne same] at member
        simpa [Lists.put, this] using h.loc q' u member
  · intro u lo' hi'
    rw [hk, h.key u lo' hi']
    rfl
  · intro q' isq' low'
    rw [hk, h.tailkey q' isq' low']
  · intro q' isq' low'
    have ta' : quetail q' ≠ a := by
      have member : a ∈ quehead q :: xs := by simp [left]
      rcases List.mem_cons.mp member with eq | member
      · exact fun eq' => isq'.tail_ne_head isq (eq'.trans eq)
      · exact isq'.tail_ne (h.range q a (by simp [ids, member])).2
    simp [hn, ta', isq'.tail_ne hi, h.tailnext q' isq' low']

theorem enqueue (h : Represents n tab l) (isq : c.IsQueue q) (low : q < n) (lo : 0 ≤ t)
    (hi : t < c.nthread) (off : ∀ q, t ∉ l.ids q) : Represents n (tab.enqueue t q) (l.enqueue t q) := by
  obtain ⟨pre, a, left⟩ : ∃ pre a, quehead q :: l.ids q = pre ++ [a] :=
    ⟨_, _, (List.dropLast_append_getLast (List.cons_ne_nil _ _)).symm⟩
  have before : tab.prev (quetail q) = a := by
    have linked := h.linked q isq low
    rw [Lists.full, left, List.append_assoc] at linked
    exact linked.adjacent.2
  refine h.link isq low lo hi off (show l.ids q = l.ids q ++ [] by simp) left
    (show [] ++ [quetail q] = quetail q :: [] from rfl) ?_ ?_ ?_
  · intro x
    simp only [Quetab.enqueue, Quetab.setPrev_next, Quetab.setNext_next]
    change (if x = tab.prev (quetail q) then t else _) = _
    rw [before]
  · intro x
    simp only [Quetab.enqueue, Quetab.setPrev_prev, Quetab.setNext_prev]
    change (if x = quetail q then t else if x = t then tab.prev (quetail q) else _) = _
    rw [before]
  · intro x
    simp [Quetab.enqueue]

theorem getitem (h : Represents n tab l) (on : t ∈ l.ids q) : Represents n (tab.getitem t) (l.getitem t) := by
  obtain ⟨isq, low⟩ := h.queue q t on
  obtain ⟨xs, ys, ids⟩ := List.append_of_mem on
  obtain ⟨pre, a, left⟩ : ∃ pre a, quehead q :: xs = pre ++ [a] :=
    ⟨_, _, (List.dropLast_append_getLast (List.cons_ne_nil _ _)).symm⟩
  obtain ⟨b, post, right⟩ : ∃ b post, ys ++ [quetail q] = b :: post := by
    cases ys with
    | nil => exact ⟨_, _, rfl⟩
    | cons y ys => exact ⟨_, _, rfl⟩
  have split : l.full q = pre ++ a :: t :: b :: post := by
    rw [Lists.full, ids, ← List.cons_append, left, List.append_assoc, List.cons_append, right]
    simp
  have linked := h.linked q isq low
  have nodup := h.full_nodup isq
  rw [split] at linked nodup
  have before : tab.prev t = a := linked.adjacent.2
  have after : tab.next t = b := by
    have shifted : Linked tab.next tab.prev ((pre ++ [a]) ++ t :: b :: post) := by
      simpa using linked
    exact shifted.adjacent.1
  have apart : a ≠ b ∧ t ≠ a ∧ t ≠ b := by
    have := nodup.sublist (List.sublist_append_right pre _)
    simp only [List.nodup_cons, List.mem_cons, not_or] at this
    exact ⟨this.1.2.1, fun eq => this.1.1 eq.symm, this.2.1.1⟩
  have hn : ∀ x, x ≠ t → (tab.getitem t).next x = if x = a then b else tab.next x := by
    intro x xt
    simp only [Quetab.getitem, Quetab.setPrev_next, Quetab.setNext_next, xt, if_false]
    change (if x = tab.prev t then tab.next t else _) = _
    rw [before, after]
  have hp : ∀ x, x ≠ t → (tab.getitem t).prev x = if x = b then a else tab.prev x := by
    intro x xt
    simp only [Quetab.getitem, Quetab.setPrev_prev, Quetab.setNext_prev, xt, if_false]
    change (if x = tab.next t then tab.prev t else _) = _
    rw [before, after]
  have hk : ∀ x, (tab.getitem t).key x = tab.key x := by
    intro x
    simp [Quetab.getitem]
  have elsewhere : ∀ q', q' ≠ q → t ∉ l.ids q' := fun q' ne member =>
    ne ((h.loc q' t member).symm.trans (h.loc q t on))
  refine ⟨?_, ?_, ?_, ?_, ?_, ?_, ?_, ?_⟩
  · intro q' isq' low'
    by_cases same : q' = q
    · subst same
      have removed : (l.getitem t).full q' = pre ++ a :: b :: post := by
        have fresh : t ∉ xs := by
          have := h.nodup q'
          rw [ids, List.nodup_append] at this
          exact fun member => this.2.2 t member t (by simp) rfl
        rw [Lists.full]
        simp only [Lists.getitem, ids, List.erase_append_right _ fresh, List.erase_cons_head]
        rw [← List.cons_append, left, List.append_assoc, right]
        simp
      rw [removed]
      refine linked.remove nodup ?_ ?_ ?_ ?_
      · simp [hn a (Ne.symm apart.2.1)]
      · simp [hp b (Ne.symm apart.2.2)]
      · intro x xa xt
        simp [hn x xt, xa]
      · intro x xb xt
        simp [hp x xt, xb]
    · have keep : (l.getitem t).full q' = l.full q' := by
        simp [Lists.full, Lists.getitem, List.erase_of_not_mem (elsewhere q' same)]
      have inA : a ∈ l.full q := by simp [split]
      have inB : b ∈ l.full q := by simp [split]
      have inT : t ∈ l.full q := by simp [split]
      rw [keep]
      refine (h.linked q' isq' low').frame ?_ ?_
      · intro x member
        have xa : x ≠ a := fun eq => h.full_disjoint isq isq' (Ne.symm same) inA (eq ▸ member)
        have xt : x ≠ t := fun eq => h.full_disjoint isq isq' (Ne.symm same) inT (eq ▸ member)
        simp [hn x xt, xa]
      · intro x member
        have xb : x ≠ b := fun eq => h.full_disjoint isq isq' (Ne.symm same) inB (eq ▸ member)
        have xt : x ≠ t := fun eq => h.full_disjoint isq isq' (Ne.symm same) inT (eq ▸ member)
        simp [hp x xt, xb]
  · exact fun q' u member => h.range q' u (List.mem_of_mem_erase member)
  · exact fun q' u member => h.queue q' u (List.mem_of_mem_erase member)
  · exact fun q' => (h.nodup q').erase t
  · exact fun q' u member => h.loc q' u (List.mem_of_mem_erase member)
  · intro u lo hi
    rw [hk, h.key u lo hi]
    rfl
  · intro q' isq' low'
    rw [hk, h.tailkey q' isq' low']
  · intro q' isq' low'
    have ta' : quetail q' ≠ a := by
      have member : a ∈ quehead q :: xs := by simp [left]
      rcases List.mem_cons.mp member with eq | member
      · exact fun eq' => isq'.tail_ne_head isq (eq'.trans eq)
      · exact isq'.tail_ne (h.range q a (by simp [ids, member])).2
    rw [hn _ (isq'.tail_ne (h.range q t on).2), if_neg ta', h.tailnext q' isq' low']

theorem clear (h : Represents n tab l) (hi : t < c.nthread) (off : ∀ q, t ∉ l.ids q) :
    Represents n (tab.clear t) l := by
  refine { h with linked := ?_, key := ?_, tailkey := ?_, tailnext := ?_ }
  · intro q isq low
    have fresh := off_full isq hi (off q)
    refine (h.linked q isq low).frame ?_ ?_ <;>
      · intro x member
        have xt : x ≠ t := fun eq => fresh (eq ▸ member)
        simp [Quetab.clear, xt]
  · intro u lo' hi'
    simp [Quetab.clear, h.key u lo' hi']
  · intro q isq low
    simp [Quetab.clear, h.tailkey q isq low]
  · intro q isq low
    simp [Quetab.clear, isq.tail_ne hi, h.tailnext q isq low]

theorem neighbours (h : Represents n tab l) (isq : c.IsQueue q) (low : q < n) {xs ys : List Int} {u : Int}
    (ids : l.ids q = xs ++ u :: ys) :
    tab.next u = ys.headD (quetail q) ∧ tab.key u = l.key u ∧ 0 ≤ u ∧ u < c.nthread := by
  have range := h.range q u (by simp [ids])
  refine ⟨?_, h.key u range.1 range.2, range⟩
  have linked := h.linked q isq low
  have split : l.full q = (quehead q :: xs) ++ (u :: ys ++ [quetail q]) := by
    simp [Lists.full, ids]
  rw [split] at linked
  exact linked.right.next_head

theorem insertScan (h : Represents n tab l) (isq : c.IsQueue q) (low : q < n) {key found : Int}
    {xs ys : List Int} {fuel : Nat} (ids : l.ids q = xs ++ ys)
    (scan : tab.insertScan key fuel (ys.headD (quetail q)) = some found) :
    found = (ys.dropWhile (key ≤ l.key ·)).headD (quetail q) := by
  induction ys generalizing xs fuel with
  | nil =>
      cases fuel with
      | zero => simp [Quetab.insertScan] at scan
      | succ fuel =>
          rw [Quetab.insertScan] at scan
          split at scan
          · cases scan
          split at scan
          · -- past the tail the scan is at `EMPTY`
            have past : (tab.ent (([] : List Int).headD (quetail q))).next = EMPTY :=
              h.tailnext q isq low
            rw [past] at scan
            cases fuel <;> simp [Quetab.insertScan] at scan
          · simpa using scan.symm
  | cons y ys ih =>
      obtain ⟨next, keyEq, lo, hi⟩ := h.neighbours isq low ids
      cases fuel with
      | zero => simp [Quetab.insertScan] at scan
      | succ fuel =>
          rw [List.headD_cons, Quetab.insertScan] at scan
          simp only [show (tab.ent y).next = _ from next, show (tab.ent y).key = _ from keyEq] at scan
          by_cases outside : y < 0 ∨ y ≥ c.nqent
          · simp [outside] at scan
          · rw [if_neg outside] at scan
            by_cases ge : l.key y ≥ key
            · rw [if_pos ge] at scan
              have passed := ih (show l.ids q = (xs ++ [y]) ++ ys by simp [ids]) scan
              simpa [ge] using passed
            · rw [if_neg ge] at scan
              simpa [ge] using scan.symm

theorem insert (h : Represents n tab l) (isq : c.IsQueue q) (low : q < n) (lo : 0 ≤ t)
    (hi : t < c.nthread) (off : ∀ q, t ∉ l.ids q) {key : Int} {tab' : Quetab c}
    (eq : tab.insert t q key = some tab') : Represents n tab' (l.insert t q key) := by
  simp only [Quetab.insert, Option.map_eq_some_iff] at eq
  obtain ⟨found, scan, rfl⟩ := eq
  have first : (tab.ent (quehead q)).next = (l.ids q).headD (quetail q) := h.firstid isq low
  rw [first] at scan
  have position := h.insertScan isq low (show l.ids q = [] ++ l.ids q from rfl) scan
  obtain ⟨xs, xsEq⟩ : ∃ xs, xs = (l.ids q).takeWhile (key ≤ l.key ·) := ⟨_, rfl⟩
  obtain ⟨ys, ysEq⟩ : ∃ ys, ys = (l.ids q).dropWhile (key ≤ l.key ·) := ⟨_, rfl⟩
  have ids : l.ids q = xs ++ ys := by rw [xsEq, ysEq, List.takeWhile_append_dropWhile]
  obtain ⟨pre, a, left⟩ : ∃ pre a, quehead q :: xs = pre ++ [a] :=
    ⟨_, _, (List.dropLast_append_getLast (List.cons_ne_nil _ _)).symm⟩
  obtain ⟨post, right⟩ : ∃ post, ys ++ [quetail q] = found :: post := by
    rw [position, ← ysEq]
    cases ys with
    | nil => exact ⟨_, rfl⟩
    | cons y ys => exact ⟨_, rfl⟩
  have before : tab.prev found = a := by
    have linked := h.linked q isq low
    rw [Lists.full, ids, ← List.cons_append, left, List.append_assoc, right,
      List.append_assoc] at linked
    exact linked.adjacent.2
  have keyless : Represents n ((((tab.setNext t found).setPrev t a).setNext a t).setPrev found t)
      (l.put t q (xs ++ t :: ys)) :=
    h.link isq low lo hi off ids left right (by intro x; simp) (by intro x; simp) (by intro x; simp)
  have keyed := keyless.setKey (t := t) (v := key) hi
  rw [Lists.insert, ← xsEq, ← ysEq]
  refine keyed.congr ?_ ?_ ?_ <;> intro i
  · simp only [Quetab.setPrev_next, Quetab.setNext_next, Quetab.setKey_next]
    change (if i = (tab.setNext t found).prev found then t else _) = _
    rw [Quetab.setNext_prev, before]
  · simp only [Quetab.setPrev_prev, Quetab.setNext_prev, Quetab.setKey_prev]
    change (if i = found then t else if i = t then (tab.setNext t found).prev found else _) = _
    rw [Quetab.setNext_prev, before]
  · simp

theorem insertdScan (h : Represents n tab l) (isq : c.IsQueue q) (low : q < n) {key : Int}
    {xs ys pre : List Int} {fuel : Nat} {a prev next rest : Int} (ids : l.ids q = xs ++ ys)
    (left : quehead q :: xs = pre ++ [a])
    (scan : tab.insertdScan (quetail q) fuel a (ys.headD (quetail q)) key = some (prev, next, rest)) :
    (∃ pre, quehead q :: xs ++ (Lib.deltaSplit l.key key ys).1 = pre ++ [prev]) ∧
      rest = (Lib.deltaSplit l.key key ys).2.1 ∧
      next = (Lib.deltaSplit l.key key ys).2.2.headD (quetail q) := by
  induction ys generalizing xs pre fuel a key with
  | nil =>
      cases fuel with
      | zero => simp [Quetab.insertdScan] at scan
      | succ fuel =>
          simp only [Quetab.insertdScan, List.headD_nil, ne_eq, not_true_eq_false, and_false,
            if_false, Option.some.injEq, Prod.mk.injEq] at scan
          obtain ⟨rfl, rfl, rfl⟩ := scan
          exact ⟨⟨pre, by simpa [Lib.deltaSplit] using left⟩, rfl, rfl⟩
  | cons y ys ih =>
      obtain ⟨after, keyEq, lo, hi⟩ := h.neighbours isq low ids
      have tail : y ≠ quetail q := Ne.symm (isq.tail_ne hi)
      cases fuel with
      | zero => simp [Quetab.insertdScan] at scan
      | succ fuel =>
          rw [List.headD_cons, Quetab.insertdScan] at scan
          simp only [show (tab.ent y).next = _ from after, show (tab.ent y).key = _ from keyEq] at scan
          by_cases le : l.key y ≤ key
          · rw [if_pos ⟨le, tail⟩] at scan
            have passed := ih (show l.ids q = (xs ++ [y]) ++ ys by simp [ids])
              (show quehead q :: (xs ++ [y]) = (quehead q :: xs) ++ [y] by simp) scan
            simpa [Lib.deltaSplit, le] using passed
          · rw [if_neg (fun both => le both.1)] at scan
            simp only [Option.some.injEq, Prod.mk.injEq] at scan
            obtain ⟨rfl, rfl, rfl⟩ := scan
            exact ⟨⟨pre, by simpa [Lib.deltaSplit, le] using left⟩, by simp [Lib.deltaSplit, le],
              by simp [Lib.deltaSplit, le]⟩

theorem insertd (h : Represents n tab l) (isq : c.IsQueue q) (low : q < n) (lo : 0 ≤ t)
    (hi : t < c.nthread) (off : ∀ q, t ∉ l.ids q) {key : Int} {tab' : Quetab c}
    (eq : tab.insertd t q key = some tab') : Represents n tab' (l.insertd t q key) := by
  simp only [Quetab.insertd, Option.map_eq_some_iff] at eq
  obtain ⟨⟨prev, next, rest⟩, scan, rfl⟩ := eq
  have first : (tab.ent (quehead q)).next = (l.ids q).headD (quetail q) := h.firstid isq low
  rw [first] at scan
  obtain ⟨⟨pre, left⟩, restEq, nextEq⟩ := h.insertdScan isq low
    (show l.ids q = [] ++ l.ids q from rfl) (show quehead q :: [] = [] ++ [quehead q] from rfl) scan
  have ids := (Lib.deltaSplit_append l.key key (l.ids q)).symm
  rw [Lists.insertd]
  obtain ⟨⟨xs, r, ys⟩, splitEq⟩ : ∃ s, s = Lib.deltaSplit l.key key (l.ids q) := ⟨_, rfl⟩
  rw [← splitEq] at left restEq nextEq ids ⊢
  simp only [List.cons_append, List.nil_append] at left restEq nextEq ids ⊢
  subst restEq
  have right : ∃ post, ys ++ [quetail q] = next :: post := by
    rw [nextEq]
    cases ys with
    | nil => exact ⟨_, rfl⟩
    | cons y ys => exact ⟨_, rfl⟩
  obtain ⟨post, right⟩ := right
  have keyless : Represents n ((((tab.setNext t next).setPrev t prev).setNext prev t).setPrev next t)
      (l.put t q (xs ++ t :: ys)) :=
    h.link isq low lo hi off ids left right (by intro x; simp) (by intro x; simp) (by intro x; simp)
  have keyed : Represents n (((((tab.setNext t next).setPrev t prev).setKey t rest).setNext prev t).setPrev
      next t) ((l.put t q (xs ++ t :: ys)).setKey t rest) := by
    refine (keyless.setKey (t := t) (v := rest) hi).congr ?_ ?_ ?_ <;> intro i <;> simp
  cases ys with
  | nil =>
      simp only [List.headD_nil] at nextEq
      simpa [nextEq] using keyed
  | cons y ys =>
      simp only [List.headD_cons] at nextEq
      subst nextEq
      obtain ⟨-, keyEq, ylo, yhi⟩ := h.neighbours isq low ids
      have tail : next ≠ quetail q := Ne.symm (isq.tail_ne yhi)
      have keyNext := keyed.key next ylo yhi
      simp only [if_pos tail]
      change Represents n (Quetab.setKey _ next (Quetab.key _ next - rest)) _
      rw [keyNext]
      exact keyed.setKey yhi

theorem nextid (h : Represents n tab l) (on : t ∈ l.ids q) :
    tab.next t = ((l.ids (l.loc t)).dropWhile (· ≠ t)).tail.headD (quetail (l.loc t)) := by
  obtain ⟨isq, low⟩ := h.queue q t on
  obtain ⟨xs, ys, ids⟩ := List.append_of_mem on
  have fresh : ∀ x ∈ xs, x ≠ t := by
    have := h.nodup q
    rw [ids, List.nodup_append] at this
    exact fun x member => this.2.2 x member t (by simp)
  have suffix : (l.ids q).dropWhile (· ≠ t) = t :: ys := by
    rw [ids, List.dropWhile_append_of_pos (by simpa using fresh)]
    simp
  rw [h.loc q t on, suffix, (h.neighbours isq low ids).1]
  rfl

theorem queinit (h : Represents n tab l) (shape : ∃ i : Nat, n = c.nthread + 2 * i) :
    Represents (n + 2) (tab.queinit n) { l with ids := Function.update l.ids n [] } := by
  obtain ⟨i, nEq⟩ := shape
  have empty : l.ids n = [] := by
    refine List.eq_nil_iff_forall_not_mem.mpr fun t member => ?_
    have := (h.queue n t member).2
    omega
  have same : { l with ids := Function.update l.ids n [] } = l := by
    cases l
    simp only [Lists.mk.injEq, and_true]
    rw [← empty, Function.update_eq_self]
  have keep : ∀ x, x ≠ n → x ≠ n + 1 → (tab.queinit n).next x = tab.next x ∧
      (tab.queinit n).prev x = tab.prev x ∧ (tab.queinit n).key x = tab.key x := by
    intro x xn xn'
    simp [Quetab.queinit, quehead, quetail, xn, xn']
  have older : ∀ q, c.IsQueue q → q < n + 2 → q = n ∨ q + 1 < n := by
    rintro q ⟨j, rfl, -⟩ low
    omega
  have fresh : (tab.queinit n).next n = n + 1 ∧ (tab.queinit n).prev (n + 1) = n ∧
      (tab.queinit n).key (n + 1) = MINKEY ∧ (tab.queinit n).next (n + 1) = EMPTY := by
    have apart : n ≠ n + 1 := by omega
    simp [Quetab.queinit, quehead, quetail, apart]
  rw [same]
  refine ⟨?_, h.range, ?_, h.nodup, h.loc, ?_, ?_, ?_⟩
  · intro q isq low
    rcases older q isq low with rfl | low'
    · rw [Lists.full, empty]
      exact List.isChain_cons_cons.mpr ⟨⟨fresh.1, fresh.2.1⟩, .singleton _⟩
    · have below : ∀ x ∈ l.full q, x ≠ n ∧ x ≠ n + 1 := by
        intro x member
        simp only [Lists.full, quehead, quetail, List.cons_append, List.mem_cons, List.mem_append,
          List.not_mem_nil, or_false] at member
        rcases member with rfl | member | rfl
        · omega
        · have := (h.range q x member).2; omega
        · omega
      refine (h.linked q isq (by omega)).frame ?_ ?_ <;> intro x member
      · exact (keep x (below x member).1 (below x member).2).1
      · exact (keep x (below x member).1 (below x member).2).2.1
  · intro q t member
    have := h.queue q t member
    exact ⟨this.1, by omega⟩
  · intro t lo hi
    rw [(keep t (by omega) (by omega)).2.2, h.key t lo hi]
  · intro q isq low
    rcases older q isq low with rfl | low'
    · exact fresh.2.2.1
    · rw [quetail, (keep (q + 1) (by omega) (by omega)).2.2]
      exact h.tailkey q isq (by omega)
  · intro q isq low
    rcases older q isq low with rfl | low'
    · exact fresh.2.2.2
    · rw [quetail, (keep (q + 1) (by omega) (by omega)).1]
      exact h.tailnext q isq (by omega)

end Represents

end Xinu
