import Xinu.System.Qsort
import Mathlib.Data.List.Perm.Basic

namespace Xinu.Qsort
open Lib (Byte)

section
variable {σ : Type} (compar : Compar σ) {size : Nat}

def Sized (size : Nat) (l : List (List Byte)) : Prop := ∀ a ∈ l, a.length = size

def elements (size : Nat) : Nat → List Byte → List (List Byte)
  | 0, _ => []
  | nmemb + 1, mem => mem.take size :: elements size nmemb (mem.drop size)

theorem Sized.flatten_length {l : List (List Byte)} (sized : Sized size l) : l.flatten.length = l.length * size := by
  induction l with
  | nil => exact (Nat.zero_mul size).symm
  | cons a l ih =>
      rw [List.flatten_cons, List.length_append, ih fun b member => sized b (.tail _ member), sized a (.head _),
        List.length_cons, Nat.succ_mul, Nat.add_comm]

theorem Sized.perm {l l' : List (List Byte)} (sized : Sized size l) (perm : l'.Perm l) : Sized size l' :=
  fun a member => sized a (perm.mem_iff.mp member)

theorem Sized.append {l l' : List (List Byte)} : Sized size (l ++ l') ↔ Sized size l ∧ Sized size l' :=
  List.forall_mem_append

theorem elements_flatten {l : List (List Byte)} (sized : Sized size l) : elements size l.length l.flatten = l := by
  induction l with
  | nil => rfl
  | cons a l ih =>
      have first : a.length = size := sized a (.head _)
      rw [List.flatten_cons, List.length_cons, elements, List.take_left' first, List.drop_left' first,
        ih fun b member => sized b (.tail _ member)]

theorem elements_spec {nmemb : Nat} {mem : List Byte} (whole : mem.length = nmemb * size) :
    Sized size (elements size nmemb mem) ∧ (elements size nmemb mem).flatten = mem ∧
      (elements size nmemb mem).length = nmemb := by
  induction nmemb generalizing mem with
  | zero =>
      rw [Nat.zero_mul] at whole
      exact ⟨List.forall_mem_nil _, (List.length_eq_zero_iff.mp whole).symm, rfl⟩
  | succ nmemb ih =>
      rw [Nat.add_mul, Nat.one_mul] at whole
      obtain ⟨sized, flat, count⟩ := @ih (mem.drop size) (by rw [List.length_drop]; omega)
      refine ⟨List.forall_mem_cons.mpr ⟨?_, sized⟩, ?_, congrArg Nat.succ count⟩
      · rw [List.length_take]
        omega
      · rw [elements, List.flatten_cons, flat, List.take_append_drop]

theorem getElem?_behind (pre : List Byte) (x : Byte) (rest : List Byte) : (pre ++ x :: rest)[pre.length]? = some x := by
  rw [List.getElem?_append_right (Nat.le_refl _), Nat.sub_self]
  rfl

theorem set_behind (pre : List Byte) (x y : Byte) (rest : List Byte) :
    (pre ++ x :: rest).set pre.length y = pre ++ y :: rest := by
  rw [List.set_append_right _ _ (Nat.le_refl _), Nat.sub_self]
  rfl

theorem swap_apart {pre mid post a b : List Byte} (same : a.length = b.length) :
    swap_elements pre.length (pre.length + a.length + mid.length) a.length (pre ++ (a ++ (mid ++ (b ++ post)))) =
      some (pre ++ (b ++ (mid ++ (a ++ post)))) := by
  induction a generalizing pre mid b with
  | nil =>
      obtain rfl : b = [] := List.length_eq_zero_iff.mp same.symm
      rfl
  | cons x a ih =>
      cases b with
      | nil => exact nomatch same
      | cons y b =>
          have shorter : a.length = b.length := Nat.succ.inj same
          have next := @ih (pre ++ [y]) (mid ++ [x]) b shorter
          -- the place of the second byte
          have place (z : Byte) : (pre ++ z :: (a ++ mid)).length = pre.length + (a.length + 1) + mid.length := by
            rw [List.length_append, List.length_cons, List.length_append]
            omega
          have regroup (z w : Byte) : pre ++ (z :: a ++ (mid ++ (w :: b ++ post))) =
              (pre ++ z :: (a ++ mid)) ++ w :: (b ++ post) := by
            simp only [List.append_assoc, List.cons_append]
          have second : (pre ++ (x :: a ++ (mid ++ (y :: b ++ post))))[pre.length + (a.length + 1) + mid.length]? = some y := by
            rw [regroup, ← place x]
            exact getElem?_behind _ _ _
          have stored : ((pre ++ (x :: a ++ (mid ++ (y :: b ++ post)))).set pre.length y).set
              (pre.length + (a.length + 1) + mid.length) x = pre ++ (y :: a ++ (mid ++ (x :: b ++ post))) := by
            rw [List.cons_append, set_behind, ← List.cons_append, regroup, ← place y, set_behind, ← regroup]
          rw [List.length_cons, swap_elements, second, List.cons_append, getElem?_behind, ← List.cons_append]
          simp only [stored]
          simp only [List.length_append, List.length_cons, List.length_nil, List.append_assoc, List.cons_append,
            List.nil_append] at next ⊢
          have forward : pre.length + (a.length + 1) + mid.length + 1 = pre.length + 1 + a.length + (mid.length + 1) := by omega
          rw [forward]
          exact next

theorem swap_same {mem : List Byte} {p n : Nat} (inside : p + n ≤ mem.length) : swap_elements p p n mem = some mem := by
  induction n generalizing p with
  | zero => rfl
  | succ n ih =>
      have here : mem[p]? = some mem[p] := List.getElem?_eq_getElem (by omega)
      rw [swap_elements, here]
      simp only [List.set_getElem_self]
      exact ih (by omega)

/-- The comparison function keeps no state and says whether an element is at most another one. -/
def Compares (compar : Compar σ) (size : Nat) (le : List Byte → List Byte → Prop) : Prop :=
  ∀ state p q mem, p + size ≤ mem.length → q + size ≤ mem.length →
    ((compar state p q mem).1 ≤ 0 ↔ le ((mem.drop p).take size) ((mem.drop q).take size))

/-- A total preorder on elements of `size` bytes. -/
structure Orders (size : Nat) (le : List Byte → List Byte → Prop) : Prop where
  total : ∀ a b, a.length = size → b.length = size → le a b ∨ le b a
  trans : ∀ a b c, a.length = size → b.length = size → c.length = size → le a b → le b c → le a c

theorem element_behind {pre a rest : List Byte} (length : a.length = size) :
    ((pre ++ (a ++ rest)).drop pre.length).take size = a := by
  rw [List.drop_left, List.take_left' length]

structure Sorted (le : List Byte → List Byte → Prop) (pivot : List Byte) (low high : List (List Byte)) : Prop where
  low : ∀ a ∈ low, le a pivot
  high : ∀ a ∈ high, ¬ le a pivot

def pass (pre post : List Byte) (state : σ) (size : Nat) (pivot : List Byte) (low rest high : List (List Byte)) : Pass σ where
  mem := pre ++ (pivot ++ (low.flatten ++ (rest.flatten ++ (high.flatten ++ post))))
  state := state
  p1 := pre.length + (low.length + 1) * size
  p2 := pre.length + (low.length + 1) * size + rest.length * size
  p1_index := low.length + 1

theorem body_pass (pre post : List Byte) (state : σ) {pivot : List Byte} {low rest high : List (List Byte)}
    (first : pivot.length = size) (lows : Sized size low) (rests : Sized size rest) (nonempty : rest ≠ []) :
    ∃ state' low' rest' high', partitionBody compar size pre.length (pass pre post state size pivot low rest high) =
        some (pass pre post state' size pivot low' rest' high') ∧
      rest'.length + 1 = rest.length ∧ (low' ++ (rest' ++ high')).Perm (low ++ (rest ++ high)) ∧
      ∀ le, Compares compar size le → Sorted le pivot low high → Sorted le pivot low' high' := by
  obtain ⟨a, rest, rfl⟩ := List.exists_cons_of_ne_nil nonempty
  have length : a.length = size := rests a (.head _)
  have before : (pre ++ (pivot ++ low.flatten)).length = pre.length + (low.length + 1) * size := by
    rw [List.length_append, List.length_append, first, lows.flatten_length, Nat.add_mul, Nat.one_mul]
    omega
  have swapped (c : List Byte) (between : List (List Byte)) (behind : List Byte) :
      pre ++ (pivot ++ (low.flatten ++ ((c :: between).flatten ++ behind))) =
        (pre ++ (pivot ++ low.flatten)) ++ (c ++ (between.flatten ++ behind)) := by
    simp only [List.flatten_cons, List.append_assoc]
  let mem := pre ++ (pivot ++ (low.flatten ++ ((a :: rest).flatten ++ (high.flatten ++ post))))
  have here : (mem.drop (pre.length + (low.length + 1) * size)).take size = a := by
    rw [show mem = _ from swapped _ _ _, ← before]
    exact element_behind length
  have there : (mem.drop pre.length).take size = pivot := element_behind first
  have room : pre.length + (low.length + 1) * size + size ≤ mem.length := by
    rw [show mem = _ from swapped _ _ _, List.length_append, before, List.length_append, length]
    omega
  have room' : pre.length + size ≤ mem.length := by
    rw [List.length_append, List.length_append, first]
    omega
  have ends : (pass pre post state size pivot low (a :: rest) high).p2 =
      pre.length + (low.length + 1) * size + rest.length * size + size := by
    simp only [pass, List.length_cons, Nat.add_mul, Nat.one_mul]
    omega
  unfold partitionBody
  rw [if_pos ⟨room, room'⟩]
  by_cases order : (compar state (pre.length + (low.length + 1) * size) pre.length mem).1 ≤ 0
  · refine ⟨(compar state (pre.length + (low.length + 1) * size) pre.length mem).2, low ++ [a], rest, high,
      (if_pos order).trans (congrArg some ?_), rfl, ?_, fun le compares sorted => ⟨?_, sorted.high⟩⟩
    · rw [Pass.mk.injEq, ends]
      refine ⟨?_, rfl, ?_, ?_, ?_⟩
      · simp only [pass, List.flatten_cons, List.flatten_append, List.flatten_nil, List.append_assoc, List.nil_append]
      · simp only [pass, List.length_append, List.length_cons, List.length_nil, Nat.add_mul, Nat.one_mul]
        omega
      · simp only [pass, List.length_append, List.length_cons, List.length_nil, Nat.add_mul, Nat.one_mul]
        omega
      · simp only [pass, List.length_append, List.length_cons, List.length_nil]
    · rw [List.append_assoc]
      exact .refl _
    · intro b member
      rcases List.mem_append.mp member with member | member
      · exact sorted.low b member
      · rw [List.mem_singleton.mp member]
        have smaller := (compares state _ _ mem room room').mp order
        rwa [here, there] at smaller
  · have larger {le : List Byte → List Byte → Prop} (compares : Compares compar size le) : ¬ le a pivot := by
      intro smaller
      apply order
      rw [compares state _ _ mem room room', here, there]
      exact smaller
    have outside : ¬ (pass pre post state size pivot low (a :: rest) high).p2 < size := by
      rw [ends]
      omega
    have back : (pass pre post state size pivot low (a :: rest) high).p2 - size =
        pre.length + (low.length + 1) * size + rest.length * size := by
      rw [ends, Nat.add_sub_cancel]
    refine ⟨(compar state (pre.length + (low.length + 1) * size) pre.length mem).2, low, ?_⟩
    rcases List.eq_nil_or_concat' rest with rfl | ⟨mid, b, rfl⟩
    · -- the element is the last one, and is swapped with itself
      refine ⟨[], a :: high, ?_, rfl, ?_, fun le compares sorted => ⟨sorted.low, ?_⟩⟩
      · refine (if_neg order).trans ((if_neg outside).trans ?_)
        rw [back, List.length_nil, Nat.zero_mul, Nat.add_zero]
        change Option.map _ (swap_elements (pre.length + (low.length + 1) * size) _ size mem) = _
        rw [swap_same room, Option.map_some, Option.some.injEq, Pass.mk.injEq]
        refine ⟨?_, rfl, rfl, ?_, rfl⟩
        · simp only [mem, pass, List.flatten_cons, List.flatten_nil, List.append_assoc, List.nil_append]
        · simp only [pass, List.length_nil, Nat.zero_mul, Nat.add_zero]
      · exact .refl _
      · exact List.forall_mem_cons.mpr ⟨larger compares, sorted.high⟩
    · have other : b.length = size := rests b (by simp)
      have mids : Sized size mid := fun c member => rests c (by simp [member])
      refine ⟨b :: mid, a :: high, ?_, ?_, ?_, fun le compares sorted => ⟨sorted.low, ?_⟩⟩
      · refine (if_neg order).trans ((if_neg outside).trans ?_)
        have place : pre.length + (low.length + 1) * size + (mid ++ [b]).length * size =
            (pre ++ (pivot ++ low.flatten)).length + a.length + mid.flatten.length := by
          simp only [before, length, mids.flatten_length, List.length_append, List.length_cons, List.length_nil, Nat.add_mul,
            Nat.one_mul]
          omega
        have split : mem = (pre ++ (pivot ++ low.flatten)) ++
            (a ++ (mid.flatten ++ (b ++ (high.flatten ++ post)))) := by
          simp only [mem, List.flatten_cons, List.flatten_append, List.flatten_nil, List.append_assoc, List.nil_append]
        have exchanged : swap_elements (pre.length + (low.length + 1) * size)
            (pre.length + (low.length + 1) * size + (mid ++ [b]).length * size) size mem =
            some ((pre ++ (pivot ++ low.flatten)) ++ (b ++ (mid.flatten ++ (a ++ (high.flatten ++ post))))) := by
          rw [place, ← before, split, ← length]
          exact swap_apart (length.trans other.symm)
        rw [back]
        change Option.map _ (swap_elements (pre.length + (low.length + 1) * size) _ size mem) = _
        rw [exchanged, Option.map_some, Option.some.injEq, Pass.mk.injEq]
        refine ⟨?_, rfl, rfl, ?_, rfl⟩
        · simp only [pass, List.flatten_cons, List.append_assoc]
        · simp only [pass, List.length_append, List.length_cons, List.length_nil]
      · simp only [List.length_cons, List.length_append, List.length_nil]
      · apply List.Perm.append_left
        have front : (b :: mid ++ a :: high).Perm (a :: (b :: mid ++ high)) := List.perm_middle
        exact front.trans (((List.perm_append_singleton b mid).symm.append_right high).cons a)
      · exact List.forall_mem_cons.mpr ⟨larger compares, sorted.high⟩

theorem loop_pass (pre post : List Byte) (state : σ) {pivot : List Byte} {low rest high : List (List Byte)}
    (first : pivot.length = size) (sized : Sized size (low ++ (rest ++ high))) (nonempty : rest ≠ []) {fuel : Nat}
    (enough : rest.length ≤ fuel) :
    ∃ state' low' rest' high', partitionLoop compar size pre.length fuel (pass pre post state size pivot low rest high) =
        some (pass pre post state' size pivot low' rest' high') ∧
      rest'.length * size = 0 ∧ (low' ++ (rest' ++ high')).Perm (low ++ (rest ++ high)) ∧
      ∀ le, Compares compar size le → Sorted le pivot low high → Sorted le pivot low' high' := by
  induction fuel generalizing state low rest high with
  | zero => exact absurd (List.length_eq_zero_iff.mp (Nat.le_zero.mp enough)) nonempty
  | succ fuel ih =>
      obtain ⟨lows, others⟩ := Sized.append.mp sized
      obtain ⟨state', low', rest', high', body, shorter, perm, sorts⟩ :=
        body_pass compar pre post state first lows (Sized.append.mp others).1 nonempty
      have met : (pass pre post state' size pivot low' rest' high').p1 = (pass pre post state' size pivot low' rest' high').p2 ↔
          rest'.length * size = 0 := by
        simp only [pass]
        omega
      rw [partitionLoop, body, Option.bind_some]
      by_cases stop : rest'.length * size = 0
      · rw [if_neg (not_not.mpr (met.mpr stop))]
        exact ⟨state', low', rest', high', rfl, stop, perm, sorts⟩
      · rw [if_pos fun same => stop (met.mp same)]
        have left : rest' ≠ [] := by
          rintro rfl
          exact stop (Nat.zero_mul size)
        obtain ⟨state₂, low₂, rest₂, high₂, loop, ended, perm₂, sorts₂⟩ :=
          ih state' (sized.perm perm) left (by omega)
        exact ⟨state₂, low₂, rest₂, high₂, loop, ended, perm₂.trans perm,
          fun le compares sorted => sorts₂ le compares (sorts le compares sorted)⟩

theorem swap_comm (p q n : Nat) (mem : List Byte) : swap_elements p q n mem = swap_elements q p n mem := by
  induction n generalizing p q mem with
  | zero => rfl
  | succ n ih =>
      rw [swap_elements, swap_elements]
      by_cases same : p = q
      · rw [same]
      · cases first : mem[p]? with
        | none => cases mem[q]? <;> rfl
        | some a =>
            cases second : mem[q]? with
            | none => rfl
            | some b =>
                simp only
                rw [ih, List.set_comm _ _ same]

theorem partition_spec (pre post : List Byte) (state : σ) {pivot : List Byte} {rest : List (List Byte)}
    (sized : Sized size (pivot :: rest)) (nonempty : rest ≠ []) :
    ∃ state' left a right, partition compar size pre.length (rest.length + 1) (pre ++ ((pivot :: rest).flatten ++ post)) state =
        some (pre ++ ((left ++ a :: right).flatten ++ post), state', left.length) ∧
      (left ++ a :: right).Perm (pivot :: rest) ∧
      ∀ le, Orders size le → Compares compar size le → (∀ b ∈ left, le b a) ∧ ∀ b ∈ right, le a b := by
  have first : pivot.length = size := sized pivot (.head _)
  have rests : Sized size ([] ++ (rest ++ [])) := by
    rw [List.nil_append, List.append_nil]
    exact fun a member => sized a (.tail _ member)
  obtain ⟨state', low, left, high, loop, ended, perm, sorts⟩ :=
    loop_pass compar pre post state first rests nonempty (Nat.le_succ rest.length)
  have begins : (⟨pre ++ ((pivot :: rest).flatten ++ post), state, pre.length + size, pre.length + (rest.length + 1) * size, 1⟩ :
      Pass σ) = pass pre post state size pivot [] rest [] := by
    rw [pass, Pass.mk.injEq]
    refine ⟨?_, rfl, ?_, ?_, rfl⟩
    · simp only [List.flatten_cons, List.flatten_nil, List.append_assoc, List.nil_append]
    · simp only [List.length_nil, Nat.zero_add, Nat.one_mul]
    · simp only [List.length_nil, Nat.zero_add, Nat.one_mul, Nat.add_mul]
      omega
  have lows : Sized size low := (Sized.append.mp (rests.perm perm)).1
  have inside : ¬ (pass pre post state' size pivot low left high).p1 < size := by
    simp only [pass, Nat.add_mul, Nat.one_mul]
    omega
  have back : (pass pre post state' size pivot low left high).p1 - size = pre.length + low.length * size := by
    simp only [pass, Nat.add_mul, Nat.one_mul]
    omega
  -- what is not left of the pivot is not less
  have above {le : List Byte → List Byte → Prop} (orders : Orders size le) (compares : Compares compar size le) :
      ∀ b ∈ left ++ high, le pivot b := by
    have sorted := sorts le compares ⟨List.forall_mem_nil _, List.forall_mem_nil _⟩
    intro b member
    have length : b.length = size := (rests.perm perm) b (List.mem_append_right _ member)
    rcases List.mem_append.mp member with member | member
    · have empty : size = 0 := (Nat.mul_eq_zero.mp ended).resolve_left (Nat.ne_of_gt (List.length_pos_of_mem member))
      rw [List.length_eq_zero_iff.mp (length.trans empty), List.length_eq_zero_iff.mp (first.trans empty)]
      exact (orders.total [] [] empty.symm empty.symm).elim id id
    · exact (orders.total pivot b first length).resolve_right (sorted.high b member)
  have below {le : List Byte → List Byte → Prop} (compares : Compares compar size le) : ∀ b ∈ low, le b pivot :=
    (sorts le compares ⟨List.forall_mem_nil _, List.forall_mem_nil _⟩).low
  unfold partition
  rw [begins, loop, Option.bind_some, if_neg inside, back]
  rcases List.eq_nil_or_concat' low with rfl | ⟨low, z, rfl⟩
  · -- no element goes before the pivot, which is swapped with itself
    refine ⟨state', [], pivot, left ++ high, ?_, ?_, fun le orders compares => ⟨List.forall_mem_nil _, above orders compares⟩⟩
    · rw [List.length_nil, Nat.zero_mul, Nat.add_zero, swap_same, Option.map_some, Option.some.injEq, Prod.mk.injEq]
      · refine ⟨?_, rfl⟩
        simp only [pass, List.flatten_cons, List.flatten_nil, List.flatten_append, List.append_assoc, List.nil_append]
      · simp only [pass, List.length_append, first]
        omega
    · rw [List.nil_append, List.append_nil] at perm
      exact perm.cons pivot
  · have other : z.length = size := lows z (by simp)
    have lows' : Sized size low := fun a member => lows a (by simp [member])
    refine ⟨state', z :: low, pivot, left ++ high, ?_, ?_, fun le orders compares => ⟨?_, above orders compares⟩⟩
    · have place : pre.length + (low ++ [z]).length * size = pre.length + pivot.length + low.flatten.length := by
        simp only [first, lows'.flatten_length, List.length_append, List.length_cons, List.length_nil, Nat.add_mul, Nat.one_mul,
          Nat.zero_add]
        omega
      have whole : (pass pre post state' size pivot (low ++ [z]) left high).mem =
          pre ++ (pivot ++ (low.flatten ++ (z ++ (left.flatten ++ (high.flatten ++ post))))) := by
        simp only [pass, List.flatten_append, List.flatten_cons, List.flatten_nil, List.append_assoc, List.nil_append]
      have exchanged : swap_elements (pre.length + (low ++ [z]).length * size) pre.length size
          (pass pre post state' size pivot (low ++ [z]) left high).mem =
          some (pre ++ (z ++ (low.flatten ++ (pivot ++ (left.flatten ++ (high.flatten ++ post)))))) := by
        rw [swap_comm, place, whole, ← first]
        exact swap_apart (first.trans other.symm)
      rw [exchanged, Option.map_some, Option.some.injEq, Prod.mk.injEq]
      refine ⟨?_, ?_⟩
      · simp only [List.flatten_append, List.flatten_cons, List.append_assoc]
      · simp only [pass, List.length_append, List.length_cons, List.length_nil, Nat.add_sub_cancel, Nat.zero_add]
    · rw [List.nil_append, List.append_nil] at perm
      have front : (z :: low ++ pivot :: (left ++ high)).Perm (pivot :: (z :: low ++ (left ++ high))) := List.perm_middle
      have moved : (z :: low ++ (left ++ high)).Perm rest :=
        ((List.perm_append_singleton z low).symm.append_right _).trans perm
      exact front.trans (moved.cons pivot)
    · intro b member
      apply below compares
      rw [List.mem_append, List.mem_singleton]
      rw [List.mem_cons] at member
      exact member.symm

theorem qsort_spec (pre post : List Byte) (state : σ) {l : List (List Byte)} (sized : Sized size l) {fuel : Nat}
    (enough : l.length < fuel) :
    ∃ (l' : List (List Byte)) (state' : σ), qsort compar size fuel pre.length l.length (pre ++ (l.flatten ++ post)) state =
        some (pre ++ (l'.flatten ++ post), state') ∧ l'.Perm l ∧
      ∀ le, Orders size le → Compares compar size le → l'.Pairwise le := by
  induction fuel generalizing pre post state l with
  | zero => exact absurd enough (Nat.not_lt_zero _)
  | succ fuel ih =>
      rw [qsort]
      match l with
      | [] => exact ⟨[], state, rfl, .refl _, fun _ _ _ => .nil⟩
      | [a] => exact ⟨[a], state, rfl, .refl _, fun _ _ _ => List.pairwise_singleton _ a⟩
      | pivot :: b :: rest =>
          obtain ⟨state₁, left, a, right, parted, perm, sides⟩ :=
            partition_spec compar pre post state sized (List.cons_ne_nil b rest)
          have sized' : Sized size (left ++ a :: right) := sized.perm perm
          obtain ⟨lefts, others⟩ := Sized.append.mp sized'
          have count := perm.length_eq
          rw [List.length_append, List.length_cons, List.length_cons, List.length_cons] at count
          rw [List.length_cons, List.length_cons] at enough
          have before : pre ++ ((left ++ a :: right).flatten ++ post) =
              pre ++ (left.flatten ++ (a ++ (right.flatten ++ post))) := by
            simp only [List.flatten_append, List.flatten_cons, List.append_assoc]
          obtain ⟨left', state₂, sorted_left, perm_left, order_left⟩ :=
            ih pre (a ++ (right.flatten ++ post)) state₁ lefts (by omega)
          have lefts' : Sized size left' := lefts.perm perm_left
          obtain ⟨right', state₃, sorted_right, perm_right, order_right⟩ :=
            ih (pre ++ (left'.flatten ++ a)) post state₂ (fun c member => others c (.tail _ member)) (by omega)
          have place : (pre ++ (left'.flatten ++ a)).length = pre.length + (left.length + 1) * size := by
            rw [List.length_append, List.length_append, lefts'.flatten_length, perm_left.length_eq, others a (.head _),
              Nat.add_mul, Nat.one_mul]
          have remain : (pivot :: b :: rest).length - (left.length + 1) = right.length := by
            rw [List.length_cons, List.length_cons]
            omega
          have regroup : pre ++ (left'.flatten ++ (a ++ (right.flatten ++ post))) =
              (pre ++ (left'.flatten ++ a)) ++ (right.flatten ++ post) := by
            simp only [List.append_assoc]
          refine ⟨left' ++ a :: right', state₃, ?_, ?_, fun le orders compares => ?_⟩
          · have many : (pivot :: b :: rest).length > 1 := by
              rw [List.length_cons, List.length_cons]
              omega
            rw [if_pos many]
            change (partition compar size pre.length ((b :: rest).length + 1) _ state).bind _ = _
            rw [parted, Option.bind_some, before]
            simp only
            rw [sorted_left, Option.bind_some]
            simp only
            rw [remain, ← place, regroup, sorted_right]
            simp only [List.flatten_append, List.flatten_cons, List.append_assoc]
          · exact (perm_left.append (perm_right.cons a)).trans perm
          · obtain ⟨below, above⟩ := sides le orders compares
            have lower : ∀ c ∈ left', le c a := fun c member => below c (perm_left.mem_iff.mp member)
            have upper : ∀ c ∈ right', le a c := fun c member => above c (perm_right.mem_iff.mp member)
            rw [List.pairwise_append, List.pairwise_cons]
            refine ⟨order_left le orders compares, ⟨upper, order_right le orders compares⟩, ?_⟩
            intro c low d member
            rcases List.mem_cons.mp member with rfl | high
            · exact lower c low
            · have middle : a.length = size := others a (.head _)
              have last : d.length = size := others d (.tail _ (perm_right.mem_iff.mp high))
              exact orders.trans c a d (lefts' c low) middle last (lower c low) (upper d high)

/-- Whatever the comparison function returns, the sort ends, stays in the array and keeps the elements; and they are
in order when it follows a total preorder. -/
theorem qsort_sorts (state : σ) {nmemb : Nat} {array : List Byte} (whole : array.length = nmemb * size) :
    ∃ (array' : List Byte) (state' : σ), qsort compar size (nmemb + 1) 0 nmemb array state = some (array', state') ∧
      array'.length = array.length ∧ (elements size nmemb array').Perm (elements size nmemb array) ∧
      ∀ le, Orders size le → Compares compar size le → (elements size nmemb array').Pairwise le := by
  obtain ⟨sized, flat, count⟩ := elements_spec whole
  obtain ⟨l, state', sorted, perm, order⟩ := qsort_spec compar [] [] state sized (Nat.lt_succ_self _)
  have sized' : Sized size l := sized.perm perm
  have count' : l.length = nmemb := perm.length_eq.trans count
  have elems : elements size nmemb l.flatten = l := by
    rw [← count']
    exact elements_flatten sized'
  rw [flat, count] at sorted
  simp only [List.nil_append, List.append_nil, List.length_nil] at sorted
  refine ⟨l.flatten, state', sorted, ?_, ?_, ?_⟩
  · rw [sized'.flatten_length, count', whole]
  · rw [elems]
    exact perm
  · rw [elems]
    exact order

end

def byteCompar : Compar Unit := fun _ p q mem => ((mem.getD p 0).toNat - (mem.getD q 0).toNat, ())

theorem byteCompar_compares : Compares byteCompar 1 fun a b => (a.headD 0).toNat ≤ (b.headD 0).toNat := by
  have byte (mem : List Byte) (p : Nat) : ((mem.drop p).take 1).headD 0 = mem.getD p 0 := by
    rw [List.headD_eq_head?_getD, List.head?_take, if_neg Nat.one_ne_zero, List.head?_drop]
    rfl
  intro _ p q mem _ _
  simp only [byte, byteCompar]
  omega

theorem qsort_sorts_bytes :
    ∃ array', qsort byteCompar 1 4 0 3 [3, 1, 2] () = some (array', ()) ∧ array' = [1, 2, 3] ∧
      (elements 1 3 array').Perm (elements 1 3 [3, 1, 2]) ∧
      (elements 1 3 array').Pairwise fun a b => (a.headD 0).toNat ≤ (b.headD 0).toNat := by
  obtain ⟨array', state', sorted, -, perm, order⟩ := qsort_sorts byteCompar () (show [3, 1, 2].length = 3 * 1 from rfl)
  have result : qsort byteCompar 1 4 0 3 [3, 1, 2] () = some ([1, 2, 3], ()) := by decide +kernel
  have same : array' = [1, 2, 3] := congrArg Prod.fst (Option.some.inj (sorted.symm.trans result))
  refine ⟨array', sorted, same, perm, order _ ⟨fun a b _ _ => ?_, fun a b c _ _ _ => ?_⟩ byteCompar_compares⟩
  · exact Nat.le_total _ _
  · exact Nat.le_trans

end Xinu.Qsort
