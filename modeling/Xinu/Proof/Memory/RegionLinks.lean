import Xinu.Lib.Doubly
import Xinu.System.Region

namespace Xinu.Regions
open Lib RegionList

variable {r r' : Regions} {list other : RegionList} {l pre post : List Nat} {a b t : Nat}

section
variable (r) (i n : Nat) (p : Option Nat)

@[simp] theorem setPrev_prev : (r.setPrev i p).prev = Function.update r.prev i p := by
  funext j
  simp only [setPrev, prev, Function.update_apply]
  split <;> rfl

@[simp] theorem setNext_next : (r.setNext i p).next = Function.update r.next i p := by
  funext j
  simp only [setNext, next, Function.update_apply]
  split <;> rfl

@[simp] theorem setLength_length : (r.setLength i n).length = Function.update r.length i n := by
  funext j
  simp only [setLength, length, Function.update_apply]
  split <;> rfl

theorem field_update {α : Type} (f : Memregion → α) (m : Memregion) (same : f m = f (r.regtab i)) :
    (fun j => f (Function.update r.regtab i m j)) = fun j => f (r.regtab j) := by
  funext j
  rw [Function.update_apply]
  split
  · subst j
    exact same
  · rfl

@[simp] theorem setPrev_next : (r.setPrev i p).next = r.next := field_update r i Memregion.next _ rfl
@[simp] theorem setPrev_start : (r.setPrev i p).start = r.start := field_update r i Memregion.start _ rfl
@[simp] theorem setPrev_length : (r.setPrev i p).length = r.length := field_update r i Memregion.length _ rfl
@[simp] theorem setPrev_threadId : (r.setPrev i p).threadId = r.threadId := field_update r i Memregion.threadId _ rfl
@[simp] theorem setPrev_head : (r.setPrev i p).head = r.head := rfl

@[simp] theorem setNext_prev : (r.setNext i p).prev = r.prev := field_update r i Memregion.prev _ rfl
@[simp] theorem setNext_start : (r.setNext i p).start = r.start := field_update r i Memregion.start _ rfl
@[simp] theorem setNext_length : (r.setNext i p).length = r.length := field_update r i Memregion.length _ rfl
@[simp] theorem setNext_threadId : (r.setNext i p).threadId = r.threadId := field_update r i Memregion.threadId _ rfl
@[simp] theorem setNext_head : (r.setNext i p).head = r.head := rfl

@[simp] theorem setLength_prev : (r.setLength i n).prev = r.prev := field_update r i Memregion.prev _ rfl
@[simp] theorem setLength_next : (r.setLength i n).next = r.next := field_update r i Memregion.next _ rfl
@[simp] theorem setLength_start : (r.setLength i n).start = r.start := field_update r i Memregion.start _ rfl
@[simp] theorem setLength_threadId : (r.setLength i n).threadId = r.threadId := field_update r i Memregion.threadId _ rfl
@[simp] theorem setLength_head : (r.setLength i n).head = r.head := rfl

@[simp] theorem setThreadId_prev : (r.setThreadId i n).prev = r.prev := field_update r i Memregion.prev _ rfl
@[simp] theorem setThreadId_next : (r.setThreadId i n).next = r.next := field_update r i Memregion.next _ rfl
@[simp] theorem setThreadId_start : (r.setThreadId i n).start = r.start := field_update r i Memregion.start _ rfl
@[simp] theorem setThreadId_length : (r.setThreadId i n).length = r.length := field_update r i Memregion.length _ rfl
@[simp] theorem setThreadId_head : (r.setThreadId i n).head = r.head := rfl

@[simp] theorem setHead_prev : (r.setHead list p).prev = r.prev := rfl
@[simp] theorem setHead_next : (r.setHead list p).next = r.next := rfl
@[simp] theorem setHead_start : (r.setHead list p).start = r.start := rfl
@[simp] theorem setHead_length : (r.setHead list p).length = r.length := rfl
@[simp] theorem setHead_threadId : (r.setHead list p).threadId = r.threadId := rfl
@[simp] theorem setHead_head : (r.setHead list p).head = Function.update r.head list p := rfl

end

structure Strung (r : Regions) (list : RegionList) (l : List Nat) : Prop where
  head : r.head list = l.head?
  links : Doubly r.next r.prev none l none
  nodup : l.Nodup

structure Relinked (r r' : Regions) (list : RegionList) (l : List Nat) : Prop where
  links : ∀ x, x ∉ l → r'.next x = r.next x ∧ r'.prev x = r.prev x
  head : ∀ other, other ≠ list → r'.head other = r.head other

structure Kept (r r' : Regions) : Prop where
  start : r'.start = r.start
  length : r'.length = r.length
  threadId : r'.threadId = r.threadId

theorem Strung.frame {l' : List Nat} (s : Strung r other l') (change : Relinked r r' list l) (apart : other ≠ list)
    (disjoint : ∀ x ∈ l', x ∉ l) : Strung r' other l' where
  head := (change.head other apart).trans s.head
  links := s.links.congr fun x member => change.links x (disjoint x member)
  nodup := s.nodup

theorem Strung.link (s : Strung r list (pre ++ post)) (fresh : t ∉ pre ++ post) (some : pre ++ post ≠ []) :
    Strung (r.link t list pre.getLast? post.head?) list (pre ++ t :: post) ∧
      Relinked r (r.link t list pre.getLast? post.head?) list (pre ++ t :: post) ∧
      Kept r (r.link t list pre.getLast? post.head?) := by
  have nodup : (pre ++ t :: post).Nodup := List.nodup_middle.mpr (List.nodup_cons.mpr ⟨fresh, s.nodup⟩)
  have out : ∀ x ∈ pre ++ post, x ≠ t := fun x member eq => fresh (eq ▸ member)
  cases post with
  | nil =>
      rcases List.eq_nil_or_concat pre with rfl | ⟨front, a, rfl⟩
      · exact absurd rfl some
      · have other : a ≠ t := out a (by simp)
        rw [List.concat_eq_append] at *
        rw [List.getLast?_concat, List.head?_nil, Regions.link, addAfter]
        refine ⟨⟨?_, ?_, nodup⟩, ⟨?_, fun _ _ => rfl⟩, ⟨by simp, by simp, by simp⟩⟩
        · show r.head list = _
          rw [s.head]
          cases front <;> rfl
        · refine s.links.insert s.nodup fresh ?_ ?_ ?_ nofun ?_ ?_
          · simp
          · simp
          · intro x last
            rw [List.getLast?_concat] at last
            cases last
            simp [other]
          · intro x fresh last
            rw [List.getLast?_concat] at last
            have : x ≠ a := fun eq => last (congrArg _ eq.symm)
            simp [this, fresh]
          · intro x fresh _
            simp [fresh]
        · intro x outside
          have : x ≠ a := fun eq => outside (by simp [eq])
          have : x ≠ t := fun eq => outside (by simp [eq])
          simp [*]
  | cons c post =>
      have before : r.prev c = pre.getLast? := by
        have eq := s.links.prev_eq
        rwa [Option.or_none] at eq
      have other : c ≠ t := out c (by simp)
      rw [List.head?_cons]
      show Strung (r.addBefore t c list) _ _ ∧ Relinked r (r.addBefore t c list) _ _ ∧ Kept r (r.addBefore t c list)
      rcases List.eq_nil_or_concat pre with rfl | ⟨front, a, rfl⟩
      · have none : r.prev c = none := before
        rw [addBefore]
        simp only [setPrev_prev, setNext_prev, Function.update_of_ne other, none]
        refine ⟨⟨?_, ?_, nodup⟩, ⟨?_, ?_⟩, ⟨by simp, by simp, by simp⟩⟩
        · simp
        · refine s.links.insert s.nodup fresh ?_ ?_ nofun ?_ ?_ ?_
          · simp
          · simp [other.symm]
          · intro x first
            cases first
            simp
          · intro x fresh _
            simp [fresh]
          · intro x fresh first
            have : x ≠ c := fun eq => first (congrArg _ eq.symm)
            simp [this, fresh]
        · intro x outside
          have : x ≠ c := fun eq => outside (by simp [eq])
          have : x ≠ t := fun eq => outside (by simp [eq])
          simp [*]
        · intro x apart
          simp [apart]
      · rw [List.concat_eq_append] at *
        have back : r.prev c = Option.some a := by rw [before, List.getLast?_concat]
        have apart : a ≠ t := out a (by simp)
        have distinct : a ≠ c := (List.nodup_append.mp s.nodup).2.2 a (by simp) c (by simp)
        rw [addBefore]
        simp only [setPrev_prev, setNext_prev, Function.update_of_ne other, back]
        refine ⟨⟨?_, ?_, nodup⟩, ⟨?_, fun _ _ => rfl⟩, ⟨by simp, by simp, by simp⟩⟩
        · show r.head list = _
          rw [s.head]
          cases front <;> rfl
        · refine s.links.insert s.nodup fresh ?_ ?_ ?_ ?_ ?_ ?_
          · simp [apart.symm]
          · simp [other.symm]
          · intro x last
            rw [List.getLast?_concat] at last
            cases last
            simp
          · intro x first
            cases first
            simp
          · intro x fresh last
            rw [List.getLast?_concat] at last
            have : x ≠ a := fun eq => last (congrArg _ eq.symm)
            simp [this, fresh]
          · intro x fresh first
            have : x ≠ c := fun eq => first (congrArg _ eq.symm)
            simp [this, fresh]
        · intro x outside
          have : x ≠ a := fun eq => outside (by simp [eq])
          have : x ≠ c := fun eq => outside (by simp [eq])
          have : x ≠ t := fun eq => outside (by simp [eq])
          simp [*]

theorem Strung.remove (s : Strung r list (pre ++ t :: post)) :
    Strung (r.memRegionRemove t list) list (pre ++ post) ∧
      Relinked r (r.memRegionRemove t list) list (pre ++ t :: post) ∧ Kept r (r.memRegionRemove t list) ∧
      (r.memRegionRemove t list).next t = none ∧ (r.memRegionRemove t list).prev t = none := by
  have before : r.prev t = pre.getLast? := by
    have eq := s.links.prev_eq
    rwa [Option.or_none] at eq
  have behind : r.next t = post.head? := by
    have eq := s.links.next_eq
    rwa [Option.or_none] at eq
  have nodup := s.nodup
  obtain ⟨-, right, apart⟩ := List.nodup_append.mp nodup
  obtain ⟨fresh, -⟩ := List.nodup_cons.mp right
  have short : (pre ++ post).Nodup := (List.nodup_cons.mp (List.nodup_middle.mp nodup)).2
  rcases List.eq_nil_or_concat pre with rfl | ⟨front, a, rfl⟩
  · have none : r.prev t = none := before
    cases post with
    | nil =>
        have last : r.next t = .none := behind
        simp only [memRegionRemove, none, setHead_next, last]
        refine ⟨⟨by simp, trivial, short⟩, ⟨?_, ?_⟩, ⟨by simp, by simp, by simp⟩, by simp, by simp⟩
        · intro x outside
          have : x ≠ t := fun eq => outside (by simp [eq])
          simp [this]
        · intro x apart
          simp [apart]
    | cons c post =>
        have next : r.next t = some c := behind
        have other : c ≠ t := fun eq => fresh (by simp [eq])
        simp only [memRegionRemove, none, setHead_next, next]
        refine ⟨⟨by simp, ?_, short⟩, ⟨?_, ?_⟩, ⟨by simp, by simp, by simp⟩, by simp, by simp⟩
        · refine s.links.remove nodup nofun ?_ ?_ ?_
          · intro x first
            cases first
            simp [other, none]
          · intro x fresh _
            simp [fresh]
          · intro x fresh first
            have : x ≠ c := fun eq => first (congrArg _ eq.symm)
            simp [this, fresh]
        · intro x outside
          have : x ≠ c := fun eq => outside (by simp [eq])
          have : x ≠ t := fun eq => outside (by simp [eq])
          simp [*]
        · intro x apart
          simp [apart]
  · rw [List.concat_eq_append] at *
    have back : r.prev t = some a := by rw [before, List.getLast?_concat]
    have distinct : a ≠ t := apart a (by simp) t (.head _)
    have head : r.head list = (front ++ [a] ++ post).head? := by
      rw [s.head]
      cases front <;> rfl
    cases post with
    | nil =>
        have last : r.next t = none := behind
        simp only [memRegionRemove, back, setNext_next, Function.update_of_ne distinct.symm, last]
        refine ⟨⟨head, ?_, short⟩, ⟨?_, fun _ _ => rfl⟩, ⟨by simp, by simp, by simp⟩, by simp, by simp⟩
        · refine s.links.remove nodup ?_ nofun ?_ ?_
          · intro x last
            rw [List.getLast?_concat] at last
            cases last
            simp [distinct]
          · intro x fresh last
            rw [List.getLast?_concat] at last
            have : x ≠ a := fun eq => last (congrArg _ eq.symm)
            simp [this, fresh]
          · intro x fresh _
            simp [fresh]
        · intro x outside
          have : x ≠ a := fun eq => outside (by simp [eq])
          have : x ≠ t := fun eq => outside (by simp [eq])
          simp [*]
    | cons c post =>
        have next : r.next t = some c := behind
        have other : c ≠ t := fun eq => fresh (by simp [eq])
        simp only [memRegionRemove, back, setNext_next, Function.update_of_ne distinct.symm, next, setNext_prev]
        refine ⟨⟨head, ?_, short⟩, ⟨?_, fun _ _ => rfl⟩, ⟨by simp, by simp, by simp⟩, by simp, by simp⟩
        · refine s.links.remove nodup ?_ ?_ ?_ ?_
          · intro x last
            rw [List.getLast?_concat] at last
            cases last
            simp [distinct]
          · intro x first
            cases first
            rw [List.getLast?_concat]
            simp [other]
          · intro x fresh last
            rw [List.getLast?_concat] at last
            have : x ≠ a := fun eq => last (congrArg _ eq.symm)
            simp [this, fresh]
          · intro x fresh first
            have : x ≠ c := fun eq => first (congrArg _ eq.symm)
            simp [this, fresh]
        · intro x outside
          have : x ≠ a := fun eq => outside (by simp [eq])
          have : x ≠ c := fun eq => outside (by simp [eq])
          have : x ≠ t := fun eq => outside (by simp [eq])
          simp [*]

theorem Strung.absorb (s : Strung r list (pre ++ a :: b :: post)) :
    Strung (r.absorb a b) list (pre ++ a :: post) ∧ Relinked r (r.absorb a b) list (pre ++ a :: b :: post) ∧
      (r.absorb a b).start = r.start ∧ (r.absorb a b).threadId = r.threadId ∧
      (r.absorb a b).length = Function.update r.length a (add32 (r.length a) (r.length b)) := by
  have split : pre ++ a :: b :: post = (pre ++ [a]) ++ b :: post := by rw [List.append_assoc, List.singleton_append]
  have nodup := s.nodup
  have links := s.links
  rw [split] at links
  have behind : r.next b = post.head? := by
    have eq := links.next_eq
    rwa [Option.or_none] at eq
  obtain ⟨-, right, -⟩ := List.nodup_append.mp nodup
  obtain ⟨fresh, right⟩ := List.nodup_cons.mp right
  have other : b ≠ a := fun eq => fresh (by simp [eq])
  have short : (pre ++ a :: post).Nodup := by
    have nodup' := nodup
    rw [split] at nodup'
    have short := (List.nodup_cons.mp (List.nodup_middle.mp nodup')).2
    rwa [List.append_assoc, List.singleton_append] at short
  have head : r.head list = (pre ++ a :: post).head? := by
    rw [s.head]
    cases pre <;> rfl
  rw [split] at nodup
  have join : pre ++ a :: post = (pre ++ [a]) ++ post := by rw [List.append_assoc, List.singleton_append]
  cases post with
  | nil =>
      have last : r.next b = none := behind
      simp only [Regions.absorb, setLength_next, last, setNext_next, Function.update_of_ne other]
      refine ⟨⟨head, ?_, short⟩, ⟨?_, fun _ _ => rfl⟩, by simp, by simp, by simp⟩
      · rw [join]
        refine links.remove nodup ?_ nofun ?_ ?_
        · intro x last
          rw [List.getLast?_concat] at last
          cases last
          simp
        · intro x _ last
          rw [List.getLast?_concat] at last
          have : x ≠ a := fun eq => last (congrArg _ eq.symm)
          simp [this]
        · simp
      · intro x outside
        have : x ≠ a := fun eq => outside (by simp [eq])
        simp [this]
  | cons c post =>
      have next : r.next b = some c := behind
      simp only [Regions.absorb, setLength_next, next, setNext_next, Function.update_of_ne other]
      refine ⟨⟨head, ?_, short⟩, ⟨?_, fun _ _ => rfl⟩, by simp, by simp, by simp⟩
      · rw [join]
        refine links.remove nodup ?_ ?_ ?_ ?_
        · intro x last
          rw [List.getLast?_concat] at last
          cases last
          simp
        · intro x first
          cases first
          rw [List.getLast?_concat]
          simp
        · intro x _ last
          rw [List.getLast?_concat] at last
          have : x ≠ a := fun eq => last (congrArg _ eq.symm)
          simp [this]
        · intro x _ first
          have : x ≠ c := fun eq => first (congrArg _ eq.symm)
          simp [this]
      · intro x outside
        have : x ≠ a := fun eq => outside (by simp [eq])
        have : x ≠ c := fun eq => outside (by simp [eq])
        simp [*]

end Xinu.Regions
