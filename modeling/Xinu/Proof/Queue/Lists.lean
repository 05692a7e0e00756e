import Xinu.System.Queue
import Xinu.Lib.Delta
import Mathlib.Data.List.Nodup
import Mathlib.Data.List.TakeWhile

namespace Xinu

structure Lists where
  ids : Int → List Int
  key : Int → Int
  loc : Int → Int

namespace Lists

variable (l : Lists)

def put (tid q : Int) (ids : List Int) : Lists :=
  { l with ids := Function.update l.ids q ids, loc := Function.update l.loc tid q }

def setKey (i v : Int) : Lists := { l with key := Function.update l.key i v }

def enqueue (tid q : Int) : Lists := l.put tid q (l.ids q ++ [tid])

def getitem (tid : Int) : Lists := { l with ids := fun q => (l.ids q).erase tid }

def insert (tid q key : Int) : Lists :=
  (l.put tid q ((l.ids q).takeWhile (key ≤ l.key ·) ++
    tid :: (l.ids q).dropWhile (key ≤ l.key ·))).setKey tid key

def insertd (tid q key : Int) : Lists :=
  let (before, rest, after) := Lib.deltaSplit l.key key (l.ids q)
  let l' := (l.put tid q (before ++ tid :: after)).setKey tid rest
  match after with
  | [] => l'
  | u :: _ => l'.setKey u (l'.key u - rest)

end Lists

instance : Queues Lists where
  firstid l q := (l.ids q).headD (quetail q)
  nextid l tid := ((l.ids (l.loc tid)).dropWhile (· ≠ tid)).tail.headD (quetail (l.loc tid))
  key := Lists.key
  setKey := Lists.setKey
  enqueue := Lists.enqueue
  getitem := Lists.getitem
  clear l _ := l
  insert l tid q key := some (l.insert tid q key)
  insertd l tid q key := some (l.insertd tid q key)
  queinit l q := { l with ids := Function.update l.ids q [] }

@[simp] theorem Lists.getitem_ids (l : Lists) (t q : Int) :
    (Queues.getitem l t).ids q = (l.ids q).erase t := rfl

@[simp] theorem Lists.getitem_key (l : Lists) (t : Int) : (Queues.getitem l t).key = l.key := rfl

structure Located (l : Lists) (home : Int → Option Int) : Prop where
  mem : ∀ q t, t ∈ l.ids q ↔ home t = some q
  nodup : ∀ q, (l.ids q).Nodup
  loc : ∀ q t, t ∈ l.ids q → l.loc t = q

namespace Located
variable {l : Lists} {home : Int → Option Int} {t q : Int}

theorem off (h : Located l home) (none : home t = none) (q : Int) : t ∉ l.ids q := by
  rw [h.mem, none]
  simp

theorem congr {home' : Int → Option Int} (h : Located l home) (eq : ∀ t, home' t = home t) :
    Located l home' := by
  rwa [funext eq]

theorem setKey (h : Located l home) (i v : Int) : Located (l.setKey i v) home :=
  ⟨h.mem, h.nodup, h.loc⟩

theorem put (h : Located l home) (none : home t = none) {ids : List Int}
    (perm : ids.Perm (t :: l.ids q)) :
    Located (l.put t q ids) (Function.update home t (some q)) := by
  have off := h.off none
  refine ⟨?_, ?_, ?_⟩
  · intro q' u
    by_cases same : q' = q <;> by_cases this : u = t
    · subst same this
      simp [Lists.put, perm.mem_iff]
    · subst same
      simp [Lists.put, perm.mem_iff, this, h.mem]
    · subst this
      simp only [Lists.put, Function.update_of_ne same, Function.update_self, Option.some.injEq]
      exact ⟨fun member => absurd member (off q'), fun eq => absurd eq.symm same⟩
    · simp [Lists.put, Function.update_of_ne same, this, h.mem]
  · intro q'
    by_cases same : q' = q
    · subst same
      simp only [Lists.put, Function.update_self]
      exact perm.nodup_iff.mpr (List.nodup_cons.mpr ⟨off q', h.nodup q'⟩)
    · simpa only [Lists.put, Function.update_of_ne same] using h.nodup q'
  · intro q' u member
    by_cases this : u = t
    · subst this
      by_cases same : q' = q
      · simp [Lists.put, same]
      · simp only [Lists.put, Function.update_of_ne same] at member
        exact absurd member (off q')
    · simp only [Lists.put, Function.update_of_ne this]
      by_cases same : q' = q
      · subst same
        simp only [Lists.put, Function.update_self, perm.mem_iff, List.mem_cons, this,
          false_or] at member
        exact h.loc q' u member
      · simp only [Lists.put, Function.update_of_ne same] at member
        exact h.loc q' u member

theorem enqueue (h : Located l home) (none : home t = none) :
    Located (l.enqueue t q) (Function.update home t (some q)) :=
  h.put none List.perm_append_comm

theorem insert (h : Located l home) (none : home t = none) (key : Int) :
    Located (l.insert t q key) (Function.update home t (some q)) := by
  refine (h.put none ?_).setKey t key
  refine List.perm_middle.trans (List.Perm.cons t ?_)
  rw [List.takeWhile_append_dropWhile]

end Located

namespace Lists

theorem insertd_ids (l : Lists) (tid q key : Int) :
    (l.insertd tid q key).ids = (l.put tid q ((Lib.deltaSplit l.key key (l.ids q)).1 ++
      tid :: (Lib.deltaSplit l.key key (l.ids q)).2.2)).ids ∧
    (l.insertd tid q key).loc = Function.update l.loc tid q := by
  simp only [insertd]
  split <;> simp [setKey, put]

theorem insertd_keys (l : Lists) (tid q key : Int) : (l.insertd tid q key).key =
    Lib.Delta.insertKey l.key tid (Lib.deltaSplit l.key key (l.ids q)).2.1
      (Lib.deltaSplit l.key key (l.ids q)).2.2 := by
  simp only [insertd]
  split <;> rename_i eq <;> simp [setKey, put, eq, Lib.Delta.insertKey]

theorem insertd_key (l : Lists) {tid q key u : Int} (other : u ≠ tid) (off : u ∉ l.ids q) :
    (l.insertd tid q key).key u = l.key u := by
  rw [insertd_keys]
  refine Lib.Delta.insertKey_ne other fun on => off ?_
  rw [← Lib.deltaSplit_append l.key key (l.ids q)]
  exact List.mem_append_right _ on

end Lists

namespace Located
variable {l : Lists} {home : Int → Option Int} {t q : Int}

theorem insertd (h : Located l home) (none : home t = none) (key : Int) :
    Located (l.insertd t q key) (Function.update home t (some q)) := by
  have perm : ((Lib.deltaSplit l.key key (l.ids q)).1 ++
      t :: (Lib.deltaSplit l.key key (l.ids q)).2.2).Perm (t :: l.ids q) := by
    refine List.perm_middle.trans (List.Perm.cons t ?_)
    rw [Lib.deltaSplit_append]
  have placed := h.put none perm
  obtain ⟨ids, loc⟩ := l.insertd_ids t q key
  refine ⟨?_, ?_, ?_⟩
  · rw [ids]; exact placed.mem
  · rw [ids]; exact placed.nodup
  · rw [ids, loc]; exact placed.loc

theorem getitem (h : Located l home) (t : Int) :
    Located (l.getitem t) (Function.update home t none) := by
  refine ⟨?_, fun q => (h.nodup q).erase t, ?_⟩
  · intro q u
    simp only [Lists.getitem, (h.nodup q).mem_erase_iff]
    by_cases this : u = t
    · simp [this]
    · simp [this, h.mem]
  · intro q u member
    exact h.loc q u (List.mem_of_mem_erase member)

theorem queinit (h : Located l home) (q : Int) (empty : l.ids q = []) :
    Located { l with ids := Function.update l.ids q [] } home := by
  have same : Function.update l.ids q [] = l.ids := by
    rw [← empty, Function.update_eq_self]
  rw [same]
  exact h

end Located

end Xinu
