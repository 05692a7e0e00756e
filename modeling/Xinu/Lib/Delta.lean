import Mathlib.Data.List.Nodup
import Mathlib.Logic.Function.Basic

namespace Xinu.Lib
variable {α : Type*}

def Delta (key left : α → Int) : Int → List α → Prop
  | _, [] => True
  | s, t :: ts => 0 ≤ key t ∧ left t = s + key t ∧ Delta key left (s + key t) ts

def deltaSplit (key : α → Int) : Int → List α → List α × Int × List α
  | d, [] => ([], d, [])
  | d, u :: us =>
      if key u ≤ d then
        let (before, rest, after) := deltaSplit key (d - key u) us
        (u :: before, rest, after)
      else ([], d, u :: us)

theorem deltaSplit_append (key : α → Int) (d : Int) (us : List α) :
    (deltaSplit key d us).1 ++ (deltaSplit key d us).2.2 = us := by
  induction us generalizing d with
  | nil => rfl
  | cons u us ih =>
      simp only [deltaSplit]
      split
      · simp [ih]
      · simp

variable {key key' left left' : α → Int} {s : Int} {t : α} {ts us : List α}

namespace Delta

theorem congr (h : Delta key left s ts) (keys : ∀ t ∈ ts, key' t = key t)
    (same : ∀ t ∈ ts, left' t = left t) : Delta key' left' s ts := by
  induction ts generalizing s with
  | nil => trivial
  | cons t ts ih =>
      obtain ⟨positive, own, others⟩ := h
      have key := keys t (by simp)
      refine ⟨by rwa [key], by rw [key, same t (by simp), own], ?_⟩
      rw [key]
      exact ih others (fun u on => keys u (by simp [on])) fun u on => same u (by simp [on])

theorem le_left (h : Delta key left s ts) (on : t ∈ ts) : s ≤ left t := by
  induction ts generalizing s with
  | nil => cases on
  | cons u ts ih =>
      obtain ⟨positive, own, others⟩ := h
      rcases List.mem_cons.mp on with rfl | on
      · omega
      · have := ih others on
        omega

theorem lt_left (h : Delta key left s (t :: ts)) (waits : 0 < key t) {u : α} (on : u ∈ t :: ts) :
    s < left u := by
  obtain ⟨-, own, others⟩ := h
  rcases List.mem_cons.mp on with rfl | on
  · omega
  · have := others.le_left on
    omega

theorem shift (h : Delta key left s ts) (d : Int) : Delta key (fun t => left t - d) (s - d) ts := by
  induction ts generalizing s with
  | nil => trivial
  | cons t ts ih =>
      obtain ⟨positive, own, others⟩ := h
      refine ⟨positive, by simp only; omega, ?_⟩
      have := ih others
      rwa [show s + key t - d = s - d + key t by omega] at this

theorem drop (h : Delta key left s (ts ++ us)) (due : ∀ t ∈ ts, key t ≤ 0) :
    (∀ t ∈ ts, left t = s) ∧ Delta key left s us := by
  induction ts with
  | nil => exact ⟨by simp, h⟩
  | cons t ts ih =>
      obtain ⟨positive, own, others⟩ := h
      have zero : key t = 0 := by
        have := due t (by simp)
        omega
      rw [zero, Int.add_zero] at own others
      obtain ⟨same, rest⟩ := ih others fun u on => due u (by simp [on])
      exact ⟨List.forall_mem_cons.mpr ⟨own, same⟩, rest⟩

theorem pass [DecidableEq α] {d : Int} (h : Delta key left s (t :: ts)) (enough : d ≤ key t)
    (nodup : (t :: ts).Nodup) :
    Delta (Function.update key t (key t - d)) (fun u => left u - d) s (t :: ts) := by
  obtain ⟨positive, own, others⟩ := h
  refine ⟨by simp; omega, by simp; omega, ?_⟩
  have later := others.shift d
  rw [Function.update_self, show s + (key t - d) = s + key t - d by omega]
  refine later.congr (fun u on => ?_) fun _ _ => rfl
  have apart : u ≠ t := fun eq => (List.nodup_cons.mp nodup).1 (eq ▸ on)
  simp [apart]

def insertKey [DecidableEq α] (key : α → Int) (t : α) (rest : Int) : List α → α → Int
  | [] => Function.update key t rest
  | u :: _ => Function.update (Function.update key t rest) u (Function.update key t rest u - rest)

theorem insertKey_ne [DecidableEq α] {u : α} {rest : Int} (other : u ≠ t) (off : u ∉ ts) :
    insertKey key t rest ts u = key u := by
  cases ts with
  | nil => simp [insertKey, other]
  | cons v vs =>
      have apart : u ≠ v := fun eq => off (by simp [eq])
      simp [insertKey, other, apart]

theorem insert [DecidableEq α] {d : Int} (h : Delta key left s ts) (nodup : (t :: ts).Nodup)
    (positive : 0 ≤ d) (own : left t = s + d) :
    Delta (insertKey key t (deltaSplit key d ts).2.1 (deltaSplit key d ts).2.2) left s
      ((deltaSplit key d ts).1 ++ t :: (deltaSplit key d ts).2.2) := by
  induction ts generalizing s d with
  | nil => simpa [deltaSplit, Delta, insertKey] using ⟨positive, own⟩
  | cons u us ih =>
      obtain ⟨positive', own', others⟩ := h
      simp only [List.nodup_cons, List.mem_cons, not_or] at nodup
      obtain ⟨⟨apart, off⟩, off', nodup⟩ := nodup
      have cut := deltaSplit_append key (d - key u) us
      simp only [deltaSplit]
      split
      · have next := ih (d := d - key u) others (List.nodup_cons.mpr ⟨off, nodup⟩) (by omega) (by omega)
        have same : insertKey key t (deltaSplit key (d - key u) us).2.1
            (deltaSplit key (d - key u) us).2.2 u = key u := by
          refine insertKey_ne (Ne.symm apart) fun on => off' ?_
          rw [← cut]
          exact List.mem_append_right _ on
        exact ⟨by rw [same]; exact positive', by rw [same]; exact own', by rw [same]; exact next⟩
      · have mine : insertKey key t d (u :: us) t = d := by simp [insertKey, apart]
        have first : insertKey key t d (u :: us) u = key u - d := by
          simp [insertKey, Ne.symm apart]
        refine ⟨by rw [mine]; exact positive, by rw [mine]; exact own, ?_⟩
        refine ⟨by rw [first]; omega, by rw [mine, first]; omega, ?_⟩
        rw [mine, first, show s + d + (key u - d) = s + key u by omega]
        refine others.congr (fun v on => ?_) fun _ _ => rfl
        have ne : v ≠ t := fun eq => off (eq ▸ on)
        have ne' : v ≠ u := fun eq => off' (eq ▸ on)
        simp [insertKey, ne, ne']

def eraseKey [DecidableEq α] (key : α → Int) (d : Int) : List α → α → Int
  | [] => key
  | u :: _ => Function.update key u (key u + d)

theorem erase [DecidableEq α] (h : Delta key left s (ts ++ t :: us)) (nodup : (ts ++ t :: us).Nodup) :
    Delta (eraseKey key (key t) us) left s (ts ++ us) := by
  induction ts generalizing s with
  | nil =>
      obtain ⟨positive, own, others⟩ := h
      cases us with
      | nil => trivial
      | cons u us =>
          obtain ⟨positive', own', others⟩ := others
          have same : eraseKey key (key t) (u :: us) u = key u + key t := by simp [eraseKey]
          refine ⟨by rw [same]; omega, by rw [same]; omega, ?_⟩
          rw [same, show s + (key u + key t) = s + key t + key u by omega]
          refine others.congr (fun v on => ?_) fun _ _ => rfl
          simp only [List.nil_append, List.nodup_cons] at nodup
          have apart : v ≠ u := fun eq => nodup.2.1 (eq ▸ on)
          simp [eraseKey, apart]
  | cons v vs ih =>
      obtain ⟨positive, own, others⟩ := h
      simp only [List.cons_append, List.nodup_cons] at nodup
      have same : eraseKey key (key t) us v = key v := by
        cases us with
        | nil => rfl
        | cons u us =>
            have apart : v ≠ u := fun eq => nodup.1 (by simp [eq])
            simp [eraseKey, apart]
      exact ⟨by rw [same]; exact positive, by rw [same]; exact own,
        by rw [same]; exact ih others nodup.2⟩

end Delta

def keySum [DecidableEq α] (key : α → Int) : List α → α → Int
  | [], _ => 0
  | t :: ts, u => if u = t then key t else key t + keySum key ts u

theorem Delta.left_eq [DecidableEq α] (h : Delta key left s ts) (on : t ∈ ts) :
    left t = s + keySum key ts t := by
  induction ts generalizing s with
  | nil => cases on
  | cons u ts ih =>
      obtain ⟨-, own, others⟩ := h
      rw [keySum]
      split
      · rename_i eq
        rw [eq, own]
      · rename_i ne
        rw [ih others ((List.mem_cons.mp on).resolve_left ne)]
        omega

theorem delta_keySum [DecidableEq α] (nodup : ts.Nodup) (positive : ∀ t ∈ ts, 0 ≤ key t) :
    Delta key (fun t => s + keySum key ts t) s ts := by
  induction ts generalizing s with
  | nil => trivial
  | cons u ts ih =>
      obtain ⟨off, nodup⟩ := List.nodup_cons.mp nodup
      refine ⟨positive u (by simp), by simp [keySum], ?_⟩
      have rest := ih (s := s + key u) nodup fun t on => positive t (by simp [on])
      refine rest.congr (fun _ _ => rfl) fun t on => ?_
      have apart : t ≠ u := fun eq => off (eq ▸ on)
      simp only [keySum, if_neg apart]
      omega

theorem Delta.positive (h : Delta key left s ts) : ∀ t ∈ ts, 0 ≤ key t := by
  induction ts generalizing s with
  | nil => simp
  | cons u ts ih => exact List.forall_mem_cons.mpr ⟨h.1, ih h.2.2⟩

theorem Delta.eraseKey_insertKey [DecidableEq α] {u : α} {rest : Int} (off : t ∉ ts) (other : u ≠ t) :
    Delta.eraseKey (Delta.insertKey key t rest ts) (Delta.insertKey key t rest ts t) ts u = key u := by
  cases ts with
  | nil => simp [Delta.eraseKey, Delta.insertKey, other]
  | cons v vs =>
      have apart : t ≠ v := fun same => off (by simp [same])
      have mine : Delta.insertKey key t rest (v :: vs) t = rest := by simp [Delta.insertKey, apart]
      rw [mine]
      by_cases here : u = v
      · subst here
        simp [Delta.eraseKey, Delta.insertKey, other]
      · simp [Delta.eraseKey, Delta.insertKey, here, other]

theorem Delta.key_le (h : Delta key left s ts) (start : 0 ≤ s) : ∀ t ∈ ts, key t ≤ left t := by
  induction ts generalizing s with
  | nil => simp
  | cons u ts ih =>
      obtain ⟨positive, own, others⟩ := h
      exact List.forall_mem_cons.mpr ⟨by omega, ih others (by omega)⟩

theorem Delta.pair_le {u : α} (h : Delta key left s (ts ++ t :: u :: us)) (start : 0 ≤ s) :
    0 ≤ key u + key t ∧ key u + key t ≤ left u := by
  induction ts generalizing s with
  | nil =>
      obtain ⟨positive, -, positive', own, -⟩ := h
      omega
  | cons v ts ih =>
      obtain ⟨positive, -, others⟩ := h
      exact ih others (by omega)

theorem Delta.split {d : Int} (h : Delta key left s ts) :
    (∀ t ∈ (deltaSplit key d ts).1, left t ≤ s + d) ∧ ∀ t ∈ (deltaSplit key d ts).2.2, s + d < left t := by
  induction ts generalizing s d with
  | nil => simp [deltaSplit]
  | cons u us ih =>
      obtain ⟨positive, own, others⟩ := h
      simp only [deltaSplit]
      split
      · have later := ih (d := d - key u) others
        rw [show s + key u + (d - key u) = s + d by omega] at later
        exact ⟨List.forall_mem_cons.mpr ⟨by omega, later.1⟩, later.2⟩
      · refine ⟨nofun, List.forall_mem_cons.mpr ⟨by omega, fun v on => ?_⟩⟩
        have := others.le_left on
        omega

end Xinu.Lib
