import Xinu.Proof.Queue.Insertion
import Xinu.System.Machine

namespace Xinu.Represents
open Lib

variable {c : Config} {n : Int} {tab tab' : Quetab c} {l : Lists} {t q key : Int} {xs ys : List Int}

theorem insertdScan_total (h : Represents n tab l) (isq : c.IsQueue q) (low : q < n) (ids : l.ids q = xs ++ ys) {fuel : Nat}
    (enough : ys.length < fuel) (a key : Int) :
    ∃ found, tab.insertdScan (quetail q) fuel a (ys.headD (quetail q)) key = some found := by
  induction ys generalizing xs fuel a key with
  | nil =>
      cases fuel with
      | zero => cases enough
      | succ fuel =>
          refine ⟨(a, quetail q, key), ?_⟩
          rw [List.headD_nil, Quetab.insertdScan, if_neg fun both => both.2 rfl]
  | cons y ys ih =>
      obtain ⟨next, -, -, -⟩ := h.neighbours isq low ids
      cases fuel with
      | zero => cases enough
      | succ fuel =>
          rw [List.headD_cons, Quetab.insertdScan, show (tab.ent y).next = _ from next]
          split
          · exact ih (show l.ids q = (xs ++ [y]) ++ ys by simp [ids]) (Nat.lt_of_succ_lt_succ enough) _ _
          · exact ⟨_, rfl⟩

theorem insertd_total (h : Represents n tab l) (isq : c.IsQueue q) (low : q < n) (t key : Int) :
    ∃ tab', tab.insertd t q key = some tab' := by
  have first : (tab.ent (quehead q)).next = (l.ids q).headD (quetail q) := h.firstid isq low
  have fuel : (l.ids q).length < c.nqent := by
    have := h.length_le q
    rw [Config.nqent]
    omega
  obtain ⟨found, scan⟩ := h.insertdScan_total isq low (show l.ids q = [] ++ l.ids q from rfl) fuel (quehead q) key
  rw [Quetab.insertd, first, scan]
  exact ⟨_, rfl⟩

def waits (l : Lists) (q t : Int) : Int := keySum l.key (l.ids q) t

/-- A delta queue: no key is negative, and what each thread has to wait is an `int`. -/
structure DeltaQueue (l : Lists) (q : Int) : Prop where
  positive : ∀ u ∈ l.ids q, 0 ≤ l.key u
  ints : ∀ u ∈ l.ids q, waits l q u ≤ MAXKEY

structure Delayed (n : Int) (tab' : Quetab c) (l l' : Lists) (t q key : Int) : Prop where
  repr : Represents n tab' l'
  others : ∀ q', q' ≠ q → l'.ids q' = l.ids q'
  same : ∀ u ∈ l.ids q, waits l' q u = waits l q u
  own : waits l' q t = key
  positive : ∀ u ∈ l'.ids q, 0 ≤ l'.key u
  place : ∃ before after, l.ids q = before ++ after ∧ l'.ids q = before ++ t :: after ∧
    (∀ u ∈ before, waits l q u ≤ key) ∧ ∀ u ∈ after, key < waits l q u

theorem delayed (h : Represents n tab l) (isq : c.IsQueue q) (low : q < n) (lo : 0 ≤ t) (hi : t < c.nthread)
    (off : ∀ q, t ∉ l.ids q) (positive : ∀ u ∈ l.ids q, 0 ≤ l.key u) (above : 0 ≤ key)
    (eq : tab.insertd t q key = some tab') : Delayed n tab' l (l.insertd t q key) t q key := by
  have nodup := h.nodup q
  have sums : Delta l.key (fun u => 0 + waits l q u) 0 (l.ids q) := delta_keySum nodup positive
  have ids : (l.insertd t q key).ids q =
      (deltaSplit l.key key (l.ids q)).1 ++ t :: (deltaSplit l.key key (l.ids q)).2.2 := by
    rw [(l.insertd_ids t q key).1]
    simp [Lists.put]
  have cut := deltaSplit_append l.key key (l.ids q)
  -- what each thread has to wait afterwards
  obtain ⟨left, mine, kept⟩ : ∃ left : Int → Int, left t = key ∧ ∀ u ∈ l.ids q, left u = waits l q u := by
    refine ⟨Function.update (waits l q) t key, by simp, fun u on => ?_⟩
    have apart : u ≠ t := by
      rintro rfl
      exact off q on
    exact Function.update_of_ne apart _ _
  have before : Delta l.key left 0 (l.ids q) := sums.congr (fun _ _ => rfl) fun u on => by rw [kept u on, Int.zero_add]
  have after : Delta (l.insertd t q key).key left 0 ((l.insertd t q key).ids q) := by
    rw [ids, Lists.insertd_keys]
    exact before.insert (List.nodup_cons.mpr ⟨off q, nodup⟩) above (by rw [mine, Int.zero_add])
  have left_eq : ∀ u ∈ (l.insertd t q key).ids q, waits (l.insertd t q key) q u = left u := by
    intro u on
    rw [after.left_eq on, Int.zero_add]
    rfl
  have split := before.split (d := key)
  constructor
  · exact h.insertd isq low lo hi off eq
  · intro q' other
    rw [(l.insertd_ids t q key).1]
    simp [Lists.put, other]
  · intro u on
    rw [left_eq u, kept u on]
    rw [← cut, List.mem_append] at on
    rw [ids, List.mem_append, List.mem_cons]
    tauto
  · rw [left_eq t, mine]
    rw [ids]
    simp
  · exact after.positive
  · refine ⟨_, _, cut.symm, ids, fun u on => ?_, fun u on => ?_⟩
    · have := split.1 u on
      rw [kept u (by rw [← cut]; exact List.mem_append_left _ on)] at this
      omega
    · have := split.2 u on
      rw [kept u (by rw [← cut]; exact List.mem_append_right _ on)] at this
      omega

theorem Delayed.deltaQueue {l' : Lists} (delay : Delayed n tab' l l' t q key) (queue : DeltaQueue l q) (int : key ≤ MAXKEY) :
    DeltaQueue l' q := by
  refine ⟨delay.positive, fun u on => ?_⟩
  obtain ⟨before, after, ids, ids', -, -⟩ := delay.place
  rw [ids', List.mem_append, List.mem_cons] at on
  by_cases mine : u = t
  · rw [mine, delay.own]
    exact int
  · have old : u ∈ l.ids q := by
      rw [ids, List.mem_append]
      tauto
    rw [delay.same u old]
    exact queue.ints u old

theorem insertd_delayed {k : Kernel c (Quetab c)} (h : Represents n k.quetab l) (isq : c.IsQueue q) (low : q < n)
    (positive : ∀ u ∈ l.ids q, 0 ≤ l.key u) (good : k.isbadtid t = false) (off : ∀ q, t ∉ l.ids q) (above : 0 ≤ key) :
    ∃ tab', k.insertd t q key = (k.setQuetab tab', OK) ∧ Delayed n tab' l (l.insertd t q key) t q key := by
  have bounds := good
  simp only [Kernel.isbadtid, Bool.or_eq_false_iff, decide_eq_false_iff_not] at bounds
  obtain ⟨tab', eq⟩ := h.insertd_total isq low t key
  have made : Queues.insertd k.quetab t q key = some tab' := eq
  refine ⟨tab', ?_, h.delayed isq low (by omega) (by omega) off positive above eq⟩
  simp only [Kernel.insertd, isq.good, good, Bool.or_self, Bool.false_eq_true, if_false, made]

def roused (l : Lists) (t : Int) (after : List Int) : Lists :=
  match after with
  | [] => l.getitem t
  | u :: _ => (l.setKey u (l.key u + l.key t)).getitem t

theorem roused_key (l : Lists) (t : Int) (after : List Int) :
    (roused l t after).key = Delta.eraseKey l.key (l.key t) after := by
  cases after <;> rfl

theorem roused_ids (l : Lists) (t : Int) (after : List Int) (q : Int) : (roused l t after).ids q = (l.ids q).erase t := by
  cases after <;> rfl

theorem unsleep_eq {k : Kernel c (Quetab c)} (h : Represents n k.quetab l) (queue : DeltaQueue l q) {before after : List Int}
    (ids : l.ids q = before ++ t :: after) (state : (k.thrtab t).state = .sleep ∨ (k.thrtab t).state = .tmout) :
    ∃ tab', k.unsleep t = (k.setQuetab tab', OK) ∧ Represents n tab' (roused l t after) := by
  have on : t ∈ l.ids q := by simp [ids]
  obtain ⟨isq, low⟩ := h.queue q t on
  obtain ⟨next, keyEq, lo, hi⟩ := h.neighbours isq low ids
  have good : k.isbadtid t = false := by
    simp only [Kernel.isbadtid, Bool.or_eq_false_iff, decide_eq_false_iff_not]
    refine ⟨⟨by omega, by omega⟩, fun free => ?_⟩
    rcases state with asleep | timed
    · rw [free] at asleep
      cases asleep
    · rw [free] at timed
      cases timed
  have waiting : ¬ ((k.thrtab t).state ≠ .sleep ∧ (k.thrtab t).state ≠ .tmout) := by tauto
  rw [Kernel.unsleep, if_neg (by simp [good]), if_neg waiting]
  cases after with
  | nil =>
      have past : ¬ quetail q < c.nthread := by
        obtain ⟨i, rfl, -⟩ := isq
        rw [quetail]
        omega
      refine ⟨k.quetab.getitem t, ?_, h.getitem on⟩
      have next' : Queues.nextid k.quetab t = quetail q := next
      simp only [next']
      rw [if_neg past]
      rfl
  | cons u us =>
      obtain ⟨-, keyU, lo', hi'⟩ := h.neighbours isq low (show l.ids q = (before ++ [t]) ++ u :: us by simp [ids])
      -- the sum does not wrap: `u` has no less to wait
      have sums : Delta l.key (fun u => 0 + waits l q u) 0 (l.ids q) := delta_keySum (h.nodup q) queue.positive
      rw [ids] at sums
      have fits := sums.pair_le (Int.le_refl 0)
      have int := queue.ints u (by simp [ids])
      have keys : int32 (Queues.key k.quetab u + Queues.key k.quetab t) = l.key u + l.key t := by
        rw [← int32_eq (n := l.key u + l.key t) (Int.le_trans (by decide) fits.1) (by omega), ← keyU, ← keyEq]
        rfl
      refine ⟨(k.quetab.setKey u (l.key u + l.key t)).getitem t, ?_, (h.setKey hi').getitem on⟩
      have next' : Queues.nextid k.quetab t = u := next
      simp only [next', keys]
      rw [if_pos hi']
      rfl

structure Roused (n : Int) (tab' : Quetab c) (l l' : Lists) (t q : Int) : Prop where
  repr : Represents n tab' l'
  ids : ∀ q, l'.ids q = (l.ids q).erase t
  same : ∀ u ∈ l'.ids q, waits l' q u = waits l q u
  positive : ∀ u ∈ l'.ids q, 0 ≤ l'.key u
  -- no sum of keys is larger than what a thread has to wait
  small : ∀ u ∈ l'.ids q, l'.key u ≤ waits l q u

theorem roused_spec (h : Represents n tab l) (positive : ∀ u ∈ l.ids q, 0 ≤ l.key u) {before after : List Int}
    (ids : l.ids q = before ++ t :: after) (repr : Represents n tab' (roused l t after)) :
    Roused n tab' l (roused l t after) t q := by
  have nodup := h.nodup q
  have fresh : t ∉ before := by
    rw [ids] at nodup
    exact fun early => (List.nodup_append.mp nodup).2.2 t early t (by simp) rfl
  have erased : (roused l t after).ids q = before ++ after := by
    rw [roused_ids, ids, List.erase_append_right _ fresh, List.erase_cons_head]
  have sums : Delta l.key (fun u => 0 + waits l q u) 0 (l.ids q) := delta_keySum nodup positive
  have later : Delta (roused l t after).key (fun u => 0 + waits l q u) 0 ((roused l t after).ids q) := by
    rw [erased, roused_key]
    rw [ids] at sums nodup
    exact sums.erase nodup
  constructor
  · exact repr
  · exact roused_ids l t after
  · intro u on
    have := later.left_eq on
    simp only [Int.zero_add] at this
    exact this.symm
  · exact later.positive
  · intro u on
    have := later.key_le (Int.le_refl 0) u on
    simpa using this

theorem Roused.deltaQueue {l' : Lists} (rouse : Roused n tab' l l' t q) (queue : DeltaQueue l q) : DeltaQueue l' q := by
  refine ⟨rouse.positive, fun u on => ?_⟩
  rw [rouse.same u on]
  rw [rouse.ids] at on
  exact queue.ints u (List.mem_of_mem_erase on)

theorem roused_insertd (off : ∀ q, t ∉ l.ids q) (q key : Int) :
    let after := (deltaSplit l.key key (l.ids q)).2.2
    (roused (l.insertd t q key) t after).ids = l.ids ∧ ∀ u, u ≠ t → (roused (l.insertd t q key) t after).key u = l.key u := by
  intro after
  have cut := deltaSplit_append l.key key (l.ids q)
  have fresh : t ∉ (deltaSplit l.key key (l.ids q)).1 := fun on =>
    off q (by rw [← cut]; exact List.mem_append_left _ on)
  have behind : t ∉ after := fun on => off q (by rw [← cut]; exact List.mem_append_right _ on)
  constructor
  · funext q'
    rw [roused_ids, (l.insertd_ids t q key).1]
    by_cases here : q' = q
    · subst here
      simp only [Lists.put, Function.update_self]
      rw [List.erase_append_right _ fresh, List.erase_cons_head, cut]
    · simp only [Lists.put, Function.update_of_ne here]
      exact List.erase_of_not_mem (off q')
  · intro u other
    rw [roused_key, Lists.insertd_keys]
    exact Delta.eraseKey_insertKey behind other

theorem delta_queue {k : Kernel c (Quetab c)} (h : Represents n k.quetab l) (isq : c.IsQueue q) (low : q < n)
    (queue : DeltaQueue l q) :
    (∀ t key, k.isbadtid t = false → (∀ q, t ∉ l.ids q) → 0 ≤ key → key ≤ MAXKEY →
        ∃ tab' l', k.insertd t q key = (k.setQuetab tab', OK) ∧ Delayed n tab' l l' t q key ∧ DeltaQueue l' q ∧
          ∀ k' : Kernel c (Quetab c), k'.quetab = tab' →
            ((k'.thrtab t).state = .sleep ∨ (k'.thrtab t).state = .tmout) →
            ∃ tab'' l'', k'.unsleep t = (k'.setQuetab tab'', OK) ∧ Represents n tab'' l'' ∧ l''.ids = l.ids ∧
              ∀ u, u ≠ t → l''.key u = l.key u) ∧
      ∀ t ∈ l.ids q, ((k.thrtab t).state = .sleep ∨ (k.thrtab t).state = .tmout) →
        ∃ tab' l', k.unsleep t = (k.setQuetab tab', OK) ∧ Roused n tab' l l' t q ∧ DeltaQueue l' q := by
  refine ⟨fun t key good off above int => ?_, fun t on state => ?_⟩
  · obtain ⟨tab', made, delay⟩ := insertd_delayed h isq low queue.positive good off above
    have queue' := delay.deltaQueue queue int
    refine ⟨tab', l.insertd t q key, made, delay, queue', fun k' table state => ?_⟩
    have ids : (l.insertd t q key).ids q =
        (deltaSplit l.key key (l.ids q)).1 ++ t :: (deltaSplit l.key key (l.ids q)).2.2 := by
      rw [(l.insertd_ids t q key).1]
      simp [Lists.put]
    have repr : Represents n k'.quetab (l.insertd t q key) := table ▸ delay.repr
    obtain ⟨tab'', done, repr'⟩ := repr.unsleep_eq queue' ids state
    have undone := roused_insertd off q key
    exact ⟨tab'', _, done, repr', undone.1, undone.2⟩
  · obtain ⟨before, after, ids⟩ := List.append_of_mem on
    obtain ⟨tab', done, repr⟩ := h.unsleep_eq queue ids state
    have rouse := h.roused_spec queue.positive ids repr
    exact ⟨tab', _, done, rouse, rouse.deltaQueue queue⟩

def dozing : Kernel armRpi (Quetab armRpi) :=
  { (bss oneQueue (heapInit rpi) : Kernel armRpi (Quetab armRpi)) with thrtab := fun _ => ⟨.sleep, 0, 0, 0, 0, 0, 0, false⟩ }

theorem delta_queue_two : ∃ tab₁ l₁ tab₂ l₂ tab₃ l₃,
    dozing.insertd 5 100 30 = (dozing.setQuetab tab₁, OK) ∧ Delayed 102 tab₁ noThreads l₁ 5 100 30 ∧
    (dozing.setQuetab tab₁).insertd 6 100 30 = (dozing.setQuetab tab₂, OK) ∧ Delayed 102 tab₂ l₁ l₂ 6 100 30 ∧
    (dozing.setQuetab tab₂).unsleep 5 = (dozing.setQuetab tab₃, OK) ∧ Roused 102 tab₃ l₂ l₃ 5 100 ∧
    l₃.ids 100 = [6] ∧ waits l₃ 100 6 = 30 := by
  have empty : DeltaQueue noThreads 100 := ⟨nofun, nofun⟩
  have repr : Represents 102 dozing.quetab noThreads := oneQueue_repr
  obtain ⟨tab₁, l₁, made₁, first, queue₁, -⟩ := (delta_queue repr oneQueue_isQueue (by decide) empty).1 5 30 (by decide)
    (fun _ => List.not_mem_nil) (by decide) (by decide)
  have ids₁ : l₁.ids 100 = [5] := by
    obtain ⟨before, after, ids, ids', -⟩ := first.place
    obtain ⟨rfl, rfl⟩ := List.append_eq_nil_iff.mp ids.symm
    exact ids'
  have off : ∀ q, 6 ∉ l₁.ids q := by
    intro q
    by_cases here : q = 100
    · simp [here, ids₁]
    · rw [first.others q here]
      exact List.not_mem_nil
  obtain ⟨tab₂, l₂, made₂, second, queue₂, -⟩ := (delta_queue (k := dozing.setQuetab tab₁) first.repr oneQueue_isQueue
    (by decide) queue₁).1 6 30 (show dozing.isbadtid 6 = false by decide) off (by decide) (by decide)
  have waits₁ : waits l₁ 100 5 = 30 := first.own
  have ids₂ : l₂.ids 100 = [5, 6] := by
    obtain ⟨before, after, ids, ids', -, later⟩ := second.place
    rw [ids₁] at ids
    cases after with
    | nil =>
        rw [List.append_nil] at ids
        rw [ids', ← ids]
        rfl
    | cons u us =>
        have mine : u = 5 := by
          have on : u ∈ [5] := by simp [ids]
          exact List.mem_singleton.mp on
        have wait := later u List.mem_cons_self
        rw [mine, waits₁] at wait
        omega
  obtain ⟨tab₃, l₃, undone, roused, -⟩ := (delta_queue (k := dozing.setQuetab tab₂) second.repr oneQueue_isQueue
    (by decide) queue₂).2 5 (by simp [ids₂]) (.inl rfl)
  have ids₃ : l₃.ids 100 = [6] := by
    rw [roused.ids, ids₂]
    rfl
  refine ⟨tab₁, l₁, tab₂, l₂, tab₃, l₃, made₁, first, made₂, second, undone, roused, ids₃, ?_⟩
  rw [roused.same 6 (by simp [ids₃])]
  exact second.own

/-- `sleep(ms)` has the current thread wait so many ticks, or it does not put it to sleep for none. -/
def SleepsFor (n : Int) (l : Lists) (k : Kernel c (Quetab c)) (ms : Nat) (ticks : Int) : Prop :=
  (0 < ticks → ∃ tab' l', Delayed n tab' l l' k.thrcurrent k.sleepq ticks ∧
      k.sleep ms = ((((k.setQuetab tab').setState k.thrcurrent .sleep).emit (.sleeping k.thrcurrent ticks false)).ret OK).resched) ∧
    (ticks ≤ 0 → k.sleep ms = (k.ret OK).resched)

theorem sleepsFor_ticks {k : Kernel c (Quetab c)} (h : Represents n k.quetab l) (isq : c.IsQueue k.sleepq) (low : k.sleepq < n)
    (positive : ∀ u ∈ l.ids k.sleepq, 0 ≤ l.key u) (good : k.isbadtid k.thrcurrent = false)
    (off : ∀ q, k.thrcurrent ∉ l.ids q) (ms : Nat) : SleepsFor n l k ms (Kernel.sleepTicks ms) := by
  constructor
  · intro some
    obtain ⟨tab', made, delayed⟩ := insertd_delayed h isq low positive good off (Int.le_of_lt some)
    refine ⟨tab', _, delayed, ?_⟩
    rw [Kernel.sleep, if_pos some, made]
    rfl
  · intro none
    rw [Kernel.sleep, if_neg (Int.not_lt.mpr none)]

theorem sleepTicks_eq_iff (ms : Nat) :
    Kernel.sleepTicks ms = (ms * CLKTICKS_PER_SEC / 1000 : Nat) ↔ ms * CLKTICKS_PER_SEC < WORD := by
  rw [Kernel.sleepTicks, WORD, CLKTICKS_PER_SEC]
  omega

/-- `sleep` computes its ticks without wrapping if and only if the product fits a word. -/
theorem sleep_ticks {k : Kernel c (Quetab c)} (h : Represents n k.quetab l) (isq : c.IsQueue k.sleepq) (low : k.sleepq < n)
    (positive : ∀ u ∈ l.ids k.sleepq, 0 ≤ l.key u) (good : k.isbadtid k.thrcurrent = false)
    (off : ∀ q, k.thrcurrent ∉ l.ids q) (ms : Nat) :
    (SleepsFor n l k ms (Kernel.sleepTicks ms) ∧ 0 ≤ Kernel.sleepTicks ms) ∧
      (Kernel.sleepTicks ms = (ms * CLKTICKS_PER_SEC / 1000 : Nat) ↔ ms * CLKTICKS_PER_SEC < WORD) ∧
      (ms * CLKTICKS_PER_SEC < WORD → (∀ ms' ≤ ms, Kernel.sleepTicks ms' ≤ Kernel.sleepTicks ms) ∧
        (1000 ≤ ms * CLKTICKS_PER_SEC → 0 < Kernel.sleepTicks ms)) := by
  refine ⟨⟨sleepsFor_ticks h isq low positive good off ms, Int.natCast_nonneg _⟩, sleepTicks_eq_iff ms, fun fits => ⟨?_, ?_⟩⟩
  · intro ms' le
    have scaled : ms' * CLKTICKS_PER_SEC ≤ ms * CLKTICKS_PER_SEC := Nat.mul_le_mul_right _ le
    rw [(sleepTicks_eq_iff ms).mpr fits, (sleepTicks_eq_iff ms').mpr (Nat.lt_of_le_of_lt scaled fits)]
    exact Int.ofNat_le.mpr (Nat.div_le_div_right scaled)
  · intro enough
    rw [(sleepTicks_eq_iff ms).mpr fits]
    exact Int.natCast_pos.mpr (Nat.div_pos enough (by decide))

def dozer : Kernel armRpi (Quetab armRpi) := { dozing with sleepq := 100, thrcurrent := 5 }

theorem sleep_ticks_second : SleepsFor 102 noThreads dozer 1000 1000 := by
  have slept := sleep_ticks (k := dozer) oneQueue_repr oneQueue_isQueue (by decide) nofun (by decide)
    (fun _ => List.not_mem_nil) 1000
  have ticks : Kernel.sleepTicks 1000 = 1000 := by decide
  rw [← ticks]
  exact slept.1.1

theorem sleep_ticks_wrap : Kernel.sleepTicks 4294968 = 0 ∧ 4294968 * CLKTICKS_PER_SEC / 1000 = 4294968 ∧
    dozer.sleep 4294968 = (dozer.ret OK).resched := by
  refine ⟨by decide, by decide, ?_⟩
  exact (sleepsFor_ticks (k := dozer) oneQueue_repr oneQueue_isQueue (by decide) nofun (by decide)
    (fun _ => List.not_mem_nil) 4294968).2 (by decide)

end Xinu.Represents
