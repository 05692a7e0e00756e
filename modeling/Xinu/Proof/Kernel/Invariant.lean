import Xinu.Proof.Kernel.Placement

namespace Xinu.Kernel
variable {c : Config}

structure Threads {Q : Type} (k : Kernel c Q) : Prop where
  lo : 0 ≤ k.thrcurrent
  hi : k.thrcurrent < c.nthread
  single : ∀ t : Int, 0 ≤ t → t < c.nthread → (k.thrtab t).state = .curr → t = k.thrcurrent
  null : (k.thrtab NULLTHREAD).state = .ready ∨ (k.thrtab NULLTHREAD).state = .curr
  undeferred : k.resdefer = 0
  -- a thread is in one call at a time
  shape : ∀ t, (k.stack t).countP (!·.isRet) ≤ 1
  signalled : ∀ t f, t ≠ k.thrcurrent → k.frame t ≠ some (.getSignalled f)
  dead : ∀ t u, .killCurr u ∈ k.stack t → (k.thrtab t).state = .free
  kills : ∀ t u, .kill u ∈ k.stack t → u ≠ NULLTHREAD ∧ 0 ≤ u ∧ u < c.nthread

namespace Threads
variable {Q : Type} {k k' : Kernel c Q} {t : Int}

theorem congr (h : k.Threads) (state : ∀ t, (k'.thrtab t).state = (k.thrtab t).state)
    (stack : k'.stack = k.stack) (current : k'.thrcurrent = k.thrcurrent)
    (resdefer : k'.resdefer = k.resdefer) : k'.Threads := by
  have frames : ∀ t, k'.frame t = k.frame t := fun t => by simp [frame, stack]
  refine ⟨?_, ?_, ?_, ?_, ?_, ?_, ?_, ?_, ?_⟩
  · rw [current]; exact h.lo
  · rw [current]; exact h.hi
  · intro t lo hi curr
    rw [current]
    exact h.single t lo hi (state t ▸ curr)
  · rw [state]; exact h.null
  · rw [resdefer]; exact h.undeferred
  · rw [stack]; exact h.shape
  · intro t f other
    rw [frames]
    exact h.signalled t f (current ▸ other)
  · intro t u member
    rw [state]
    exact h.dead t u (stack ▸ member)
  · rw [stack]; exact h.kills

theorem setThr (h : k.Threads) {e : Thrent} (rest : e.state ≠ .curr)
    (null : t = NULLTHREAD → e.state = .ready)
    (dead : (k.thrtab t).state = .free → e.state = .free ∨ ∀ u, .killCurr u ∉ k.stack t) :
    (k.setThr t e).Threads := by
  refine ⟨h.lo, h.hi, ?_, ?_, h.undeferred, h.shape, h.signalled, ?_, h.kills⟩
  · intro u lo hi curr
    by_cases this : u = t
    · simp [this, rest] at curr
    · exact h.single u lo hi (by simpa [this] using curr)
  · by_cases this : NULLTHREAD = t
    · exact .inl (by simpa [← this] using null this.symm)
    · simpa [this] using h.null
  · intro u v member
    have free := h.dead u v member
    by_cases this : u = t
    · subst this
      simpa using (dead free).resolve_right fun none => none v member
    · simpa [this] using free

theorem push (h : k.Threads) {f : Frame} (clear : f.isRet = true ∨ k.frame k.thrcurrent = none)
    (kill : ∀ u, f = .kill u → u ≠ NULLTHREAD ∧ 0 ≤ u ∧ u < c.nthread)
    (killCurr : ∀ u, f = .killCurr u → (k.thrtab k.thrcurrent).state = .free) :
    (k.push f).Threads := by
  refine ⟨h.lo, h.hi, h.single, h.null, h.undeferred, ?_, ?_, ?_, ?_⟩
  · intro t
    by_cases this : t = k.thrcurrent
    · subst this
      rcases clear with isRet | none
      · simpa [isRet] using h.shape k.thrcurrent
      · have zero : (k.stack k.thrcurrent).countP (!·.isRet) = 0 := by
          simpa [List.countP_eq_zero, frame] using none
        simp only [push_frame, Function.update_self, List.countP_cons, zero]
        split <;> simp
    · simpa [this] using h.shape t
  · intro t f' other
    simpa [frame, show t ≠ k.thrcurrent by simpa using other] using
      h.signalled t f' (by simpa using other)
  · intro t u member
    by_cases this : t = k.thrcurrent
    · subst this
      simp only [push_frame, Function.update_self, List.mem_cons] at member ⊢
      rcases member with eq | member
      · exact killCurr u eq.symm
      · exact h.dead _ u member
    · simp only [push_frame, Function.update_of_ne this] at member
      exact h.dead t u member
  · intro t u member
    by_cases this : t = k.thrcurrent
    · subst this
      simp only [push_frame, Function.update_self, List.mem_cons] at member
      rcases member with eq | member
      · exact kill u eq.symm
      · exact h.kills _ u member
    · simp only [push_frame, Function.update_of_ne this] at member
      exact h.kills t u member

theorem ret (h : k.Threads) (v : Int) : (k.ret v).Threads :=
  h.push (.inl rfl) (by simp) (by simp)

theorem pop (h : k.Threads) {f : Frame} {fs : List Frame}
    (stack : k.stack k.thrcurrent = f :: fs) : (k.setStack k.thrcurrent fs).Threads := by
  have sub : ∀ t, ∀ g ∈ (k.setStack k.thrcurrent fs).stack t, g ∈ k.stack t := by
    intro t g member
    by_cases this : t = k.thrcurrent
    · subst this
      rw [stack]
      exact List.mem_cons_of_mem f (by simpa using member)
    · simpa [this] using member
  refine ⟨h.lo, h.hi, h.single, h.null, h.undeferred, ?_, ?_, ?_, ?_⟩
  · intro t
    by_cases this : t = k.thrcurrent
    · subst this
      have bound := h.shape k.thrcurrent
      rw [stack, List.countP_cons] at bound
      simp only [setStack_frame, Function.update_self]
      omega
    · simpa [this] using h.shape t
  · intro t g other
    simpa [frame, show t ≠ k.thrcurrent by simpa using other] using
      h.signalled t g (by simpa using other)
  · intro t u member
    exact h.dead t u (sub t _ member)
  · intro t u member
    exact h.kills t u (sub t _ member)

theorem pop_clear (h : k.Threads) {f : Frame} {fs : List Frame}
    (stack : k.stack k.thrcurrent = f :: fs) (real : f.isRet = false) :
    (k.setStack k.thrcurrent fs).frame k.thrcurrent = none := by
  have bound := h.shape k.thrcurrent
  rw [stack, List.countP_cons, if_pos (by simp [real])] at bound
  have zero : fs.countP (!·.isRet) = 0 := by omega
  simpa [frame, List.countP_eq_zero] using zero

end Threads

structure Mid (k : Kernel c Lists) : Prop extends Threads k where
  located : Located k.quetab k.home
  layout : k.Layout

structure Blocked (k : Kernel c Lists) : Prop extends Mid k where
  blocked : (k.thrtab k.thrcurrent).state ≠ .curr
  quiet : ∀ f, k.frame k.thrcurrent ≠ some (.getSignalled f)

structure Inv (k : Kernel c Lists) : Prop extends Mid k where
  running : (k.thrtab k.thrcurrent).state = .curr

section
variable {k k' : Kernel c Lists} {t q : Int}

theorem Mid.valid (h : k.Mid) (member : t ∈ k.quetab.ids q) : 0 ≤ t ∧ t < c.nthread :=
  home_some_valid ((h.located.mem q t).mp member)

theorem Mid.home_of_mem (h : k.Mid) (member : t ∈ k.quetab.ids q) : k.home t = some q :=
  (h.located.mem q t).mp member

theorem Mid.current_off (h : k.Mid) (curr : (k.thrtab k.thrcurrent).state = .curr)
    (quiet : ∀ f, k.frame k.thrcurrent ≠ some (.getSignalled f)) : k.home k.thrcurrent = none := by
  rw [home_eq_run h.lo h.hi curr, runQueue]
  split
  · rename_i f eq
    exact absurd eq (quiet f)
  · rfl

theorem Mid.update (h : k.Mid) (threads : k'.Threads) (fixed : k.Fixed k')
    (state : ∀ u, u ≠ t → (k'.thrtab u).state = (k.thrtab u).state)
    (sem : ∀ u, u ≠ t → (k'.thrtab u).sem = (k.thrtab u).sem)
    (frames : ∀ u, u ≠ t → k'.frame u = k.frame u)
    (located : Located k'.quetab (Function.update k.home t (k'.home t))) : k'.Mid := by
  refine ⟨threads, ?_, h.layout.fixed fixed⟩
  rw [home_update fixed state sem frames]
  exact located

theorem Inv.like (h : k.Inv) (same : k.Like k') (ids : k'.quetab.ids = k.quetab.ids)
    (loc : k'.quetab.loc = k.quetab.loc) : k'.Inv := by
  refine ⟨⟨h.toThreads.congr same.state same.stack same.current same.resdefer, ?_,
    h.layout.fixed same.toFixed⟩, ?_⟩
  · refine Located.congr ⟨?_, ?_, ?_⟩ same.home
    · rw [ids]; exact h.located.mem
    · rw [ids]; exact h.located.nodup
    · rw [ids, loc]; exact h.located.loc
  · rw [same.current, same.state]
    exact h.running

theorem Inv.emit (h : k.Inv) (e : Event) : (k.emit e).Inv := h.like (.of (.of (by simp)) (by simp)) rfl rfl

theorem Inv.setThr (h : k.Inv) {e : Thrent} (state : e.state = (k.thrtab t).state)
    (sem : e.sem = (k.thrtab t).sem) : (k.setThr t e).Inv :=
  h.like (like_setThr state sem) rfl rfl

theorem Inv.setCount (h : k.Inv) (s : Nat) (v : Int) : (k.setCount s v).Inv :=
  h.like (like_setCount s v) rfl rfl

theorem Inv.setStack (h : k.Inv) {fs : List Frame} (threads : (k.setStack k.thrcurrent fs).Threads)
    (same : (k.setStack k.thrcurrent fs).runQueue k.thrcurrent = k.runQueue k.thrcurrent) :
    (k.setStack k.thrcurrent fs).Inv := by
  refine ⟨h.toMid.update (t := k.thrcurrent) threads (.of (by simp)) (by simp) (by simp) ?_ ?_, h.running⟩
  · intro u other
    simp [frame, other]
  · have still : (k.setStack k.thrcurrent fs).home k.thrcurrent = k.home k.thrcurrent := by
      rw [home_eq_run h.lo h.hi (by simpa using h.running), same, home_eq_run h.lo h.hi h.running]
    rw [still, Function.update_eq_self]
    exact h.located

theorem Inv.push (h : k.Inv) {f : Frame} (threads : (k.push f).Threads)
    (quiet : k.frame k.thrcurrent = none) (off : ∀ g, f ≠ .getSignalled g) : (k.push f).Inv := by
  refine h.setStack threads ?_
  cases real : f.isRet with
  | true => simp [runQueue, frame, real]
  | false =>
      simp only [runQueue, quiet]
      simp only [frame, setStack_frame, Function.update_self, List.find?_cons, real, Bool.not_false]
      split
      · rename_i g eq
        exact absurd (Option.some.inj eq) (off g)
      · rfl

theorem Inv.ret (h : k.Inv) (v : Int) : (k.ret v).Inv := by
  refine h.setStack (h.toThreads.ret v) ?_
  simp [runQueue, frame, Frame.isRet]

theorem Inv.pop (h : k.Inv) {f : Frame} {fs : List Frame} (stack : k.stack k.thrcurrent = f :: fs)
    (off : ∀ g, f ≠ .getSignalled g) : (k.setStack k.thrcurrent fs).Inv := by
  refine h.setStack (h.toThreads.pop stack) ?_
  cases real : f.isRet with
  | true => simp [runQueue, frame, stack, real]
  | false =>
      rw [runQueue, h.toThreads.pop_clear stack real]
      simp only [runQueue, frame, stack, List.find?_cons, real, Bool.not_false]
      split
      · rename_i g eq
        exact absurd (Option.some.inj eq) (off g)
      · rfl

theorem makeReady_quetab (layout : k.Layout) (lo : 0 ≤ t) (hi : t < c.nthread) :
    (k.makeReady t).quetab = k.quetab.insert t k.readylist (k.thrtab t).prio := by
  have live : (k.setState t .ready).isbadtid t = false := by simp [lo, hi]
  simp [makeReady, insert_lists layout.good_ready.isq live]

theorem makeReady_threads (h : k.Threads)
    (live : (k.thrtab t).state = .free → ∀ u, .killCurr u ∉ k.stack t) : (k.makeReady t).Threads := by
  have moved : (k.setState t .ready).Threads := by
    refine h.setThr (by simp) (by simp) ?_
    intro free
    exact .inr (live free)
  refine moved.congr ?_ ?_ ?_ ?_ <;> simp

theorem makeReady_mid (threads : k.Threads) (layout : k.Layout)
    (located : Located k.quetab (Function.update k.home t none))
    (live : (k.thrtab t).state ≠ .free) (lo : 0 ≤ t) (hi : t < c.nthread) : (k.makeReady t).Mid := by
  refine ⟨makeReady_threads threads (fun free => absurd free live), ?_, layout.fixed (.of (by simp))⟩
  have moved : (k.makeReady t).home = Function.update k.home t (some k.readylist) := by
    have fixed : k.Fixed (k.makeReady t) := .of (by simp)
    rw [home_update (t := t) fixed (fun u other => by simp [other]) (fun u other => by simp [other])
      (by simp [frame]), home_ready lo hi (by simp)]
    simp
  rw [makeReady_quetab layout lo hi, moved]
  have placed := located.insert (t := t) (q := k.readylist) (by simp) (k.thrtab t).prio
  simpa using placed

theorem Blocked.ready_cons (h : k.Blocked) :
    ∃ t rest, k.quetab.ids k.readylist = t :: rest := by
  have npos : (NULLTHREAD : Int) < c.nthread := by exact_mod_cast c.nthread_pos
  have idle : (k.thrtab NULLTHREAD).state ≠ .curr :=
    fun curr => h.blocked (h.single NULLTHREAD (by decide) npos curr ▸ curr)
  have ready := h.null.resolve_right idle
  have on := (h.located.mem k.readylist NULLTHREAD).mpr (home_ready (by decide) npos ready)
  exact List.exists_cons_of_ne_nil (List.ne_nil_of_mem on)

theorem Blocked.head (h : k.Blocked) : ∃ t rest, k.quetab.ids k.readylist = t :: rest ∧
    (k.thrtab t).state = .ready ∧ k.dequeue k.readylist = (k.getitem t, t) := by
  obtain ⟨t, rest, ids⟩ := h.ready_cons
  refine ⟨t, rest, ids, ?_, dequeue_cons h.layout.good_ready (fun u member => h.valid member) ids⟩
  exact h.layout.of_ready (h.home_of_mem (by simp [ids]))

theorem Mid.switch_eq (h : k.Mid) {rest : List Int} (ids : k.quetab.ids k.readylist = t :: rest) :
    k.switch = (({ k.getitem t with thrcurrent := t } : Kernel c Lists).setState t .curr).emit
      (.chosen t) := by
  have taken := dequeue_cons h.layout.good_ready (fun u member => h.valid member) ids
  simp only [switch, taken]

theorem Blocked.switch (h : k.Blocked) : k.switch.Inv := by
  have idle : ∀ t : Int, 0 ≤ t → t < c.nthread → (k.thrtab t).state ≠ .curr :=
    fun t lo hi curr => h.blocked (h.single t lo hi curr ▸ curr)
  have quiet' : ∀ t f, k.frame t ≠ some (.getSignalled f) := by
    intro t f
    by_cases this : t = k.thrcurrent
    · exact this ▸ h.quiet f
    · exact h.signalled t f this
  obtain ⟨t, rest, ids⟩ := h.ready_cons
  have member : t ∈ k.quetab.ids k.readylist := by simp [ids]
  obtain ⟨lo, hi⟩ := h.valid member
  have ready : (k.thrtab t).state ≠ .free := by
    intro free
    have := h.home_of_mem member
    rw [home_eq_none (.inl free)] at this
    cases this
  rw [h.toMid.switch_eq ids]
  have threads : (({ k.getitem t with thrcurrent := t } : Kernel c Lists).setState t .curr).Threads := by
    refine ⟨lo, hi, ?_, ?_, h.undeferred, h.shape, fun u f _ => quiet' u f, ?_, h.kills⟩
    · intro u ulo uhi curr
      by_contra other
      have curr' : (k.thrtab u).state = .curr := by
        simpa [show u ≠ t by simpa using other] using curr
      exact idle u ulo uhi curr'
    · by_cases this : NULLTHREAD = t
      · exact .inr (by simp [this])
      · simpa [this] using h.null
    · intro u v member'
      have free := h.dead u v member'
      by_cases this : u = t
      · exact absurd (this ▸ free) ready
      · simpa [this] using free
  have fixed : k.Fixed ((({ k.getitem t with thrcurrent := t } : Kernel c Lists).setState t
      .curr).emit (.chosen t)) := .of (by simp)
  refine ⟨⟨threads.congr ?_ ?_ ?_ ?_, ?_, ?_⟩, ?_⟩
  · simp
  · simp
  · simp
  · simp
  · have moved : ((({ k.getitem t with thrcurrent := t } : Kernel c Lists).setState t .curr).emit
        (.chosen t)).home = Function.update k.home t none := by
      rw [home_update (t := t) fixed (fun u other => by simp [other])
        (fun u other => by simp [other]) (fun u _ => rfl), home_eq_run lo hi (by simp), runQueue]
      split
      · rename_i f eq
        exact absurd eq (quiet' t f)
      · rfl
    rw [moved]
    exact h.located.getitem t
  · exact h.layout.fixed fixed
  · simp

theorem Inv.makeReady (h : k.Inv) (same : k.Like k')
    (located : Located k'.quetab (Function.update k.home t none))
    (live : (k.thrtab t).state ≠ .free) (other : t ≠ k.thrcurrent) (lo : 0 ≤ t)
    (hi : t < c.nthread) : (k'.makeReady t).Inv := by
  refine ⟨makeReady_mid ?_ (h.layout.fixed same.toFixed) ?_ ?_ lo hi, ?_⟩
  · exact h.toThreads.congr same.state same.stack same.current same.resdefer
  · rwa [funext same.home]
  · rwa [same.state]
  · have running : (k'.thrtab k'.thrcurrent).state = .curr := by
      rw [same.current, same.state]
      exact h.running
    have apart : k'.thrcurrent ≠ t := by rw [same.current]; exact other.symm
    simpa [apart] using running

theorem Inv.off_ready (h : k.Inv) (off : k.home t = none) (live : (k.thrtab t).state ≠ .free)
    (other : t ≠ k.thrcurrent) (lo : 0 ≤ t) (hi : t < c.nthread) (same : k.Like k')
    (tab : k'.quetab = k.quetab) : (k'.makeReady t).Inv := by
  refine h.makeReady same ?_ live other lo hi
  rw [tab, ← off, Function.update_eq_self]
  exact h.located

theorem Inv.block (h : k.Inv) {e : Thrent} {f : Frame}
    (same : ((k.setThr k.thrcurrent e).push f).Like k') (user : k.thrcurrent ≠ NULLTHREAD)
    (state : e.state ≠ .curr)
    (quiet : f.isRet = true ∧ (∀ g, k.frame k.thrcurrent ≠ some (.getSignalled g)) ∨
      f.isRet = false ∧ k.frame k.thrcurrent = none ∧ ∀ g, f ≠ .getSignalled g)
    (kill : ∀ u, f ≠ .kill u) (killCurr : ∀ u, f = .killCurr u → e.state = .free)
    (located : Located k'.quetab (Function.update k.home k.thrcurrent
      (((k.setThr k.thrcurrent e).push f).home k.thrcurrent))) : k'.Blocked := by
  have moved : (k.setThr k.thrcurrent e).Threads := by
    refine h.toThreads.setThr state (fun null => absurd null user) ?_
    intro free
    rw [h.running] at free
    cases free
  have pushed : ((k.setThr k.thrcurrent e).push f).Threads := by
    refine moved.push (quiet.imp (·.1) (·.2.1)) (fun u eq => absurd eq (kill u)) ?_
    intro u eq
    simpa using killCurr u eq
  have homes : k'.home = Function.update k.home k.thrcurrent
      (((k.setThr k.thrcurrent e).push f).home k.thrcurrent) := by
    rw [funext same.home]
    refine home_update (.of (by simp)) ?_ ?_ ?_ <;> intro u other <;> simp [frame, other]
  have current : k'.thrcurrent = k.thrcurrent := by simp [same.current]
  refine ⟨⟨pushed.congr same.state same.stack same.current same.resdefer, ?_, ?_⟩, ?_, ?_⟩
  · rw [homes]
    exact located
  · have fixed : k.Fixed ((k.setThr k.thrcurrent e).push f) := .of (by simp)
    exact (h.layout.fixed fixed).fixed same.toFixed
  · rw [current, same.state]
    simpa using state
  · intro g
    rw [current]
    rcases quiet with ⟨isRet, below⟩ | ⟨real, -, top⟩
    · simpa [frame, same.stack, isRet] using below g
    · simpa [frame, same.stack, real] using top g

end

end Xinu.Kernel
