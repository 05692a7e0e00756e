import Xinu.Lib.Ring
import Xinu.System.Ethloop
import Xinu.Proof.Device.Bufpool
import Mathlib.Data.List.Forall2

namespace Xinu.Ethloop
open Lib (Byte)

def held (s : Ethloop) : List Nat := s.copying.filterMap Taken.pkt ++ s.freeing.map Freeing.pkt

def pending (s : Ethloop) : List (List Byte) := s.accepted.drop s.taken

def Holds (mem : Nat → Int → Byte) (b : Nat) (p : List Byte) : Prop :=
  Lib.load (mem b) 0 p.length = p

structure Queued (s : Ethloop) (ring : List Nat) (due : Nat) : Prop where
  start : s.index < ELOOP_NBUF
  count : s.count = ring.length
  cells : Lib.ring s.buffer ELOOP_NBUF s.index ring.length = ring.map some
  vacant : Lib.Vacant s.buffer ELOOP_NBUF s.index ring.length none
  gone : s.taken ≤ s.accepted.length
  lens : Lib.ring s.pktlen ELOOP_NBUF s.index ring.length = s.pending.map fun p => (p.length : Int)
  packets : List.Forall₂ (Holds s.pool.mem) ring s.pending
  sem : s.sem.Valid
  units : s.sem.units + s.woken.length + s.signalling.length + due = ring.length

structure Read (s : Ethloop) : Prop where
  copying : ∀ c ∈ s.copying, ∃ b p, c.pkt = some b ∧ s.accepted[c.nth]? = some p ∧
    c.pktlen = min c.len p.length ∧ Holds s.pool.mem b p
  copied : ∀ c ∈ s.copied, ∃ p, s.accepted[c.nth]? = some p ∧ c.bytes = p.take c.len
  once : (s.copying.map Taken.nth ++ s.copied.map Copied.nth).Perm (List.range s.taken)

theorem Queued.same {s s' : Ethloop} {ring : List Nat} {due due' : Nat} (queued : Queued s ring due)
    (index : s'.index = s.index) (count : s'.count = s.count) (buffer : s'.buffer = s.buffer)
    (pktlen : s'.pktlen = s.pktlen) (accepted : s'.accepted = s.accepted) (taken : s'.taken = s.taken)
    (mem : s'.pool.mem = s.pool.mem) (sem : s'.sem.Valid)
    (units : s'.sem.units + s'.woken.length + s'.signalling.length + due' = ring.length) :
    Queued s' ring due' := by
  have pending : s'.pending = s.pending := by rw [Ethloop.pending, accepted, taken, ← Ethloop.pending]
  refine ⟨?_, ?_, ?_, ?_, ?_, ?_, ?_, sem, units⟩
  · rw [index]
    exact queued.start
  · rw [count]
    exact queued.count
  · rw [buffer, index]
    exact queued.cells
  · rw [buffer, index]
    exact queued.vacant
  · rw [taken, accepted]
    exact queued.gone
  · rw [pktlen, index, pending]
    exact queued.lens
  · rw [mem, pending]
    exact queued.packets

theorem Read.same {s s' : Ethloop} (read : Read s) (copying : s'.copying = s.copying)
    (copied : s'.copied = s.copied) (accepted : s'.accepted = s.accepted) (taken : s'.taken = s.taken)
    (mem : s'.pool.mem = s.pool.mem) : Read s' := by
  refine ⟨?_, ?_, ?_⟩
  · rw [copying, accepted, mem]
    exact read.copying
  · rw [copied, accepted]
    exact read.copied
  · rw [copying, copied, taken]
    exact read.once

structure Flow (s : Ethloop) (free ring : List Nat) (dueWrite dueRead : Nat) : Prop where
  pool : s.pool.Sound ELOOP_NBUF free (ring ++ s.held) (s.releasing.length + dueWrite)
  queued : Queued s ring dueRead
  read : Read s
  fine : s.failed = 0 ∧ s.rejected = 0 ∧ s.faults = 0

theorem opened_flow (mem : Nat → Int → Byte) :
    Flow (opened mem) (List.range ELOOP_NBUF) [] 0 0 :=
  ⟨Bufpool.bfpalloc_sound _ _, ⟨Nat.zero_lt_succ _, rfl, rfl, fun _ _ _ => rfl, Nat.le_refl 0, rfl, .nil, rfl, rfl⟩,
    ⟨nofun, nofun, List.Perm.refl []⟩, rfl, rfl, rfl⟩

theorem Holds.frame {mem : Nat → Int → Byte} {b c : Nat} {p buf : List Byte} (holds : Holds mem c p)
    (other : c ≠ b) : Holds (Function.update mem b (Lib.store (mem b) 0 buf)) c p := by
  rw [Holds, Function.update_of_ne other]
  exact holds

theorem Holds.written (mem : Nat → Int → Byte) (b : Nat) (buf : List Byte) :
    Holds (Function.update mem b (Lib.store (mem b) 0 buf)) b buf := by
  rw [Holds, Function.update_self]
  exact Lib.load_store_same

structure Accepts (s s' : Ethloop) (t : Nat) (buf : List Byte) : Prop where
  accepted : s'.accepted = s.accepted ++ [buf]
  signalling : s'.signalling = s.signalling ++ [(t, (buf.length : Int))]
  returned : s'.returned = s.returned
  writing : s'.writing = s.writing

structure Waits (s s' : Ethloop) (t : Nat) (buf : List Byte) : Prop where
  queue : s'.pool.freebuf.queue = s.pool.freebuf.queue ++ [t]
  writing : s'.writing = Function.update s.writing t buf
  accepted : s'.accepted = s.accepted
  signalling : s'.signalling = s.signalling
  returned : s'.returned = s.returned

/-- What a step has to do with the packets that are written. -/
def Writes (s s' : Ethloop) : Op → Prop
  | .write t buf =>
      if buf.length < ELOOP_LINKHDRSIZE ∨ ELOOP_BUFSIZE < buf.length then s' = s.ret t SYSERR
      else if 0 < s.pool.freebuf.count then Accepts s s' t buf
      else Waits s s' t buf
  | .resumeWrite t => Accepts s s' t (s.writing t)
  | .signal w => s'.returned w.1 = some w.2 ∧ s'.accepted = s.accepted ∧ s'.writing = s.writing
  | _ => s'.accepted = s.accepted ∧ s'.signalling = s.signalling ∧ s'.writing = s.writing

namespace Flow
variable {s : Ethloop} {free ring : List Nat} {dueWrite dueRead : Nat}

theorem pending_length (flow : Flow s free ring dueWrite dueRead) : s.pending.length = ring.length :=
  flow.queued.packets.length_eq.symm

theorem place (flow : Flow s free ring dueWrite dueRead) :
    (Int.tmod (s.count + s.index) ELOOP_NBUF).toNat = (s.index + ring.length) % ELOOP_NBUF := by
  rw [flow.queued.count, ← Int.natCast_add, Nat.add_comm ring.length]
  rw [Int.tmod_eq_emod_of_nonneg (Int.natCast_nonneg _), ← Int.natCast_mod]
  exact Int.toNat_natCast _

theorem room (flow : Flow s free ring 1 dueRead) : ring.length < ELOOP_NBUF := by
  obtain ⟨rest, -, -, -, pool⟩ := flow.pool.unlink
  have length := pool.length
  rw [List.length_cons, List.length_append] at length
  omega

theorem short (flow : Flow s free ring 1 dueRead) : ¬ (ELOOP_NBUF : Int) ≤ s.count := by
  have room := flow.room
  rw [flow.queued.count]
  omega

theorem accepts (flow : Flow s free ring 1 dueRead) (t : Nat) (buf : List Byte) :
    Accepts s (s.fill t buf) t buf := by
  rw [Ethloop.fill]
  dsimp only
  rw [if_neg flow.short]
  exact ⟨rfl, rfl, rfl, rfl⟩

theorem fill (flow : Flow s free ring 1 dueRead) (t : Nat) (buf : List Byte) :
    ∃ free' ring', Flow (s.fill t buf) free' ring' 0 dueRead := by
  obtain ⟨rest, first, number, mem, pool⟩ := flow.pool.unlink
  generalize after : s.pool.unlink = unlinked at *
  obtain ⟨p, b⟩ := unlinked
  simp only at number mem pool
  subst number
  have length := pool.length
  have nodup := pool.nodup
  rw [List.nodup_append, List.nodup_cons, List.mem_append, not_or] at nodup
  obtain ⟨-, ⟨⟨fresh, unheld⟩, -⟩, -⟩ := nodup
  have room := flow.room
  have short := flow.short
  have pending : (s.accepted ++ [buf]).drop s.taken = s.pending ++ [buf] :=
    List.drop_append_of_le_length flow.queued.gone
  have still : ∀ {n : Nat} {p : List Byte}, s.accepted[n]? = some p → (s.accepted ++ [buf])[n]? = some p := by
    intro n p found
    rw [List.getElem?_append_left (List.getElem?_eq_some_iff.mp found).1, found]
  have frame : ∀ {c : Nat} {q : List Byte}, c ≠ s.pool.head → Holds s.pool.mem c q →
      Holds (p.memcpy s.pool.head buf).mem c q := by
    intro c q other holds
    rw [← mem] at holds
    exact holds.frame other
  rw [Ethloop.fill]
  simp only [after, if_neg short, store, flow.place]
  refine ⟨rest, ring ++ [s.pool.head], ?_, ⟨flow.queued.start, ?_, ?_, ?_, ?_, ?_, ?_, flow.queued.sem, ?_⟩,
    ⟨?_, ?_, flow.read.once⟩, flow.fine⟩
  · refine (pool.memcpy s.pool.head buf).rearrange ?_
    show (s.pool.head :: (ring ++ s.held)).Perm (ring ++ [s.pool.head] ++ s.held)
    rw [List.append_assoc, List.singleton_append]
    exact List.perm_middle.symm
  · rw [List.length_append, Int.natCast_add, ← flow.queued.count]
    rfl
  · rw [List.length_append, List.map_append, ← flow.queued.cells]
    exact Lib.ring_push room _
  · rw [List.length_append]
    exact flow.queued.vacant.push _
  · show s.taken ≤ (s.accepted ++ [buf]).length
    rw [List.length_append]
    exact Nat.le_add_right_of_le flow.queued.gone
  · show _ = ((s.accepted ++ [buf]).drop s.taken).map _
    rw [pending, List.length_append, List.map_append, ← flow.queued.lens]
    exact Lib.ring_push room _
  · show List.Forall₂ (Holds (p.memcpy s.pool.head buf).mem) _ ((s.accepted ++ [buf]).drop s.taken)
    rw [pending]
    refine List.rel_append ?_ (.cons ?_ .nil)
    · have packets := flow.queued.packets
      refine (List.forall₂_iff_get.mpr ⟨packets.length_eq, fun i bound bound' => ?_⟩)
      refine frame (fun same => fresh ?_) ((List.forall₂_iff_get.mp packets).2 i bound bound')
      exact same ▸ List.get_mem _ _
    · exact Holds.written _ _ _
  · have units := flow.queued.units
    show s.sem.units + s.woken.length + (s.signalling ++ [(t, (buf.length : Int))]).length + dueRead =
      (ring ++ [s.pool.head]).length
    rw [List.length_append, List.length_append, List.length_singleton, List.length_singleton]
    omega
  · intro c member
    obtain ⟨b, q, pkt, found, pktlen, holds⟩ := flow.read.copying c member
    refine ⟨b, q, pkt, still found, pktlen, frame ?_ holds⟩
    intro same
    refine unheld (List.mem_append_left _ (List.mem_filterMap.mpr ⟨c, member, ?_⟩))
    rw [pkt, same]
  · intro c member
    obtain ⟨q, found, bytes⟩ := flow.read.copied c member
    exact ⟨q, still found, bytes⟩

theorem take (flow : Flow s free ring dueWrite 1) (t len : Nat) :
    ∃ ring', Flow (s.take t len) free ring' dueWrite 0 := by
  have units := flow.queued.units
  have cells := flow.queued.cells
  have lens := flow.queued.lens
  have packets := flow.queued.packets
  have vacant := flow.queued.vacant
  have length := flow.pool.length
  have start := flow.queued.start
  cases ring with
  | nil =>
      rw [List.length_nil] at units
      omega
  | cons b rest =>
      have room : rest.length < ELOOP_NBUF := by
        rw [List.length_append, List.length_cons] at length
        omega
      cases pending : s.pending with
      | nil =>
          rw [pending] at packets
          cases packets
      | cons p later =>
          rw [pending] at packets lens
          rw [List.length_cons, Lib.ring_pop start, List.map_cons] at cells lens
          obtain ⟨cell, cells⟩ := List.cons.inj cells
          obtain ⟨pktlen, lens⟩ := List.cons.inj lens
          have more : s.taken < s.accepted.length := by
            by_contra none
            rw [pending.symm.trans (List.drop_eq_nil_of_le (Nat.le_of_not_lt none))] at packets
            cases packets
          rw [Ethloop.pending, List.drop_eq_getElem_cons more] at pending
          obtain ⟨this, pending⟩ := List.cons.inj pending
          have found : s.accepted[s.taken]? = some p := by
            rw [List.getElem?_eq_getElem more, this]
          obtain ⟨holds, packets⟩ := List.forall₂_cons.mp packets
          refine ⟨rest, ?_, ⟨Nat.mod_lt _ (Nat.zero_lt_succ _), ?_, ?_, vacant.pop start, more, ?_, ?_,
            flow.queued.sem, ?_⟩, ⟨?_, flow.read.copied, ?_⟩, flow.fine⟩
          · refine flow.pool.rearrange ?_
            show (b :: rest ++ s.held).Perm (rest ++ (List.filterMap Taken.pkt (s.copying ++
              [⟨t, s.buffer s.index, _, len, s.taken⟩]) ++ s.freeing.map Freeing.pkt))
            rw [cell, List.filterMap_append, List.append_assoc]
            exact List.perm_middle.symm.trans (List.perm_middle.symm.append_left rest)
          · show s.count - 1 = _
            rw [flow.queued.count, List.length_cons]
            omega
          · exact (Lib.ring_clear start room none).trans cells
          · exact (Lib.ring_clear start room 0).trans (lens.trans (pending ▸ rfl))
          · show List.Forall₂ (Holds s.pool.mem) rest (s.accepted.drop (s.taken + 1))
            rw [pending]
            exact packets
          · rw [List.length_cons] at units
            show s.sem.units + s.woken.length + s.signalling.length + 0 = rest.length
            omega
          · intro c member
            rcases List.mem_append.mp member with before | last
            · exact flow.read.copying c before
            · rw [List.mem_singleton.mp last]
              refine ⟨b, p, cell, found, ?_, holds⟩
              show (if (len : Int) < s.pktlen s.index then (len : Int) else s.pktlen s.index) =
                ((min len p.length : Nat) : Int)
              rw [pktlen]
              split
              · omega
              · omega
          · show ((s.copying ++ [_]).map Taken.nth ++ s.copied.map Copied.nth).Perm (List.range (s.taken + 1))
            rw [List.map_append, List.append_assoc, List.range_succ]
            exact List.perm_middle.trans ((flow.read.once.cons s.taken).trans (List.perm_append_singleton _ _).symm)

theorem passed (flow : Flow s free ring 0 0) {t : Nat} (passes : (s.pool.freebuf.wait t).2 = false) :
    Flow { s with pool := { s.pool with freebuf := (s.pool.freebuf.wait t).1 } } free ring 1 0 :=
  ⟨flow.pool.pass passes,
    flow.queued.same rfl rfl rfl rfl rfl rfl rfl flow.queued.sem flow.queued.units,
    flow.read.same rfl rfl rfl rfl rfl, flow.fine⟩

theorem woken (flow : Flow s free ring 0 0) {t : Nat} (member : t ∈ s.pool.woken) :
    Flow { s with pool := { s.pool with woken := s.pool.woken.erase t } } free ring 1 0 :=
  ⟨flow.pool.wake member, flow.queued.same rfl rfl rfl rfl rfl rfl rfl flow.queued.sem flow.queued.units,
    flow.read.same rfl rfl rfl rfl rfl, flow.fine⟩

theorem write (flow : Flow s free ring 0 0) (t : Nat) (buf : List Byte) :
    ∃ free' ring', Flow (s.ethloopWrite t buf) free' ring' 0 0 := by
  have queued := flow.queued
  rw [ethloopWrite]
  split
  · exact ⟨free, ring, flow.pool, queued.same rfl rfl rfl rfl rfl rfl rfl queued.sem queued.units,
      flow.read.same rfl rfl rfl rfl rfl, flow.fine⟩
  · generalize waited : s.pool.freebuf.wait t = result
    obtain ⟨freebuf, blocks⟩ := result
    have first : freebuf = (s.pool.freebuf.wait t).1 := by rw [waited]
    have second : blocks = (s.pool.freebuf.wait t).2 := by rw [waited]
    subst first
    cases blocks with
    | true =>
        exact ⟨free, ring, flow.pool.block second.symm,
          queued.same rfl rfl rfl rfl rfl rfl rfl queued.sem queued.units,
          flow.read.same rfl rfl rfl rfl rfl, flow.fine⟩
    | false => exact (flow.passed second.symm).fill t buf

theorem resumeWrite (flow : Flow s free ring 0 0) {t : Nat} (member : t ∈ s.pool.woken) :
    ∃ free' ring', Flow (s.resumeWrite t) free' ring' 0 0 :=
  (flow.woken member).fill t _

theorem signal (flow : Flow s free ring 0 0) {w : Nat × Int} (member : w ∈ s.signalling) :
    Flow (s.signal w) free ring 0 0 := by
  have queued := flow.queued
  have units := queued.units
  have positive := List.length_pos_of_mem member
  refine ⟨flow.pool, queued.same rfl rfl rfl rfl rfl rfl rfl (Lib.Sem.signal_valid queued.sem) ?_,
    flow.read.same rfl rfl rfl rfl rfl, flow.fine⟩
  show s.sem.signal.1.units + (s.woken ++ s.sem.signal.2.toList).length + (s.signalling.erase w).length + 0 =
    ring.length
  rw [List.length_erase_of_mem member]
  rcases Lib.Sem.signal_cases queued.sem with ⟨t, -, released, same⟩ | ⟨-, -, released, more⟩
  · rw [released, same, List.length_append, Option.toList_some, List.length_singleton]
    omega
  · rw [released, more, Option.toList_none, List.append_nil]
    omega

theorem reading (flow : Flow s free ring 0 0) (t len : Nat) :
    ∃ ring', Flow (s.ethloopRead t len) free ring' 0 0 := by
  have queued := flow.queued
  have units := queued.units
  have valid := Lib.Sem.wait_valid (t := t) queued.sem
  rw [ethloopRead]
  generalize waited : s.sem.wait t = result at *
  obtain ⟨sem, blocks⟩ := result
  cases blocks with
  | true =>
      obtain ⟨-, none, short⟩ := Lib.Sem.wait_blocks (s := s.sem) (t := t) (by rw [waited])
      rw [waited] at none
      refine ⟨ring, flow.pool, queued.same rfl rfl rfl rfl rfl rfl rfl valid ?_,
        flow.read.same rfl rfl rfl rfl rfl, flow.fine⟩
      have none : sem.units = 0 := none
      show sem.units + s.woken.length + s.signalling.length + 0 = ring.length
      omega
  | false =>
      obtain ⟨-, taken⟩ := Lib.Sem.wait_passes (s := s.sem) (t := t) (by rw [waited])
      rw [waited] at taken
      have passed : Flow { s with sem } free ring 0 1 := by
        refine ⟨flow.pool, queued.same rfl rfl rfl rfl rfl rfl rfl valid ?_,
          flow.read.same rfl rfl rfl rfl rfl, flow.fine⟩
        have taken : sem.units + 1 = s.sem.units := taken
        show sem.units + s.woken.length + s.signalling.length + 1 = ring.length
        omega
      exact passed.take t len

theorem resumeRead (flow : Flow s free ring 0 0) {t : Nat} (member : t ∈ s.woken) :
    ∃ ring', Flow (s.resumeRead t) free ring' 0 0 := by
  have queued := flow.queued
  have units := queued.units
  have positive := List.length_pos_of_mem member
  have woken : Flow { s with woken := s.woken.erase t } free ring 0 1 := by
    refine ⟨flow.pool, queued.same rfl rfl rfl rfl rfl rfl rfl queued.sem ?_,
      flow.read.same rfl rfl rfl rfl rfl, flow.fine⟩
    show s.sem.units + (s.woken.erase t).length + s.signalling.length + 1 = ring.length
    rw [List.length_erase_of_mem member]
    omega
  exact woken.take t _

theorem copy (flow : Flow s free ring 0 0) {c : Taken} (member : c ∈ s.copying) :
    Flow (s.copy c) free ring 0 0 := by
  obtain ⟨b, p, pkt, found, pktlen, holds⟩ := flow.read.copying c member
  have perm := List.perm_cons_erase member
  have buffers : s.held.Perm (b :: ((s.copying.erase c).filterMap Taken.pkt ++ s.freeing.map Freeing.pkt)) := by
    have split := (perm.filterMap Taken.pkt).append_right (s.freeing.map Freeing.pkt)
    rwa [List.filterMap_cons_some pkt] at split
  rw [Ethloop.copy, pkt]
  refine ⟨flow.pool.rearrange ((buffers.trans ?_).append_left ring),
    flow.queued.same rfl rfl rfl rfl rfl rfl rfl flow.queued.sem flow.queued.units, ⟨?_, ?_, ?_⟩, flow.fine⟩
  · show (b :: ((s.copying.erase c).filterMap Taken.pkt ++ s.freeing.map Freeing.pkt)).Perm
      ((s.copying.erase c).filterMap Taken.pkt ++
        (s.freeing ++ [Freeing.mk c.thread b c.pktlen]).map Freeing.pkt)
    rw [List.map_append, ← List.append_assoc]
    exact (List.perm_append_singleton b _).symm
  · exact fun d inside => flow.read.copying d (List.mem_of_mem_erase inside)
  · intro d inside
    rcases List.mem_append.mp inside with before | last
    · exact flow.read.copied d before
    · rw [List.mem_singleton.mp last]
      refine ⟨p, found, ?_⟩
      have short : c.pktlen.toNat = min c.len p.length := by omega
      have part := @Lib.load_part (s.pool.mem b) 0 p.length (min c.len p.length) 0
        (by omega)
      rw [List.drop_zero, holds] at part
      show Lib.load (s.pool.mem b) 0 c.pktlen.toNat = p.take c.len
      rw [short, ← Int.add_zero 0]
      refine part.symm.trans ?_
      rw [List.take_eq_take_iff]
      omega
  · have numbers := (perm.map Taken.nth).append_right (s.copied.map Copied.nth)
    refine List.Perm.trans ?_ flow.read.once
    refine List.Perm.trans ?_ numbers.symm
    show ((s.copying.erase c).map Taken.nth ++ (s.copied ++ [_]).map Copied.nth).Perm
      (c.nth :: ((s.copying.erase c).map Taken.nth ++ s.copied.map Copied.nth))
    rw [List.map_append, ← List.append_assoc]
    exact List.perm_append_singleton c.nth _

theorem freeing (flow : Flow s free ring 0 0) {f : Freeing} (member : f ∈ s.freeing) :
    ∃ free', Flow (s.free f) free' ring 0 0 := by
  have queued := flow.queued
  have inside : f.pkt ∈ ring ++ s.held :=
    List.mem_append_right _ (List.mem_append_right _ (List.mem_map_of_mem member))
  have perm : (ring ++ s.held).Perm (f.pkt :: (ring ++ (s.copying.filterMap Taken.pkt ++
      (s.freeing.erase f).map Freeing.pkt))) := by
    have split := (List.perm_cons_erase member).map Freeing.pkt
    refine ((split.append_left _).append_left ring).trans ?_
    rw [List.map_cons]
    exact (List.perm_middle.append_left ring).trans List.perm_middle
  obtain ⟨pool, linked, mem, sound⟩ := flow.pool.link inside
  rw [Ethloop.free]
  simp only [linked]
  refine ⟨f.pkt :: free, ?_, queued.same rfl rfl rfl rfl rfl rfl mem queued.sem queued.units,
    flow.read.same rfl rfl rfl rfl mem, flow.fine⟩
  have due : (s.releasing ++ [(f.thread, f.pktlen)]).length + 0 = s.releasing.length + 0 + 1 := by
    rw [List.length_append]
    rfl
  rw [due]
  refine sound.rearrange ?_
  have erased := perm.erase f.pkt
  rwa [List.erase_cons_head] at erased

theorem release (flow : Flow s free ring 0 0) {r : Nat × Int} (member : r ∈ s.releasing) :
    Flow (s.release r) free ring 0 0 := by
  have positive := List.length_pos_of_mem member
  have due : s.releasing.length + 0 = (s.releasing.erase r).length + 0 + 1 := by
    rw [List.length_erase_of_mem member]
    omega
  have pool := flow.pool
  rw [due] at pool
  exact ⟨pool.signal, flow.queued.same rfl rfl rfl rfl rfl rfl rfl flow.queued.sem flow.queued.units,
    flow.read.same rfl rfl rfl rfl rfl, flow.fine⟩

theorem step {s' : Ethloop} {op : Op} (flow : Flow s free ring 0 0) (action : step op s = some s') :
    ∃ free' ring', Flow s' free' ring' 0 0 := by
  cases op with
  | write t buf =>
      simp only [Ethloop.step, Option.ite_none_left_eq_some] at action
      cases action.2
      exact flow.write t buf
  | resumeWrite t =>
      simp only [Ethloop.step, Option.ite_none_right_eq_some] at action
      cases action.2
      exact flow.resumeWrite action.1
  | signal w =>
      simp only [Ethloop.step, Option.ite_none_right_eq_some] at action
      cases action.2
      exact ⟨free, ring, flow.signal action.1⟩
  | read t len =>
      simp only [Ethloop.step, Option.ite_none_left_eq_some] at action
      cases action.2
      exact ⟨free, flow.reading t len⟩
  | resumeRead t =>
      simp only [Ethloop.step, Option.ite_none_right_eq_some] at action
      cases action.2
      exact ⟨free, flow.resumeRead action.1⟩
  | copy c =>
      simp only [Ethloop.step, Option.ite_none_right_eq_some] at action
      cases action.2
      exact ⟨free, ring, flow.copy action.1⟩
  | free f =>
      simp only [Ethloop.step, Option.ite_none_right_eq_some] at action
      cases action.2
      obtain ⟨free', freed⟩ := flow.freeing action.1
      exact ⟨free', ring, freed⟩
  | release r =>
      simp only [Ethloop.step, Option.ite_none_right_eq_some] at action
      cases action.2
      exact ⟨free, ring, flow.release action.1⟩

theorem writes_write (flow : Flow s free ring 0 0) (t : Nat) (buf : List Byte) :
    Writes s (s.ethloopWrite t buf) (.write t buf) := by
  rw [ethloopWrite, Writes]
  split
  · rfl
  · have passes := Lib.Sem.wait_snd s.pool.freebuf t
    generalize waited : s.pool.freebuf.wait t = result at passes
    obtain ⟨freebuf, blocks⟩ := result
    cases blocks with
    | true =>
        rw [if_neg (passes.mp rfl)]
        have queue := (Lib.Sem.wait_blocks (s := s.pool.freebuf) (t := t) (by rw [waited])).1
        rw [waited] at queue
        exact ⟨queue, rfl, rfl, rfl, rfl⟩
    | false =>
        rw [if_pos (not_not.mp (mt passes.mpr Bool.false_ne_true))]
        have passed := flow.passed (t := t) (by rw [waited])
        rw [waited] at passed
        obtain ⟨accepted, signalling, returned, writing⟩ := passed.accepts t buf
        exact ⟨accepted, signalling, returned, writing⟩

theorem writes {s' : Ethloop} {op : Op} (flow : Flow s free ring 0 0) (action : Ethloop.step op s = some s') :
    Writes s s' op := by
  cases op with
  | write t buf =>
      simp only [Ethloop.step, Option.ite_none_left_eq_some] at action
      cases action.2
      exact flow.writes_write t buf
  | resumeWrite t =>
      simp only [Ethloop.step, Option.ite_none_right_eq_some] at action
      cases action.2
      obtain ⟨accepted, signalling, returned, writing⟩ := (flow.woken action.1).accepts t (s.writing t)
      exact ⟨accepted, signalling, returned, writing⟩
  | signal w =>
      simp only [Ethloop.step, Option.ite_none_right_eq_some] at action
      cases action.2
      exact ⟨Function.update_self .., rfl, rfl⟩
  | read t len =>
      simp only [Ethloop.step, Option.ite_none_left_eq_some] at action
      cases action.2
      show (s.ethloopRead t len).accepted = _ ∧ (s.ethloopRead t len).signalling = _ ∧ (s.ethloopRead t len).writing = _
      rw [ethloopRead]
      split <;> exact ⟨rfl, rfl, rfl⟩
  | resumeRead t =>
      simp only [Ethloop.step, Option.ite_none_right_eq_some] at action
      cases action.2
      exact ⟨rfl, rfl, rfl⟩
  | copy c =>
      simp only [Ethloop.step, Option.ite_none_right_eq_some] at action
      cases action.2
      show (s.copy c).accepted = _ ∧ (s.copy c).signalling = _ ∧ (s.copy c).writing = _
      rw [Ethloop.copy]
      dsimp only
      split <;> exact ⟨rfl, rfl, rfl⟩
  | free f =>
      simp only [Ethloop.step, Option.ite_none_right_eq_some] at action
      cases action.2
      show (s.free f).accepted = _ ∧ (s.free f).signalling = _ ∧ (s.free f).writing = _
      rw [Ethloop.free]
      dsimp only
      split <;> exact ⟨rfl, rfl, rfl⟩
  | release r =>
      simp only [Ethloop.step, Option.ite_none_right_eq_some] at action
      cases action.2
      exact ⟨rfl, rfl, rfl⟩

end Flow

end Xinu.Ethloop
