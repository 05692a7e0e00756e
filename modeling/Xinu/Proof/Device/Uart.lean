import Xinu.Lib.Ring
import Xinu.System.Uart

namespace Xinu.Uart
open Lib (Byte)

def ring (u : Uart) : List Octet := Lib.ring u.out UART_OBLEN u.ostart u.ocount

def accepted (u : Uart) : List Octet := u.sent ++ u.ring

def left (u : Uart) (t : Nat) : List Byte :=
  match u.frames t with
  | some f => f.rest
  | none => []

def bytesOf (t : Nat) (octets : List Octet) : List Byte :=
  (octets.filter fun o => o.writer = t).map Octet.byte

def waiting (u : Uart) : List Nat := u.osema.queue ++ u.woken

theorem bytesOf_append (t : Nat) (xs ys : List Octet) :
    bytesOf t (xs ++ ys) = bytesOf t xs ++ bytesOf t ys := by
  simp [bytesOf]

@[simp] theorem bytesOf_self (t : Nat) (ch : Byte) : bytesOf t [⟨t, ch⟩] = [ch] := by
  simp [bytesOf]

theorem bytesOf_other {t t' : Nat} (other : t' ≠ t) (ch : Byte) : bytesOf t' [⟨t, ch⟩] = [] := by
  simp [bytesOf, Ne.symm other]

/-- What holds whenever some threads have still to write `rest`. -/
structure Sound (u : Uart) (rest : Nat → List Byte) : Prop where
  ready : u.ready = true
  blocking : u.noblock = false
  sem : u.osema.Valid
  start : u.ostart < UART_OBLEN
  idle : u.oidle = true → u.ocount = 0
  nodup : u.waiting.Nodup
  frames : ∀ t ∈ u.waiting, ∃ f, u.frames t = some f ∧ f.rest = rest t ∧ f.rest ≠ []
  order : ∀ t, bytesOf t u.accepted ++ rest t = u.given t

def Room (u : Uart) (taken : Nat) : Prop :=
  u.osema.units + u.woken.length + taken + u.ocount = UART_OBLEN

structure Ordered (u : Uart) : Prop where
  sound : Sound u u.left
  room : u.Room 0
  inside : ∀ t, u.frames t ≠ none → t ∈ u.waiting

structure Running (u : Uart) (t : Nat) (bytes : List Byte) (taken : Nat) : Prop where
  sound : Sound u (Function.update u.left t bytes)
  room : u.Room taken
  away : t ∉ u.waiting
  inside : ∀ t' ≠ t, u.frames t' ≠ none → t' ∈ u.waiting

namespace Running
variable {u : Uart} {t : Nat} {ch : Byte} {bytes : List Byte} {taken : Nat}

theorem order_next {u' : Uart} (running : Running u t (ch :: bytes) taken)
    (next : u'.accepted = u.accepted ++ [⟨t, ch⟩]) (given : u'.given = u.given)
    (same : ∀ t' ≠ t, u'.left t' = u.left t') :
    ∀ t', bytesOf t' u'.accepted ++ Function.update u'.left t bytes t' = u'.given t' := by
  intro t'
  have before := running.sound.order t'
  rw [next, given, ← before, bytesOf_append, List.append_assoc]
  by_cases self : t' = t
  · subst self
    rw [bytesOf_self, Function.update_self, Function.update_self, List.singleton_append]
  · rw [bytesOf_other self, Function.update_of_ne self, Function.update_of_ne self, same t' self,
      List.nil_append]

theorem frames_next {u' : Uart} {taken' : Nat} (running : Running u t bytes taken')
    (waits : u'.waiting = u.waiting) (frames : u'.frames = u.frames) (bytes' : List Byte) :
    ∀ t' ∈ u'.waiting, ∃ f, u'.frames t' = some f ∧
      f.rest = Function.update u'.left t bytes' t' ∧ f.rest ≠ [] := by
  intro t' member
  rw [waits] at member
  have other : t' ≠ t := fun same => running.away (same ▸ member)
  obtain ⟨f, frame, rest, some⟩ := running.sound.frames t' member
  refine ⟨f, by rw [frames, frame], ?_, some⟩
  rw [Function.update_of_ne other] at rest ⊢
  rw [rest, left, left, frames]

theorem left_same {u' : Uart} (frames : u'.frames = u.frames) : u'.left = u.left := by
  funext t
  rw [left, left, frames]

theorem accepted_putc (idle : u.ocount = 0) : (u.putc t ch).accepted = u.accepted ++ [⟨t, ch⟩] := by
  have empty : u.ring = [] := by rw [ring, idle, Lib.ring_zero]
  have still : (u.putc t ch).ring = u.ring := rfl
  rw [accepted, accepted, still, empty, List.append_nil, List.append_nil]
  rfl

theorem accepted_store (room : u.ocount < UART_OBLEN) :
    (u.store t ch).accepted = u.accepted ++ [⟨t, ch⟩] := by
  rw [accepted, accepted, List.append_assoc]
  congr 1
  exact Lib.ring_push room _

theorem putc (running : Running u t (ch :: bytes) 0) (idle : u.oidle = true) :
    Running (u.putc t ch) t bytes 0 := by
  have empty := running.sound.idle idle
  refine ⟨⟨running.sound.ready, running.sound.blocking, running.sound.sem, running.sound.start, nofun,
    running.sound.nodup, ?_, ?_⟩, running.room, running.away, running.inside⟩
  · exact running.frames_next rfl rfl bytes
  · exact running.order_next (accepted_putc empty) rfl fun t' _ => congrFun (left_same rfl) t'

theorem store (running : Running u t (ch :: bytes) 1) (busy : u.oidle = false) :
    Running (u.store t ch) t bytes 0 := by
  have room := running.room
  have free : u.ocount < UART_OBLEN := by
    rw [Room] at room
    omega
  refine ⟨⟨running.sound.ready, running.sound.blocking, running.sound.sem, running.sound.start, ?_,
    running.sound.nodup, ?_, ?_⟩, ?_, running.away, running.inside⟩
  · intro idle
    rw [show (u.store t ch).oidle = u.oidle from rfl, busy] at idle
    cases idle
  · exact running.frames_next rfl rfl bytes
  · exact running.order_next (accepted_store free) rfl fun t' _ => congrFun (left_same rfl) t'
  · rw [Room] at room ⊢
    show u.osema.units + u.woken.length + 0 + (u.ocount + 1) = UART_OBLEN
    omega

theorem pass (running : Running u t bytes 0) (passes : (u.osema.wait t).2 = false) :
    Running { u with osema := (u.osema.wait t).1 } t bytes 1 := by
  obtain ⟨queue, units⟩ := Lib.Sem.wait_passes passes
  have waits : ({ u with osema := (u.osema.wait t).1 } : Uart).waiting = u.waiting := by
    rw [waiting, waiting, queue]
  refine ⟨⟨running.sound.ready, running.sound.blocking, Lib.Sem.wait_valid running.sound.sem,
    running.sound.start, running.sound.idle, ?_, ?_, running.sound.order⟩, ?_, ?_, ?_⟩
  · rw [waits]
    exact running.sound.nodup
  · exact running.frames_next waits rfl bytes
  · have room := running.room
    rw [Room] at room ⊢
    show (u.osema.wait t).1.units + u.woken.length + 1 + u.ocount = UART_OBLEN
    omega
  · rw [waits]
    exact running.away
  · rw [waits]
    exact running.inside

theorem block (running : Running u t (ch :: bytes) 0) (blocks : (u.osema.wait t).2 = true) (count : Nat) :
    Ordered { u with
      osema := (u.osema.wait t).1
      frames := Function.update u.frames t (some ⟨ch :: bytes, count⟩) } := by
  obtain ⟨queue, none, short⟩ := Lib.Sem.wait_blocks blocks
  generalize after : ({ u with
    osema := (u.osema.wait t).1
    frames := Function.update u.frames t (some ⟨ch :: bytes, count⟩) } : Uart) = u'
  have waits : u'.waiting = u.osema.queue ++ [t] ++ u.woken := by
    rw [← after, waiting, queue]
  have perm : u'.waiting.Perm (t :: u.waiting) := by
    rw [waits, List.append_assoc, List.singleton_append]
    exact List.perm_middle
  have frames : u'.frames = Function.update u.frames t (some ⟨ch :: bytes, count⟩) := by
    rw [← after]
  have rest : u'.left = Function.update u.left t (ch :: bytes) := by
    funext t'
    rw [left, frames]
    by_cases self : t' = t
    · subst self
      rw [Function.update_self, Function.update_self]
    · rw [Function.update_of_ne self, Function.update_of_ne self, left]
  refine ⟨⟨?_, ?_, ?_, ?_, ?_, ?_, ?_, ?_⟩, ?_, ?_⟩
  · rw [← after]
    exact running.sound.ready
  · rw [← after]
    exact running.sound.blocking
  · rw [← after]
    exact Lib.Sem.wait_valid running.sound.sem
  · rw [← after]
    exact running.sound.start
  · rw [← after]
    exact running.sound.idle
  · exact perm.nodup_iff.mpr (List.nodup_cons.mpr ⟨running.away, running.sound.nodup⟩)
  · intro t' member
    rw [frames, rest]
    rcases List.mem_cons.mp (perm.mem_iff.mp member) with self | before
    · subst self
      exact ⟨_, Function.update_self .., by rw [Function.update_self], List.cons_ne_nil _ _⟩
    · have other : t' ≠ t := fun same => running.away (same ▸ before)
      rw [Function.update_of_ne other]
      exact running.sound.frames t' before
  · rw [rest, ← after]
    exact running.sound.order
  · have room := running.room
    rw [← after, Room]
    rw [Room] at room
    show (u.osema.wait t).1.units + u.woken.length + 0 + u.ocount = UART_OBLEN
    omega
  · intro t' framed
    rw [perm.mem_iff, List.mem_cons]
    by_cases self : t' = t
    · exact .inl self
    · rw [frames, Function.update_of_ne self] at framed
      exact .inr (running.inside t' self framed)

theorem finish (running : Running u t [] 0) (count : Int) : Ordered (u.finish t count) := by
  have frames : (u.finish t count).frames = Function.update u.frames t none := rfl
  have rest : (u.finish t count).left = Function.update u.left t [] := by
    funext t'
    rw [left, frames]
    by_cases self : t' = t
    · subst self
      rw [Function.update_self, Function.update_self]
    · rw [Function.update_of_ne self, Function.update_of_ne self, left]
  refine ⟨⟨running.sound.ready, running.sound.blocking, running.sound.sem, running.sound.start,
    running.sound.idle, running.sound.nodup, ?_, ?_⟩, running.room, ?_⟩
  · intro t' member
    have other : t' ≠ t := fun same => running.away (same ▸ member)
    rw [rest, frames, Function.update_of_ne other]
    exact running.sound.frames t' member
  · rw [rest]
    exact running.sound.order
  · intro t' framed
    rw [frames] at framed
    have other : t' ≠ t := by
      intro same
      rw [same, Function.update_self] at framed
      exact framed rfl
    rw [Function.update_of_ne other] at framed
    exact running.inside t' other framed

end Running

theorem writeLoop_spec {t : Nat} {bytes : List Byte} {u : Uart} (count : Nat)
    (running : Running u t bytes 0) :
    Ordered (writeLoop t bytes count u) ∧ u.accepted <+: (writeLoop t bytes count u).accepted ∧
      u.sent <+: (writeLoop t bytes count u).sent := by
  induction bytes generalizing u count with
  | nil => exact ⟨running.finish count, List.prefix_rfl, List.prefix_rfl⟩
  | cons ch bytes ih =>
      rw [writeLoop]
      split
      · rename_i idle
        obtain ⟨ordered, more, sent⟩ := ih (count + 1) (running.putc idle)
        rw [Running.accepted_putc (running.sound.idle idle)] at more
        exact ⟨ordered, (List.prefix_append ..).trans more, (List.prefix_append ..).trans sent⟩
      · rename_i busy
        rw [if_neg (by rw [running.sound.blocking]; simp)]
        generalize waited : u.osema.wait t = result
        obtain ⟨osema, blocks⟩ := result
        have first : osema = (u.osema.wait t).1 := by rw [waited]
        have second : blocks = (u.osema.wait t).2 := by rw [waited]
        subst first
        cases blocks with
        | true => exact ⟨running.block second.symm count, List.prefix_rfl, List.prefix_rfl⟩
        | false =>
            have passed := running.pass second.symm
            have free : u.ocount < UART_OBLEN := by
              have room := passed.room
              rw [Room] at room
              simp only at room
              omega
            obtain ⟨ordered, more, sent⟩ := ih (count + 1) (passed.store (by simpa using busy))
            refine ⟨ordered, List.IsPrefix.trans ?_ more, sent⟩
            rw [Running.accepted_store (by exact free)]
            exact List.prefix_append ..

namespace Ordered
variable {u : Uart} {t : Nat}

theorem accepted_le (ordered : Ordered u) : u.ocount ≤ UART_OBLEN := by
  have room := ordered.room
  rw [Room] at room
  omega

theorem write (ordered : Ordered u) (outside : u.frames t = none) (buf : List Byte) :
    Ordered (u.uartWrite t buf) ∧ u.accepted <+: (u.uartWrite t buf).accepted ∧
      u.sent <+: (u.uartWrite t buf).sent := by
  rw [uartWrite, if_neg (by simp [ordered.sound.ready])]
  have away : t ∉ u.waiting := by
    intro member
    obtain ⟨f, frame, -⟩ := ordered.sound.frames t member
    rw [outside] at frame
    cases frame
  have none : u.left t = [] := by rw [left, outside]
  refine writeLoop_spec (u := { u with given := Function.update u.given t (u.given t ++ buf) }) 0
    ⟨⟨ordered.sound.ready, ordered.sound.blocking, ordered.sound.sem, ordered.sound.start,
      ordered.sound.idle, ordered.sound.nodup, ?_, ?_⟩, ordered.room, away, fun t' _ => ordered.inside t'⟩
  · intro t' member
    have other : t' ≠ t := fun same => away (same ▸ member)
    rw [Function.update_of_ne other]
    exact ordered.sound.frames t' member
  · intro t'
    have before := ordered.sound.order t'
    by_cases self : t' = t
    · subst self
      rw [none, List.append_nil] at before
      show bytesOf t' u.accepted ++ Function.update u.left t' buf t' =
        Function.update u.given t' (u.given t' ++ buf) t'
      rw [Function.update_self, Function.update_self, before]
    · show bytesOf t' u.accepted ++ Function.update u.left t buf t' =
        Function.update u.given t (u.given t ++ buf) t'
      rw [Function.update_of_ne self, Function.update_of_ne self]
      exact before

theorem resume (ordered : Ordered u) (member : t ∈ u.woken) (busy : u.oidle = false) :
    Ordered (u.resume t) ∧ u.accepted <+: (u.resume t).accepted ∧ u.sent <+: (u.resume t).sent := by
  have perm : u.waiting.Perm (t :: (u.osema.queue ++ u.woken.erase t)) :=
    ((List.perm_cons_erase member).append_left _).trans List.perm_middle
  have nodup := perm.nodup_iff.mp ordered.sound.nodup
  obtain ⟨away, rest⟩ := List.nodup_cons.mp nodup
  obtain ⟨⟨bytes, count⟩, frame, same, some⟩ := ordered.sound.frames t (perm.mem_iff.mpr (by simp))
  cases bytes with
  | nil => exact absurd rfl some
  | cons ch bytes =>
      have runs : Running { u with woken := u.woken.erase t } t (ch :: bytes) 1 := by
        have still : Function.update u.left t (ch :: bytes) = u.left := by
          rw [show ch :: bytes = u.left t from same, Function.update_eq_self]
        refine ⟨⟨ordered.sound.ready, ordered.sound.blocking, ordered.sound.sem, ordered.sound.start,
          ordered.sound.idle, rest, ?_, ?_⟩, ?_, away, ?_⟩
        · intro t' member'
          have other : t' ≠ t := fun eq => away (eq ▸ member')
          rw [Function.update_of_ne other]
          exact ordered.sound.frames t' (perm.mem_iff.mpr (List.mem_cons_of_mem _ member'))
        · show ∀ t', bytesOf t' u.accepted ++ Function.update u.left t (ch :: bytes) t' = u.given t'
          rw [still]
          exact ordered.sound.order
        · have room := ordered.room
          have positive := List.length_pos_of_mem member
          rw [Room] at room ⊢
          show u.osema.units + (u.woken.erase t).length + 1 + u.ocount = UART_OBLEN
          rw [List.length_erase_of_mem member]
          omega
        · intro t' other framed
          exact (List.mem_cons.mp (perm.mem_iff.mp (ordered.inside t' framed))).resolve_left other
      have free : u.ocount < UART_OBLEN := by
        have room := runs.room
        rw [Room] at room
        simp only at room
        omega
      obtain ⟨after, more, sent⟩ := writeLoop_spec (count + 1) (runs.store busy)
      have stores : (u.resume t) = writeLoop t bytes (count + 1)
          (({ u with woken := u.woken.erase t } : Uart).store t ch) := by
        rw [Uart.resume]
        simp only [frame]
      rw [stores]
      refine ⟨after, List.IsPrefix.trans ?_ more, sent⟩
      rw [Running.accepted_store (by exact free)]
      exact List.prefix_append ..

end Ordered

theorem takeOut_accepted {u : Uart} (start : u.ostart < UART_OBLEN) (some : 0 < u.ocount) :
    u.takeOut.accepted = u.accepted := by
  obtain ⟨n, more⟩ : ∃ n, u.ocount = n + 1 := ⟨u.ocount - 1, by omega⟩
  have first : u.ring = u.out u.ostart :: Lib.ring u.out UART_OBLEN ((u.ostart + 1) % UART_OBLEN) n := by
    rw [ring, more, Lib.ring_pop start]
  rw [accepted, accepted, first, ring, takeOut, more]
  simp

structure Handed (u u' : Uart) (count : Nat) : Prop where
  ready : u'.ready = u.ready
  noblock : u'.noblock = u.noblock
  osema : u'.osema = u.osema
  woken : u'.woken = u.woken
  frames : u'.frames = u.frames
  given : u'.given = u.given
  oidle : u'.oidle = u.oidle
  start : u'.ostart < UART_OBLEN
  accepted : u'.accepted = u.accepted
  sent : u.sent <+: u'.sent
  taken : u'.ocount + count = u.ocount

theorem takeOut_handed {u : Uart} (start : u.ostart < UART_OBLEN) (some : 0 < u.ocount) :
    Handed u u.takeOut 1 :=
  ⟨rfl, rfl, rfl, rfl, rfl, rfl, rfl, Nat.mod_lt _ (by decide), takeOut_accepted start some,
    List.prefix_append .., Nat.sub_add_cancel some⟩

theorem Handed.trans {u u' u'' : Uart} {m n : Nat} (first : Handed u u' m) (second : Handed u' u'' n) :
    Handed u u'' (n + m) where
  ready := second.ready.trans first.ready
  noblock := second.noblock.trans first.noblock
  osema := second.osema.trans first.osema
  woken := second.woken.trans first.woken
  frames := second.frames.trans first.frames
  given := second.given.trans first.given
  oidle := second.oidle.trans first.oidle
  start := second.start
  accepted := second.accepted.trans first.accepted
  sent := first.sent.trans second.sent
  taken := by
    have := first.taken
    have := second.taken
    omega

theorem handOver_spec {n : Nat} {u : Uart} (start : u.ostart < UART_OBLEN) (some : 0 < u.ocount) :
    Handed u (handOver n u).1 (handOver n u).2 ∧ (handOver n u).2 = min (n + 1) u.ocount := by
  induction n generalizing u with
  | zero =>
      refine ⟨takeOut_handed start some, ?_⟩
      show 1 = _
      omega
  | succ n ih =>
      have first := takeOut_handed start some
      have count : u.takeOut.ocount = u.ocount - 1 := rfl
      rw [handOver]
      by_cases more : 0 < u.takeOut.ocount
      · obtain ⟨rest, counted⟩ := ih first.start more
        simp only [if_pos more]
        refine ⟨first.trans rest, ?_⟩
        rw [counted, count]
        omega
      · simp only [if_neg more]
        refine ⟨first, ?_⟩
        omega

theorem signaln_spec {n : Nat} {u : Uart} (sem : u.osema.Valid) :
    (signaln n u).osema.Valid ∧ (signaln n u).waiting.Perm u.waiting ∧
      (signaln n u).osema.units + (signaln n u).woken.length = u.osema.units + u.woken.length + n ∧
      signaln n u = { u with osema := (signaln n u).osema, woken := (signaln n u).woken } := by
  induction n generalizing u with
  | zero => exact ⟨sem, .refl _, rfl, rfl⟩
  | succ n ih =>
      rw [signaln]
      obtain ⟨valid, perm, units, same⟩ := ih
        (u := { u with osema := u.osema.signal.1, woken := u.woken ++ u.osema.signal.2.toList })
        (Lib.Sem.signal_valid sem)
      refine ⟨valid, perm.trans ?_, ?_, ?_⟩
      · rw [waiting, waiting]
        rcases Lib.Sem.signal_cases sem with ⟨t, queue, released, -⟩ | ⟨queue, empty, released, -⟩
        · rw [queue, released, Option.toList_some, ← List.append_assoc, List.cons_append]
          exact List.perm_append_singleton t _
        · rw [queue, empty, released, Option.toList_none, List.append_nil]
      · rw [units]
        rcases Lib.Sem.signal_cases sem with ⟨t, -, released, before⟩ | ⟨-, -, released, before⟩
        · simp only [released, before, Option.toList_some, List.length_append, List.length_singleton]
          omega
        · simp only [released, before, Option.toList_none, List.append_nil]
          omega
      · exact same

theorem Ordered.interrupt {fifoLen : Nat} {u : Uart} (ordered : Ordered u) (thre : Bool) :
    Ordered (uartInterrupt fifoLen u thre) ∧ (uartInterrupt fifoLen u thre).accepted = u.accepted ∧
      u.sent <+: (uartInterrupt fifoLen u thre).sent ∧
      (thre = true → (uartInterrupt fifoLen u thre).ocount = u.ocount - max fifoLen 1) := by
  rw [uartInterrupt]
  cases thre with
  | false => exact ⟨ordered, rfl, List.prefix_rfl, nofun⟩
  | true =>
      rw [if_neg (by simp)]
      by_cases some : 0 < u.ocount
      · simp only [if_pos some]
        obtain ⟨handed, counted⟩ := handOver_spec (n := fifoLen - 1) (u := { u with oirq := u.oirq + 1 })
          ordered.sound.start some
        generalize handOver (fifoLen - 1) { u with oirq := u.oirq + 1 } = result at handed counted
        obtain ⟨u₁, count⟩ := result
        simp only at handed counted ⊢
        obtain ⟨sem, perm, units, same⟩ := signaln_spec (n := count) (u := { u₁ with cout := u₁.cout + count })
          (by rw [handed.osema]; exact ordered.sound.sem)
        generalize signaln count { u₁ with cout := u₁.cout + count } = u₂ at sem perm units same
        have taken := handed.taken
        have waits : u₂.waiting.Perm u.waiting := by
          refine perm.trans ?_
          rw [waiting, waiting, handed.osema, handed.woken]
        have frames : u₂.frames = u.frames := by rw [same]; exact handed.frames
        have given : u₂.given = u.given := by rw [same]; exact handed.given
        have accepted : u₂.accepted = u.accepted := by rw [same]; exact handed.accepted
        have ocount : u₂.ocount = u₁.ocount := by rw [same]
        have rest := Running.left_same frames
        refine ⟨⟨⟨?_, ?_, sem, ?_, ?_, ?_, ?_, ?_⟩, ?_, ?_⟩, accepted, ?_, ?_⟩
        · rw [same]
          exact handed.ready.trans ordered.sound.ready
        · rw [same]
          exact handed.noblock.trans ordered.sound.blocking
        · rw [same]
          exact handed.start
        · intro idle
          rw [same] at idle
          have := ordered.sound.idle (handed.oidle ▸ idle)
          omega
        · exact waits.nodup_iff.mpr ordered.sound.nodup
        · intro t member
          rw [frames, rest]
          exact ordered.sound.frames t (waits.mem_iff.mp member)
        · rw [accepted, rest, given]
          exact ordered.sound.order
        · have room := ordered.room
          rw [Room] at room ⊢
          rw [handed.osema, handed.woken] at units
          simp only at taken units
          omega
        · intro t framed
          rw [frames] at framed
          exact waits.mem_iff.mpr (ordered.inside t framed)
        · rw [same]
          exact handed.sent
        · intro _
          simp only at taken counted
          omega
      · simp only [if_neg some]
        have none : u.ocount = 0 := by omega
        refine ⟨⟨⟨ordered.sound.ready, ordered.sound.blocking, ordered.sound.sem, ordered.sound.start,
          fun _ => none, ordered.sound.nodup, ordered.sound.frames, ordered.sound.order⟩, ordered.room,
          ordered.inside⟩, by rw [Uart.accepted]; rfl, List.prefix_rfl, ?_⟩
        intro _
        show u.ocount = _
        omega

/-- A writer that waited does not go on while the transmitter is idle. -/
def Busy (u : Uart) : Op → Prop
  | .resume _ => u.oidle = false
  | _ => True

theorem init_ordered : Ordered init := by
  refine ⟨⟨rfl, rfl, rfl, by decide, fun _ => rfl, List.nodup_nil, ?_, ?_⟩, rfl, ?_⟩
  · intro t member
    cases member
  · intro t
    rfl
  · intro t framed
    exact absurd rfl framed

theorem step_ordered {fifoLen : Nat} {u u' : Uart} {op : Op} (ordered : Ordered u) (busy : Busy u op)
    (action : step fifoLen op u = some u') :
    Ordered u' ∧ u.accepted <+: u'.accepted ∧ u.sent <+: u'.sent := by
  cases op with
  | write t buf =>
      rw [step] at action
      split at action
      · rename_i outside
        cases action
        exact ordered.write outside buf
      · cases action
  | resume t =>
      rw [step] at action
      split at action
      · rename_i member
        cases action
        exact ordered.resume member busy
      · cases action
  | interrupt thre =>
      cases action
      obtain ⟨after, same, sent, -⟩ := @Ordered.interrupt fifoLen _ ordered thre
      exact ⟨after, same ▸ List.prefix_rfl, sent⟩

theorem reach_ordered {fifoLen : Nat} {u : Uart} (reach : Lib.Reach (step fifoLen) Busy init u) :
    Ordered u :=
  reach.invariant init_ordered fun _ _ _ ordered busy action => (step_ordered ordered busy action).1

/-- Over any run, what is accepted is sent once and in order. -/
theorem uartWrite_order {fifoLen : Nat} {u : Uart} (reach : Lib.Reach (step fifoLen) Busy init u) :
    (u.oidle = true → u.ring = []) ∧ u.ocount ≤ UART_OBLEN ∧
      (∀ t, bytesOf t (u.sent ++ u.ring) ++ u.left t = u.given t) ∧
      (∀ op u', Busy u op → step fifoLen op u = some u' →
        u.sent ++ u.ring <+: u'.sent ++ u'.ring ∧ u.sent <+: u'.sent) ∧
      (∀ u', step fifoLen (.interrupt true) u = some u' →
        u'.sent ++ u'.ring = u.sent ++ u.ring ∧ u'.ocount = u.ocount - max fifoLen 1) := by
  have ordered := reach_ordered reach
  refine ⟨?_, ordered.accepted_le, ordered.sound.order, ?_, ?_⟩
  · intro idle
    rw [ring, ordered.sound.idle idle, Lib.ring_zero]
  · intro op u' busy action
    exact (step_ordered ordered busy action).2
  · intro u' action
    cases action
    obtain ⟨-, same, -, taken⟩ := @Ordered.interrupt fifoLen _ ordered true
    exact ⟨same, taken rfl⟩

instance (u : Uart) : DecidablePred (Busy u)
  | .resume _ => inferInstanceAs (Decidable (_ = false))
  | .write _ _ | .interrupt _ => inferInstanceAs (Decidable True)

def twoWriters : List Op :=
  [.write 1 (List.replicate 1026 65), .interrupt true, .resume 1, .write 2 [66]] ++ List.replicate 65 (.interrupt true)

theorem uartWrite_order_two :
    ((uartWrite init 1 [65, 66]).ring = [⟨1, 66⟩] ∧
      bytesOf 1 ((uartWrite init 1 [65, 66]).sent ++ (uartWrite init 1 [65, 66]).ring) ++
        (uartWrite init 1 [65, 66]).left 1 = [65, 66]) ∧
    ∃ u, Lib.Reach (step 16) Busy init u ∧ u.ring = [] ∧
      bytesOf 1 (u.sent ++ u.ring) ++ u.left 1 = List.replicate 1026 65 ∧
      bytesOf 2 (u.sent ++ u.ring) ++ u.left 2 = [66] := by
  constructor
  · have order := @uartWrite_order 16 _ (.next (a := .write 1 [65, 66]) .init trivial rfl)
    exact ⟨by decide, order.2.2.1 1⟩
  · have runs : (Lib.run (step 16) (fun u op => decide (Busy u op)) twoWriters init).any (fun u =>
        u.oidle = true ∧ u.given 1 = List.replicate 1026 65 ∧ u.given 2 = [66]) = true := by
      decide +kernel
    obtain ⟨u, run, observed⟩ := (Option.any_eq_true _ _).mp runs
    obtain ⟨idle, first, second⟩ := of_decide_eq_true observed
    have reach : Lib.Reach (step 16) Busy init u := Lib.Reach.run (fun _ _ => of_decide_eq_true) .init run
    obtain ⟨empty, -, order, -⟩ := uartWrite_order reach
    exact ⟨u, reach, empty idle, (order 1).trans first, (order 2).trans second⟩

def lateWriter : List Op :=
  [.write 1 (List.replicate 1026 65)] ++ List.replicate 65 (.interrupt true) ++ [.resume 1]

theorem lateWriter_idle :
    ∃ u, Lib.Reach (step 16) (fun _ _ => True) init u ∧ u.oidle = true ∧ u.ring ≠ [] := by
  have runs : (Lib.run (step 16) (fun _ _ => true) lateWriter init).map
      (fun u => (u.oidle, u.ocount)) = some (true, 1) := by
    decide +kernel
  rw [Option.map_eq_some_iff] at runs
  obtain ⟨u, run, same⟩ := runs
  rw [Prod.mk.injEq] at same
  refine ⟨u, Lib.Reach.run (fun _ _ _ => trivial) .init run, same.1, ?_⟩
  rw [ring, same.2]
  exact List.cons_ne_nil _ _

end Xinu.Uart
