import Xinu.Lib.Ring
import Xinu.System.Tty

namespace Xinu.Tty
open Lib (Byte)

structure Edited where
  delivered : List Item
  finished : List Item
  line : List Byte
  deriving DecidableEq, Repr

namespace Edited

def finish (e : Edited) (last : Item) : Edited :=
  { e with finished := e.finished ++ e.line.map Item.char ++ [last], line := [] }

def type (f : Iflags) (e : Edited) (ch : Byte) : Edited :=
  if ch = 8 ∨ ch = 0x7F then { e with line := e.line.dropLast }
  else if ch = 10 then e.finish (.char (if f.inlcr then 13 else 10))
  else if ch = 13 then if f.igncr then e else e.finish (.char (if f.icrnl then 10 else 13))
  else if ch = 4 then e.finish .eof
  else if isprint ch then { e with line := e.line ++ [ch] }
  else e

def deliver (e : Edited) (n : Nat) : Edited :=
  { delivered := e.delivered ++ (e.finished ++ e.line.map Item.char).take n
    finished := e.finished.drop n
    line := e.line.drop (n - e.finished.length) }

def next (f : Iflags) (e : Edited) : Event → Edited
  | .typed ch => e.type f ch
  | .taken n => e.deliver n

end Edited

def edited (f : Iflags) (hist : List Event) : Edited := hist.foldl (Edited.next f) ⟨[], [], []⟩

def typed (hist : List Event) : List Byte :=
  hist.filterMap fun
    | .typed ch => some ch
    | .taken _ => none

theorem edited_append (f : Iflags) (hist : List Event) (event : Event) :
    edited f (hist ++ [event]) = (edited f hist).next f event := by
  rw [edited, List.foldl_append]
  rfl

def fits (f : Iflags) (len : Nat) : Nat → List (Option Byte) → Bool
  | n, some ch :: rest =>
      if TTY_IBLEN ≤ n then true
      else if ch = 8 ∨ ch = 0x7F then fits f len (n - 1) rest
      else if ch = 10 then true
      else if ch = 13 then if f.igncr then fits f len n rest else true
      else if ch = 4 then n ≤ len
      else if isprint ch then fits f len (n + 1) rest
      else fits f len n rest
  | _, _ => true

/-- A call gives room for a character, and for the line before an end of file. -/
def Roomy (c : Console) (len : Nat) : Prop :=
  1 ≤ len ∧ (c.tty.ieof = false → c.tty.idelim = false → fits c.tty.iflags len c.tty.icount c.input = true)

instance (c : Console) (len : Nat) : Decidable (Roomy c len) :=
  inferInstanceAs (Decidable (_ ∧ (_ → _ → _)))

variable {t t' : Tty} {f : Iflags} {ch : Byte}

def stored (t : Tty) : List Byte := Lib.ring t.buffer TTY_IBLEN t.istart t.icount

def pending (t : Tty) : Edited :=
  { delivered := t.returned
    finished := (if t.idelim then t.stored.map Item.char else []) ++ if t.ieof then [.eof] else []
    line := if t.idelim then [] else t.stored }

structure Tracks (f : Iflags) (t : Tty) : Prop where
  phw : t.phw = true
  flags : t.iflags = f
  start : t.istart < TTY_IBLEN
  room : t.icount ≤ TTY_IBLEN
  edits : edited f t.hist = t.pending

theorem length_stored : t.stored.length = t.icount := by simp [stored, Lib.ring]

theorem stored_put (room : t.icount < TTY_IBLEN) : (t.put ch).stored = t.stored ++ [ch] :=
  Lib.ring_push room ch

theorem stored_erase : ({ t with icount := t.icount - 1 } : Tty).stored = t.stored.dropLast := by
  show Lib.ring t.buffer TTY_IBLEN t.istart (t.icount - 1) = t.stored.dropLast
  rw [stored]
  cases t.icount with
  | zero => rfl
  | succ n =>
      rw [Nat.add_sub_cancel, Lib.ring, Lib.ring, List.range_succ, List.map_append, List.map_singleton,
        List.dropLast_concat]

theorem pending_open (opened : t.idelim = false) (clear : t.ieof = false) :
    t.pending = ⟨t.returned, [], t.stored⟩ := by
  rw [pending, opened, clear]
  rfl

theorem pending_closed (closed : t.idelim = true) (clear : t.ieof = false) :
    t.pending = ⟨t.returned, t.stored.map Item.char, []⟩ := by
  rw [pending, closed, clear]
  simp

theorem pending_end (room : t.icount < TTY_IBLEN) (opened : t.idelim = false) (clear : t.ieof = false)
    (last : Byte) : ({ t.put last with idelim := true } : Tty).pending = t.pending.finish (.char last) := by
  have put : ({ t.put last with idelim := true } : Tty).stored = t.stored ++ [last] := stored_put room
  have clear' : ({ t.put last with idelim := true } : Tty).ieof = false := clear
  rw [pending_open opened clear, pending_closed rfl clear', put, List.map_append]
  rfl

theorem cook_pending (room : t.icount < TTY_IBLEN) (opened : t.idelim = false) (clear : t.ieof = false) :
    (t.cook ch).pending = t.pending.type t.iflags ch := by
  have still := pending_open opened clear
  rw [cook, Edited.type]
  split
  · split
    · rename_i empty
      have none : t.stored = [] := List.eq_nil_of_length_eq_zero (by rw [length_stored]; omega)
      rw [still, none]
      rfl
    · have erased : ({ t with icount := t.icount - 1 } : Tty).pending = _ := pending_open opened clear
      rw [erased, still, stored_erase]
  · split
    · rename_i nl
      subst nl
      exact pending_end room opened clear _
    · split
      · split
        · rfl
        · rename_i cr _
          subst cr
          exact pending_end room opened clear _
      · split
        · rw [still, pending]
          simp [Edited.finish, stored]
        · rename_i print
          cases isprint ch with
          | false => rfl
          | true =>
              rw [if_neg (by simp), if_pos rfl]
              have put : (t.put ch).pending = ⟨t.returned, [], (t.put ch).stored⟩ := pending_open opened clear
              rw [put, still, stored_put room]

theorem cook_keeps (t : Tty) (ch : Byte) :
    (t.cook ch).phw = t.phw ∧ (t.cook ch).iflags = t.iflags ∧ (t.cook ch).istart = t.istart ∧
      (t.cook ch).hist = t.hist ∧ (t.cook ch).returned = t.returned ∧
      (t.cook ch).icount ≤ t.icount + 1 := by
  rw [cook]
  split_ifs
  all_goals refine ⟨rfl, rfl, rfl, rfl, rfl, ?_⟩
  all_goals first | exact Nat.le_refl _ | exact Nat.le_succ _ | exact Nat.le_succ_of_le (Nat.sub_le ..)

theorem cook_tracks (tracks : Tracks f t) (room : t.icount < TTY_IBLEN) (opened : t.idelim = false)
    (clear : t.ieof = false) : Tracks f (cook { t with hist := t.hist ++ [.typed ch] } ch) := by
  obtain ⟨phw, flags, start, hist, -, more⟩ := cook_keeps { t with hist := t.hist ++ [.typed ch] } ch
  refine ⟨phw.trans tracks.phw, flags.trans tracks.flags, start.trans_lt tracks.start, more.trans room, ?_⟩
  have edits := tracks.edits
  rw [cook_pending (by exact room) (by exact opened) (by exact clear), hist, edited_append, Edited.next, edits]
  show t.pending.type f ch = t.pending.type t.iflags ch
  rw [tracks.flags]

theorem cook_fits {len : Nat} {rest : List (Option Byte)} (room' : fits t.iflags len t.icount (some ch :: rest) = true)
    (room : t.icount < TTY_IBLEN) (clear : t.ieof = false) :
    ((t.cook ch).ieof = true ∧ (t.cook ch).idelim = true ∧ (t.cook ch).icount ≤ len) ∨
      ((t.cook ch).ieof = false ∧
        ((t.cook ch).idelim = false → fits t.iflags len (t.cook ch).icount rest = true)) := by
  rw [fits, if_neg (Nat.not_le.mpr room)] at room'
  rw [cook]
  split
  · rename_i erase
    rw [if_pos erase] at room'
    split
    · rename_i empty
      rw [Nat.sub_eq_zero_of_le (Nat.le_of_lt empty)] at room'
      have none : t.icount = 0 := by omega
      exact .inr ⟨clear, fun _ => none ▸ room'⟩
    · exact .inr ⟨clear, fun _ => room'⟩
  · rename_i erase
    rw [if_neg erase] at room'
    split
    · exact .inr ⟨clear, nofun⟩
    · rename_i nl
      rw [if_neg nl] at room'
      split
      · rename_i cr
        rw [if_pos cr] at room'
        split
        · rename_i ign
          rw [if_pos ign] at room'
          exact .inr ⟨clear, fun _ => room'⟩
        · exact .inr ⟨clear, nofun⟩
      · rename_i cr
        rw [if_neg cr] at room'
        split
        · rename_i eof
          rw [if_pos eof] at room'
          exact .inl ⟨rfl, rfl, of_decide_eq_true room'⟩
        · rename_i eof
          rw [if_neg eof] at room'
          split
          · rename_i print
            rw [if_neg print] at room'
            exact .inr ⟨clear, fun _ => room'⟩
          · rename_i print
            rw [if_pos (not_not.mp print)] at room'
            exact .inr ⟨clear, fun _ => room'⟩

theorem typed_append (hist hist' : List Event) : typed (hist ++ hist') = typed hist ++ typed hist' :=
  List.filterMap_append ..

structure Filled (f : Iflags) (len : Nat) (input : List (Option Byte)) (t t' : Tty)
    (rest : List (Option Byte)) (stop : Option Result) : Prop where
  tracks : Tracks f t'
  ended : t'.ieof = true → stop = none ∧ t'.idelim = true ∧ t'.icount ≤ len
  returned : t'.returned = t.returned
  heard : typed t'.hist ++ rest.filterMap id = typed t.hist ++ input.filterMap id

theorem readLoop_filled {len : Nat} {input : List (Option Byte)} (tracks : Tracks f t) (clear : t.ieof = false)
    (roomy : t.idelim = false → fits f len t.icount input = true) :
    Filled f len input t (readLoop input t).1 (readLoop input t).2.1 (readLoop input t).2.2 := by
  have absent : ∀ {P : Prop}, t.ieof = true → P := fun set => by simp [clear] at set
  induction input generalizing t with
  | nil =>
      rw [readLoop]
      split
      · exact ⟨tracks, absent, rfl, rfl⟩
      · exact ⟨tracks, absent, rfl, rfl⟩
  | cons ch rest ih =>
      cases ch with
      | none =>
          rw [readLoop]
          split
          · exact ⟨tracks, absent, rfl, by simp⟩
          · exact ⟨tracks, absent, rfl, rfl⟩
      | some ch =>
          rw [readLoop]
          split
          · rename_i more
            obtain ⟨room, opened⟩ := more
            have opened : t.idelim = false := by simpa using opened
            have cooked := @cook_tracks _ _ ch tracks room opened clear
            have roomy := roomy opened
            rw [← tracks.flags] at roomy
            obtain ⟨-, -, -, hist, returned, -⟩ := cook_keeps { t with hist := t.hist ++ [.typed ch] } ch
            have heard : typed (cook { t with hist := t.hist ++ [.typed ch] } ch).hist ++ rest.filterMap id =
                typed t.hist ++ (some ch :: rest).filterMap id := by
              rw [hist, typed_append, List.append_assoc]
              rfl
            rcases cook_fits (t := { t with hist := t.hist ++ [.typed ch] }) roomy room clear with
              ⟨-, closed, short⟩ | ⟨clear', fits'⟩
            · have stops : readLoop rest (cook { t with hist := t.hist ++ [.typed ch] } ch) =
                  (cook { t with hist := t.hist ++ [.typed ch] } ch, rest, none) := by
                rw [readLoop.eq_def]
                cases rest with
                | nil => exact if_neg (by simp [closed])
                | cons _ _ => exact if_neg (by simp [closed])
              simp only [stops]
              exact ⟨cooked, fun _ => ⟨rfl, closed, short⟩, returned, heard⟩
            · have filled := ih cooked clear' (fun opened => tracks.flags ▸ fits' opened)
                (fun set => by simp [clear'] at set)
              exact ⟨filled.tracks, filled.ended, filled.returned.trans returned, filled.heard.trans heard⟩
          · exact ⟨tracks, absent, rfl, rfl⟩

theorem drain_spec (n : Nat) (start : t.istart < TTY_IBLEN) :
    (t.drain n).2 = t.stored.take n ∧ (t.drain n).1.stored = t.stored.drop n ∧
      (t.drain n).1.istart < TTY_IBLEN ∧
      (t.drain n).1 = { t with icount := t.icount - n, istart := (t.drain n).1.istart } := by
  induction n generalizing t with
  | zero => exact ⟨rfl, rfl, start, rfl⟩
  | succ n ih =>
      rw [drain]
      split
      · rename_i some
        obtain ⟨m, count⟩ : ∃ m, t.icount = m + 1 := ⟨t.icount - 1, by omega⟩
        have first : t.stored = t.buffer t.istart ::
            ({ t with icount := t.icount - 1, istart := (t.istart + 1) % TTY_IBLEN } : Tty).stored := by
          show t.stored = t.buffer t.istart :: Lib.ring t.buffer TTY_IBLEN ((t.istart + 1) % TTY_IBLEN) (t.icount - 1)
          rw [stored, count, Lib.ring_pop start, Nat.add_sub_cancel]
        obtain ⟨bytes, left, start', rest⟩ :=
          ih (t := { t with icount := t.icount - 1, istart := (t.istart + 1) % TTY_IBLEN })
            (Nat.mod_lt _ (Nat.zero_lt_succ _))
        refine ⟨?_, ?_, start', ?_⟩
        · rw [first, List.take_succ_cons]
          exact congrArg _ bytes
        · rw [first, List.drop_succ_cons]
          exact left
        · refine rest.trans ?_
          rw [Nat.sub_sub, Nat.add_comm 1 n]
      · rename_i empty
        have none : t.stored = [] := List.eq_nil_of_length_eq_zero (by rw [length_stored]; omega)
        refine ⟨by rw [none, List.take_nil], by rw [none, List.drop_nil], start, ?_⟩
        have zero : t.icount - (n + 1) = t.icount := by omega
        rw [zero]

structure Ready (f : Iflags) (all : List (Option Byte)) (t : Tty) (input : List (Option Byte)) : Prop where
  tracks : Tracks f t
  last : t.ieof = true → t.icount = 0
  heard : typed t.hist ++ input.filterMap id = all.filterMap id

theorem pending_empty (empty : t.stored = []) :
    t.pending = ⟨t.returned, if t.ieof then [.eof] else [], []⟩ := by
  rw [pending, empty]
  simp

theorem eof_tracks (tracks : Tracks f t) (set : t.ieof = true) (empty : t.icount = 0) : Tracks f t.eof := by
  have none : t.stored = [] := List.eq_nil_of_length_eq_zero (by rw [length_stored, empty])
  have none' : t.eof.stored = [] := none
  refine ⟨tracks.phw, tracks.flags, tracks.start, tracks.room, ?_⟩
  show edited f (t.hist ++ [.taken 1]) = t.eof.pending
  rw [edited_append, tracks.edits, pending_empty none, pending_empty none', set]
  rfl

def fillUser (t : Tty) (len : Nat) : Tty :=
  let t := (t.drain len).1
  if t.icount = 0 then { t with idelim := false } else t

theorem fillUser_spec (start : t.istart < TTY_IBLEN) (len : Nat) :
    (t.fillUser len).stored = t.stored.drop len ∧ (t.fillUser len).istart < TTY_IBLEN ∧
      (t.fillUser len).phw = t.phw ∧ (t.fillUser len).iflags = t.iflags ∧ (t.fillUser len).ieof = t.ieof ∧
      (t.fillUser len).hist = t.hist ∧ (t.fillUser len).returned = t.returned ∧
      ((t.fillUser len).idelim = t.idelim ∨ (t.fillUser len).stored = []) := by
  obtain ⟨-, left, start', rest⟩ := drain_spec len start
  rw [fillUser]
  generalize (t.drain len).1 = t' at *
  split
  · rename_i empty
    have none : t'.stored = [] := List.eq_nil_of_length_eq_zero (by rw [length_stored, empty])
    refine ⟨left, start', ?_, ?_, ?_, ?_, ?_, .inr none⟩
    all_goals rw [rest]
  · refine ⟨left, start', ?_, ?_, ?_, ?_, ?_, .inl ?_⟩
    all_goals rw [rest]

theorem take_count {α : Type} (xs : List α) (len : Nat) :
    xs.take (xs.take len).length = xs.take len ∧ xs.drop (xs.take len).length = xs.drop len := by
  rw [List.length_take]
  by_cases short : len ≤ xs.length
  · rw [Nat.min_eq_left short]
    exact ⟨rfl, rfl⟩
  · have long : xs.length ≤ len := Nat.le_of_not_le short
    rw [Nat.min_eq_right long, List.take_length, List.take_of_length_le long, List.drop_length,
      List.drop_eq_nil_of_le long]
    exact ⟨rfl, rfl⟩

theorem pending_deliver {len : Nat} (start : t.istart < TTY_IBLEN)
    (closed : t.ieof = true → t.idelim = true) :
    t.pending.deliver (t.stored.take len).length =
      ⟨t.returned ++ (t.stored.take len).map Item.char, (t.fillUser len).pending.finished,
        (t.fillUser len).pending.line⟩ := by
  obtain ⟨stored, -, -, -, ieof, -, -, idelim⟩ := fillUser_spec start len
  obtain ⟨takes, drops⟩ := take_count t.stored len
  have bound : (t.stored.take len).length ≤ (t.stored.map Item.char).length := by
    rw [List.length_map, List.length_take]
    exact Nat.min_le_right ..
  cases delim : t.idelim with
  | false =>
      have clear : t.ieof = false := by
        by_contra set
        rw [closed (by simpa using set)] at delim
        cases delim
      have clear' : (t.fillUser len).ieof = false := ieof.trans clear
      have after : (t.fillUser len).pending = ⟨(t.fillUser len).returned, [], t.stored.drop len⟩ := by
        rcases idelim with same | empty
        · rw [pending_open (same.trans delim) clear', stored]
        · rw [pending_empty empty, clear', ← stored, empty]
          rfl
      rw [pending_open delim clear, after, Edited.deliver]
      simp only [List.nil_append, List.drop_nil, List.length_nil, Nat.sub_zero, ← List.map_take, takes, drops]
  | true =>
      have before : t.pending = ⟨t.returned, t.stored.map Item.char ++ if t.ieof then [.eof] else [], []⟩ := by
        rw [pending, delim]
        rfl
      have after : (t.fillUser len).pending = ⟨(t.fillUser len).returned,
          (t.stored.drop len).map Item.char ++ if t.ieof then [.eof] else [], []⟩ := by
        rcases idelim with same | empty
        · rw [pending, same, delim, stored, ieof]
          rfl
        · rw [pending_empty empty, ieof, ← stored, empty]
          rfl
      rw [before, after, Edited.deliver]
      simp only [List.map_nil, List.append_nil, List.drop_nil]
      rw [List.take_append_of_le_length bound, List.drop_append_of_le_length bound, ← List.map_take,
        ← List.map_drop, takes, drops]

theorem fillUser_tracks {len : Nat} (tracks : Tracks f t) (closed : t.ieof = true → t.idelim = true) :
    Tracks f { t.fillUser len with
      hist := (t.fillUser len).hist ++ [.taken (t.stored.take len).length]
      returned := (t.fillUser len).returned ++ (t.stored.take len).map Item.char } := by
  obtain ⟨stored, start, phw, flags, ieof, hist, returned, -⟩ := fillUser_spec tracks.start len
  have left : (t.fillUser len).icount ≤ TTY_IBLEN := by
    have length := congrArg List.length stored
    have room := tracks.room
    rw [List.length_drop, length_stored, length_stored] at length
    omega
  refine ⟨phw.trans tracks.phw, flags.trans tracks.flags, start, left, ?_⟩
  show edited f ((t.fillUser len).hist ++ [.taken (t.stored.take len).length]) = _
  rw [edited_append, hist, tracks.edits, Edited.next, pending_deliver tracks.start closed, ← returned]
  rfl

theorem heard_taken {input : List (Option Byte)} (hist : List Event) (n : Nat) :
    typed (hist ++ [.taken n]) ++ input.filterMap id = typed hist ++ input.filterMap id := by
  rw [typed_append]
  exact congrArg (· ++ _) (List.append_nil _)

theorem ttyRead_ready {all input : List (Option Byte)} {len : Nat} (cooked : f.raw = false)
    (ready : Ready f all t input) (some : 1 ≤ len)
    (roomy : t.ieof = false → t.idelim = false → fits f len t.icount input = true) :
    Ready f all (t.ttyRead input len).1 (t.ttyRead input len).2.1 := by
  obtain ⟨tracks, last, heard⟩ := ready
  rw [ttyRead, if_neg (by simp [tracks.phw])]
  split
  · rename_i set
    exact ⟨eof_tracks tracks set (last set), nofun, (heard_taken ..).trans heard⟩
  · rename_i clear
    rw [if_neg (by rw [tracks.flags, cooked]; simp)]
    have clear : t.ieof = false := by simpa using clear
    have filled := readLoop_filled tracks clear (roomy clear)
    generalize readLoop input t = result at *
    obtain ⟨t', rest, stop⟩ := result
    have left := filled.heard.trans heard
    cases stop with
    | some stop =>
        refine ⟨filled.tracks, fun set => ?_, left⟩
        cases (filled.ended set).1
    | none =>
        have tracks' : Tracks f t' := filled.tracks
        have closed : t'.ieof = true → t'.idelim = true := fun set => (filled.ended set).2.1
        have short : t'.ieof = true → t'.icount ≤ len := fun set => (filled.ended set).2.2
        obtain ⟨bytes, -⟩ := drain_spec len tracks'.start
        obtain ⟨stored, start, phw, flags, ieof, hist, returned, -⟩ := fillUser_spec tracks'.start len
        have after := @fillUser_tracks _ _ len tracks' closed
        have shut : (t'.fillUser len).ieof = true → (t'.fillUser len).icount = 0 := by
          intro set
          have bound := short (ieof ▸ set)
          have length := congrArg List.length stored
          rw [List.length_drop, length_stored, length_stored] at length
          omega
        have same : (if (t'.drain len).1.icount = 0 then { (t'.drain len).1 with idelim := false }
          else (t'.drain len).1) = t'.fillUser len := rfl
        simp only [same, bytes]
        split
        · rename_i ended
          obtain ⟨none, set⟩ := ended
          have empty : t'.stored = [] := (List.take_eq_nil_iff.mp none).resolve_left (by omega)
          have empty' : (t'.fillUser len).stored = [] := by rw [stored, empty, List.drop_nil]
          have room := shut set
          refine ⟨eof_tracks ⟨phw.trans tracks'.phw, flags.trans tracks'.flags, start, by omega, ?_⟩ set room,
            nofun, ?_⟩
          · rw [hist, tracks'.edits, pending_empty empty, pending_empty empty', ieof, returned]
          · refine (heard_taken ..).trans ?_
            rw [hist]
            exact left
        · refine ⟨after, shut, (heard_taken ..).trans ?_⟩
          rw [hist]
          exact left

theorem opened_ready (f : Iflags) (input : List (Option Byte)) :
    Ready f input (opened f input).tty (opened f input).input :=
  ⟨⟨rfl, rfl, Nat.zero_lt_succ _, Nat.zero_le _, rfl⟩, nofun, rfl⟩

/-- Over any calls that can each deliver the line before an end of file that they meet, what is
returned is what has been typed and edited, and the rest of it is in the buffer. -/
theorem ttyRead_edits {f : Iflags} (cooked : f.raw = false) {input : List (Option Byte)} {c : Console}
    (reach : Lib.Reach step Roomy (opened f input) c) :
    typed c.tty.hist ++ c.input.filterMap id = input.filterMap id ∧
      (edited f c.tty.hist).delivered = c.tty.returned ∧
      (edited f c.tty.hist).finished ++ (edited f c.tty.hist).line.map Item.char =
        c.tty.stored.map Item.char ++ (if c.tty.ieof then [.eof] else []) ∧
      c.tty.icount ≤ TTY_IBLEN := by
  have ready : Ready f input c.tty c.input := by
    refine reach.invariant (P := fun c => Ready f input c.tty c.input) (opened_ready f input) ?_
    intro c c' len ready roomy action
    rw [step, Option.ite_none_left_eq_some] at action
    obtain ⟨-, result⟩ := action
    obtain ⟨some, roomy⟩ := roomy
    rw [ready.tracks.flags] at roomy
    cases result
    exact ttyRead_ready cooked ready some roomy
  refine ⟨ready.heard, ?_, ?_, ready.tracks.room⟩
  · rw [ready.tracks.edits]
    rfl
  · rw [ready.tracks.edits, pending]
    cases delim : c.tty.idelim with
    | true => simp
    | false =>
        cases set : c.tty.ieof with
        | false => simp
        | true =>
            have empty : c.tty.stored = [] :=
              List.eq_nil_of_length_eq_zero (by rw [length_stored, ready.last set])
            simp [empty]

def openFlags : Iflags := ⟨false, false, false, true⟩

theorem ttyRead_edits_short :
    ∃ c, Lib.Reach step Roomy (opened openFlags [some 65, some 66, some 8, some 13, some 4]) c ∧
      c.tty.returned = [.char 65, .char 10, .eof] ∧
      (edited openFlags c.tty.hist).delivered = c.tty.returned := by
  have runs : (Lib.run step (fun c len => decide (Roomy c len)) [1, 3, 3]
      (opened openFlags [some 65, some 66, some 8, some 13, some 4])).map (fun c => c.tty.returned) =
        some [.char 65, .char 10, .eof] := by
    decide +kernel
  rw [Option.map_eq_some_iff] at runs
  obtain ⟨c, run, same⟩ := runs
  have reach := @Lib.Reach.run _ _ _ Roomy _ _ _ _ (fun _ _ holds => of_decide_eq_true holds) .init _ run
  exact ⟨c, reach, same, (ttyRead_edits rfl reach).2.1⟩

theorem shortBuffer_eof_early :
    ¬ ∀ c, Lib.Reach step (fun _ len => 1 ≤ len) (opened openFlags [some 65, some 66, some 67, some 4]) c →
      (edited openFlags c.tty.hist).delivered = c.tty.returned := by
  intro claim
  have runs : (Lib.run step (fun _ len => decide (1 ≤ len)) [2, 2]
      (opened openFlags [some 65, some 66, some 67, some 4])).map
        (fun c => (c.tty.returned, (edited openFlags c.tty.hist).delivered)) =
        some ([.char 65, .char 66, .eof], [.char 65, .char 66, .char 67]) := by
    decide +kernel
  rw [Option.map_eq_some_iff] at runs
  obtain ⟨c, run, same⟩ := runs
  have reach := @Lib.Reach.run _ _ _ (fun _ len => 1 ≤ len) _ _ _ _ (fun _ _ holds => of_decide_eq_true holds) .init _ run
  have equal := claim c reach
  rw [Prod.mk.injEq] at same
  rw [same.1, same.2] at equal
  cases equal

end Xinu.Tty
