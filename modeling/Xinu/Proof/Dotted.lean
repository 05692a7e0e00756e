import Xinu.Proof.Printf
import Xinu.System.Dotted

namespace Xinu.Address
open Lib (Byte value)

def decimalValue (ds : List Byte) : Nat := value 10 0 (ds.map fun c => c.toNat - 48)

structure Octet (g : List Byte) (v : Nat) : Prop where
  digits : ∀ c ∈ g, isdigit c
  nonempty : g ≠ []
  short : g.length ≤ 3
  value : v = decimalValue g
  small : v ≤ 255

def Sign (sign : List Byte) : Prop := sign = [] ∨ sign = [chr '+'] ∨ sign = [chr '-']

structure Numeral (g blanks sign ds : List Byte) : Prop where
  shape : g = blanks ++ (sign ++ ds)
  blank : ∀ c ∈ blanks, isspace c
  signed : Sign sign
  digits : ∀ c ∈ ds, isdigit c
  nonempty : ds ≠ []
  short : sign.length + ds.length ≤ 3

def Dots {α : Type} (group : List Byte → α → Prop) : List Byte → List α → Prop
  | _, [] => False
  | s, [v] => group s v
  | s, v :: w :: vs => ∃ g rest, s = g ++ chr '.' :: rest ∧ group g v ∧ Dots group rest (w :: vs)

def LooseOctet (g : List Byte) (v : Nat) : Prop :=
  ∃ blanks sign ds, Numeral g blanks sign ds ∧ v = decimalValue ds ∧ v ≤ 255 ∧ (sign = [chr '-'] → v = 0)

/-- Dotted decimal. -/
def Dotted (str : List Byte) (a : List Nat) : Prop := a.length = 4 ∧ Dots Octet str a

/-- Dotted decimal but for blanks and signs. -/
def Loose (str : List Byte) (a : List Nat) : Prop := a.length = 4 ∧ Dots LooseOctet str a

/-- Dotted decimal is taken, and nothing else is. -/
def Parses (str : List Byte) (ip : Netaddr) : Prop :=
  (∀ a, Dotted str a →
    ∃ addr, dot2ipv4 (some str) (some ip) = (some addr, OK) ∧ addr.type = NETADDR_IPv4 ∧ addr.addr = a.map (BitVec.ofNat 8)) ∧
  ((∀ a, ¬ Dotted str a) → dot2ipv4 (some str) (some ip) = (some ip, SYSERR))

def ipv4Netaddr (o0 o1 o2 o3 : Byte) : Netaddr := ⟨NETADDR_IPv4, [o0, o1, o2, o3], Netaddr.ipv4_fits⟩

theorem digit_decimal : ∀ c : Byte, Scanf.digit 10 c = if isdigit c then some (c.toNat - 48) else none := by decide +kernel

theorem sign_text : ∀ c : Byte, isdigit c = true → c ≠ chr '-' ∧ c ≠ chr '+' ∧ isspace c = false := by decide +kernel

theorem decimalValue_lt {ds : List Byte} (digits : ∀ c ∈ ds, isdigit c) (n : Nat) :
    value 10 n (ds.map fun c => c.toNat - 48) < (n + 1) * 10 ^ ds.length := by
  induction ds generalizing n with
  | nil => exact Nat.lt_of_lt_of_eq (Nat.lt_succ_self n) (Nat.mul_one _).symm
  | cons c ds ih =>
      have digit : c.toNat - 48 ≤ 9 := by
        have range := digits c (.head _)
        simp only [isdigit, decide_eq_true_eq, BitVec.le_def] at range
        have high : c.toNat ≤ 57 := range.2
        omega
      have rest := ih (fun c member => digits c (.tail _ member)) (n * 10 + (c.toNat - 48))
      calc
        value 10 n ((c :: ds).map fun c => c.toNat - 48)
        _ < (n * 10 + (c.toNat - 48) + 1) * 10 ^ ds.length := rest
        _ ≤ ((n + 1) * 10) * 10 ^ ds.length := Nat.mul_le_mul_right _ (by omega)
        _ = (n + 1) * 10 ^ (ds.length + 1) := by rw [Nat.mul_assoc, Nat.pow_succ']

def Stops (k : Nat) (ds rest : List Byte) : Prop :=
  ds.length = k ∨ rest = [] ∨ ∃ c tail, rest = c :: tail ∧ isdigit c = false

theorem digits_split (k : Nat) (input : List Byte) :
    ∃ ds rest, input = ds ++ rest ∧ (∀ c ∈ ds, isdigit c) ∧ ds.length ≤ k ∧ Stops k ds rest := by
  induction k generalizing input with
  | zero => exact ⟨[], input, rfl, List.forall_mem_nil _, Nat.le_refl _, .inl rfl⟩
  | succ k ih =>
      cases input with
      | nil => exact ⟨[], [], rfl, List.forall_mem_nil _, Nat.zero_le _, .inr (.inl rfl)⟩
      | cons c input =>
          by_cases digit : isdigit c = true
          · obtain ⟨ds, rest, rfl, digits, short, stops⟩ := ih input
            exact ⟨c :: ds, rest, rfl, List.forall_mem_cons.mpr ⟨digit, digits⟩, Nat.succ_le_succ short,
              stops.imp_left (congrArg Nat.succ)⟩
          · exact ⟨[], c :: input, rfl, List.forall_mem_nil _, Nat.zero_le _, .inr (.inr ⟨c, input, rfl, Bool.not_eq_true _ ▸ digit⟩)⟩

theorem digitLoop_run {ds rest : List Byte} (digits : ∀ c ∈ ds, isdigit c) (n : Nat) {len maxlen : Nat} (room : len < maxlen)
    (short : len + ds.length ≤ maxlen) (stops : Stops (maxlen - len) ds rest) :
    Scanf.digitLoop 10 maxlen (ds ++ rest) (BitVec.ofNat 32 n) len =
      (BitVec.ofNat 32 (value 10 n (ds.map fun c => c.toNat - 48)), len + ds.length, rest,
        decide (rest = [] ∧ len + ds.length < maxlen)) := by
  induction ds generalizing n len with
  | nil =>
      rcases stops with full | rfl | ⟨c, tail, rfl, other⟩
      · rw [List.length_nil] at full
        omega
      · simp [Scanf.digitLoop, room]
      · simp [Scanf.digitLoop, digit_decimal, other]
  | cons c ds ih =>
      have digit : Scanf.digit 10 c = some (c.toNat - 48) := by
        rw [digit_decimal, if_pos (digits c (.head _))]
      rw [List.length_cons] at short
      have next : BitVec.ofNat 32 n * BitVec.ofNat 32 10 + BitVec.ofNat 32 (c.toNat - 48) =
          BitVec.ofNat 32 (n * 10 + (c.toNat - 48)) := by
        rw [← BitVec.ofNat_mul, ← BitVec.ofNat_add]
      rw [List.cons_append, Scanf.digitLoop, digit]
      simp only [next]
      by_cases full : maxlen ≤ len + 1
      · have none : ds = [] := List.eq_nil_of_length_eq_zero (by omega)
        subst none
        have bound : ¬ (rest = [] ∧ len + [c].length < maxlen) := fun h => by
          have room := h.2
          rw [List.length_singleton] at room
          omega
        rw [if_pos full, decide_eq_false bound]
        rfl
      · have stops : Stops (maxlen - (len + 1)) ds rest := stops.imp_left fun h => by
          rw [List.length_cons] at h
          omega
        rw [if_neg full, ih (fun c member => digits c (.tail _ member)) _ (by omega) (by omega) stops, List.length_cons,
          Nat.add_right_comm len 1 ds.length]
        rfl

def scanOctet (input : List Byte) : Scanf.Scan :=
  Scanf.scan_number_or_string (chr 'u') 3 .regular (fun _ => false) input

def signedValue (sign ds : List Byte) : BitVec 32 :=
  if sign = [chr '-'] then -(BitVec.ofNat 32 (decimalValue ds)) else BitVec.ofNat 32 (decimalValue ds)

def Scanned (g : List Byte) (v : BitVec 32) : Prop := ∃ blanks sign ds, Numeral g blanks sign ds ∧ v = signedValue sign ds

theorem scanOctet_text {blanks text : List Byte} (blank : ∀ c ∈ blanks, isspace c) {c : Byte} (first : isspace c = false) :
    scanOctet (blanks ++ c :: text) = Scanf.scanNumber 10 3 .regular (c :: text) := by
  have dropped : (blanks ++ c :: text).dropWhile isspace = c :: text := by
    rw [List.dropWhile_append_of_pos blank, List.dropWhile_cons_of_neg (by rw [first]; exact Bool.false_ne_true)]
  rw [scanOctet, Scanf.scan_number_or_string, if_neg (by decide), dropped]
  rfl

theorem sign_blank {sign ds : List Byte} (signed : Sign sign) (digits : ∀ c ∈ ds, isdigit c) (nonempty : ds ≠ [])
    (rest : List Byte) : ∃ c text, sign ++ (ds ++ rest) = c :: text ∧ isspace c = false := by
  rcases signed with rfl | rfl | rfl
  · cases ds with
    | nil => exact absurd rfl nonempty
    | cons c ds => exact ⟨c, ds ++ rest, rfl, (sign_text c (digits c (.head _))).2.2⟩
  · exact ⟨_, _, rfl, rfl⟩
  · exact ⟨_, _, rfl, rfl⟩

theorem scanNumber_sign {sign ds rest : List Byte} (signed : Sign sign) (digits : ∀ c ∈ ds, isdigit c) (nonempty : ds ≠ [])
    (short : sign.length + ds.length ≤ 3) (stops : Stops (3 - sign.length) ds rest) :
    Scanf.scanNumber 10 3 .regular (sign ++ (ds ++ rest)) =
      ⟨some (.number .regular (signedValue sign ds)), rest, decide (rest = [] ∧ sign.length + ds.length < 3)⟩ := by
  have positive : 0 < ds.length := List.length_pos_of_ne_nil nonempty
  have run {len : Nat} (room : len < 3) (short : len + ds.length ≤ 3) (stops : Stops (3 - len) ds rest) :=
    digitLoop_run digits 0 room short stops
  rcases signed with rfl | rfl | rfl
  · cases ds with
    | nil => exact absurd rfl nonempty
    | cons c ds =>
        have text := sign_text c (digits c (.head _))
        have loop := run (by decide : 0 < 3) (by simpa using short) stops
        rw [Nat.zero_add] at loop
        have head : (c :: ds ++ rest).head? = some c := rfl
        rw [List.nil_append, Scanf.scanNumber, head]
        simp only [Option.some.injEq, text.1, text.2.1, or_self, if_false, false_and, not_false_eq_true, and_true]
        rw [show (0 : BitVec 32) = BitVec.ofNat 32 0 from rfl, loop]
        simp only [List.length_nil, Nat.zero_add]
        rw [if_pos (Nat.ne_of_gt positive)]
        rfl
  · have loop := run (by decide : 1 < 3) short stops
    rw [Scanf.scanNumber]
    simp only [List.cons_append, List.nil_append, List.head?_cons, List.tail_cons, or_true, if_true]
    rw [show (0 : BitVec 32) = BitVec.ofNat 32 0 from rfl, loop]
    dsimp only
    rw [if_pos (by omega), if_neg (by decide)]
    rfl
  · have loop := run (by decide : 1 < 3) short stops
    rw [Scanf.scanNumber]
    simp only [List.cons_append, List.nil_append, List.head?_cons, List.tail_cons, true_or, if_true]
    rw [show (0 : BitVec 32) = BitVec.ofNat 32 0 from rfl, loop]
    dsimp only
    rw [if_pos (by omega)]
    rfl

theorem scanOctet_run {g blanks sign ds rest : List Byte} (num : Numeral g blanks sign ds)
    (stops : Stops (3 - sign.length) ds rest) :
    scanOctet (g ++ rest) =
      ⟨some (.number .regular (signedValue sign ds)), rest, decide (rest = [] ∧ sign.length + ds.length < 3)⟩ := by
  obtain ⟨c, text, starts, first⟩ := sign_blank num.signed num.digits num.nonempty rest
  rw [num.shape, List.append_assoc, List.append_assoc, starts, scanOctet_text num.blank first, ← starts]
  exact scanNumber_sign num.signed num.digits num.nonempty num.short stops

theorem scanNumber_none {sign rest : List Byte} (signed : Sign sign) (stops : Stops (3 - sign.length) [] rest)
    (plain : sign = [] → rest.head? ≠ some (chr '-') ∧ rest.head? ≠ some (chr '+')) :
    (Scanf.scanNumber 10 3 .regular (sign ++ rest)).matched = none := by
  have run {len : Nat} (room : len < 3) (stops : Stops (3 - len) [] rest) :=
    digitLoop_run (List.forall_mem_nil _) 0 room (Nat.le_of_lt room) stops
  rcases signed with rfl | rfl | rfl
  · have loop := run (by decide : 0 < 3) stops
    have head := plain rfl
    rw [List.nil_append] at loop ⊢
    rw [Scanf.scanNumber]
    simp only [head.1, head.2, or_self, if_false]
    rw [show (0 : BitVec 32) = BitVec.ofNat 32 0 from rfl, loop]
    rfl
  · have loop := run (by decide : 1 < 3) stops
    rw [List.nil_append] at loop
    rw [Scanf.scanNumber]
    simp only [List.cons_append, List.nil_append, List.head?_cons, List.tail_cons, or_true, if_true]
    rw [show (0 : BitVec 32) = BitVec.ofNat 32 0 from rfl, loop]
    rfl
  · have loop := run (by decide : 1 < 3) stops
    rw [List.nil_append] at loop
    rw [Scanf.scanNumber]
    simp only [List.cons_append, List.nil_append, List.head?_cons, List.tail_cons, true_or, if_true]
    rw [show (0 : BitVec 32) = BitVec.ofNat 32 0 from rfl, loop]
    rfl

theorem sign_split (text : List Byte) :
    ∃ sign rest, text = sign ++ rest ∧ Sign sign ∧ (sign = [] → rest.head? ≠ some (chr '-') ∧ rest.head? ≠ some (chr '+')) := by
  cases text with
  | nil => exact ⟨[], [], rfl, .inl rfl, fun _ => ⟨Option.some_ne_none _ ∘ Eq.symm, Option.some_ne_none _ ∘ Eq.symm⟩⟩
  | cons c text =>
      by_cases minus : c = chr '-'
      · exact ⟨[chr '-'], text, by rw [minus]; rfl, .inr (.inr rfl), fun h => absurd h (List.cons_ne_nil _ _)⟩
      by_cases plus : c = chr '+'
      · exact ⟨[chr '+'], text, by rw [plus]; rfl, .inr (.inl rfl), fun h => absurd h (List.cons_ne_nil _ _)⟩
      · exact ⟨[], c :: text, rfl, .inl rfl, fun _ => ⟨fun h => minus (Option.some.inj h), fun h => plus (Option.some.inj h)⟩⟩

theorem scanOctet_cases (input : List Byte) :
    (∃ g blanks sign ds rest, input = g ++ rest ∧ Numeral g blanks sign ds ∧ Stops (3 - sign.length) ds rest) ∨
      (scanOctet input).matched = none := by
  have blank : ∀ c ∈ input.takeWhile isspace, isspace c := fun c member =>
    List.all_eq_true.mp List.all_takeWhile c member
  cases text : input.dropWhile isspace with
  | nil =>
      right
      rw [scanOctet, Scanf.scan_number_or_string, if_neg (by decide), text]
      rfl
  | cons c t =>
      have parts : input = input.takeWhile isspace ++ c :: t := by
        rw [← text, List.takeWhile_append_dropWhile]
      have first : isspace c = false := by
        have kept := List.head_dropWhile_not isspace (by rw [text]; exact List.cons_ne_nil _ _)
        simpa [text] using kept
      obtain ⟨sign, rest, split, signed, plain⟩ := sign_split (c :: t)
      obtain ⟨ds, rest, rfl, digits, short, stops⟩ := digits_split (3 - sign.length) rest
      by_cases empty : ds = []
      · right
        subst empty
        rw [parts, scanOctet_text blank first, split]
        exact scanNumber_none signed stops plain
      · refine .inl ⟨_, input.takeWhile isspace, sign, ds, rest, ?_, ⟨rfl, blank, signed, digits, empty, ?_⟩, stops⟩
        · rw [List.append_assoc, List.append_assoc, ← split, ← parts]
        · rcases signed with rfl | rfl | rfl
          · exact (Nat.zero_add _).trans_le short
          · exact Nat.add_le_add_left short 1
          · exact Nat.add_le_add_left short 1

def dotsFormat : Nat → List Byte
  | 0 => ascii "%3u%c"
  | k + 1 => ascii "%3u." ++ dotsFormat k

theorem doscan_octet (fuel : Nat) (fmt input : List Byte) (stored : List Scanf.Stored) :
    Scanf.doscanLoop (fuel + 1) (chr '%' :: chr '3' :: chr 'u' :: fmt) input stored =
      match (scanOctet input).matched with
      | some v =>
          if (scanOctet input).eof then Scanf.ended (stored ++ [v])
          else Scanf.doscanLoop fuel fmt (scanOctet input).rest (stored ++ [v])
      | none => if (scanOctet input).eof then Scanf.ended stored else ⟨stored.length, stored⟩ := by
  rw [Scanf.doscanLoop, if_pos ⟨rfl, by simp only [List.head?_cons]; decide⟩]
  have conv : Scanf.conversion (chr '3' :: chr 'u' :: fmt) input = some (false, scanOctet input, fmt) := rfl
  rw [conv]
  dsimp only
  cases (scanOctet input).matched with
  | none => rfl
  | some v => rfl

theorem doscan_dot (fuel : Nat) (fmt : List Byte) (stored : List Scanf.Stored) (input : List Byte) :
    Scanf.doscanLoop (fuel + 1) (chr '.' :: fmt) input stored =
      match input with
      | [] => Scanf.ended stored
      | c :: input =>
          if c = chr '.' then Scanf.doscanLoop fuel fmt input stored else ⟨stored.length, stored⟩ := by
  rfl

theorem doscan_char (fuel : Nat) (stored : List Scanf.Stored) (input : List Byte) :
    Scanf.doscanLoop (fuel + 1) (ascii "%c") input stored =
      match input with
      | [] => Scanf.ended stored
      | c :: _ => ⟨stored.length + 1, stored ++ [.bytes [c]]⟩ := by
  cases input with
  | nil => rfl
  | cons c input =>
      have conv : Scanf.conversion (ascii "c") (c :: input) = some (false, ⟨some (.bytes [c]), input, false⟩, []) := by
        cases input with
        | nil => rfl
        | cons d input => rfl
      have fmt : ascii "%c" = chr '%' :: ascii "c" := rfl
      rw [fmt, Scanf.doscanLoop, if_pos ⟨rfl, by decide⟩, conv]
      cases fuel with
      | zero => simp [Scanf.doscanLoop]
      | succ fuel => simp [Scanf.doscanLoop]

theorem ended_stored (stored : List Scanf.Stored) (v : Scanf.Stored) :
    Scanf.ended (stored ++ [v]) = ⟨stored.length + 1, stored ++ [v]⟩ := by
  rw [Scanf.ended, if_neg (List.append_ne_nil_of_right_ne_nil _ (List.cons_ne_nil _ _)), List.length_append]
  rfl

theorem ended_le (stored : List Scanf.Stored) : (Scanf.ended stored).ret ≤ stored.length := by
  rw [Scanf.ended]
  dsimp only
  split
  · exact Int.le_trans (by decide) (Int.natCast_nonneg _)
  · exact Int.le_refl _

theorem doscan_dots {k : Nat} (fuel : Nat) {input : List Byte} {vs : List (BitVec 32)} (count : vs.length = k + 1)
    (dots : Dots Scanned input vs) (stored : List Scanf.Stored) :
    Scanf.doscanLoop (fuel + (2 * k + 2)) (dotsFormat k) input stored =
      ⟨stored.length + (k + 1 : Nat), stored ++ vs.map (.number .regular)⟩ := by
  induction k generalizing input vs stored with
  | zero =>
      obtain ⟨v, rfl⟩ := List.length_eq_one_iff.mp count
      obtain ⟨blanks, sign, ds, num, rfl⟩ := dots
      have scan := scanOctet_run num (.inr (.inl rfl) : Stops _ ds [])
      rw [List.append_nil] at scan
      have fmt : dotsFormat 0 = chr '%' :: chr '3' :: chr 'u' :: ascii "%c" := rfl
      rw [fmt, doscan_octet, scan]
      dsimp only
      split
      · exact ended_stored _ _
      · rw [doscan_char]
        exact ended_stored _ _
  | succ k ih =>
      obtain ⟨v, w, vs, rfl⟩ : ∃ v w vs', vs = v :: w :: vs' := by
        rcases vs with _ | ⟨v, _ | ⟨w, vs⟩⟩
        · cases count
        · cases count
        · exact ⟨v, w, vs, rfl⟩
      obtain ⟨g, rest, rfl, ⟨blanks, sign, ds, num, rfl⟩, dots⟩ := dots
      have scan := scanOctet_run num (.inr (.inr ⟨_, _, rfl, rfl⟩) : Stops _ ds (chr '.' :: rest))
      have more : ¬ (chr '.' :: rest = [] ∧ sign.length + ds.length < 3) := fun h => List.cons_ne_nil _ _ h.1
      have fmt : dotsFormat (k + 1) = chr '%' :: chr '3' :: chr 'u' :: chr '.' :: dotsFormat k := rfl
      have rounds : fuel + (2 * (k + 1) + 2) = (fuel + (2 * k + 2) + 1) + 1 := by omega
      rw [fmt, rounds, doscan_octet, scan, decide_eq_false more]
      dsimp only
      rw [if_neg Bool.false_ne_true, doscan_dot]
      dsimp only
      rw [if_pos rfl, ih (Nat.succ.inj count) dots]
      simp only [List.map_cons, List.append_assoc, List.singleton_append, List.length_append, List.length_singleton,
        Scanf.Result.mk.injEq, and_true]
      omega

theorem dots_of_doscan {k fuel : Nat} {input : List Byte} {stored : List Scanf.Stored}
    (ret : (Scanf.doscanLoop (fuel + (2 * k + 2)) (dotsFormat k) input stored).ret = stored.length + (k + 1 : Nat)) :
    ∃ vs, vs.length = k + 1 ∧ Dots Scanned input vs := by
  induction k generalizing input stored with
  | zero =>
      have fmt : dotsFormat 0 = chr '%' :: chr '3' :: chr 'u' :: ascii "%c" := rfl
      rw [fmt, doscan_octet] at ret
      rcases scanOctet_cases input with ⟨g, blanks, sign, ds, rest, rfl, num, stops⟩ | none
      · have scanned : Dots Scanned g [signedValue sign ds] := ⟨blanks, sign, ds, num, rfl⟩
        rw [scanOctet_run num stops] at ret
        cases rest with
        | nil => exact ⟨_, rfl, (List.append_nil g).symm ▸ scanned⟩
        | cons c rest =>
            have more : ¬ (c :: rest = [] ∧ sign.length + ds.length < 3) := fun h => List.cons_ne_nil _ _ h.1
            rw [decide_eq_false more] at ret
            dsimp only at ret
            rw [if_neg Bool.false_ne_true, doscan_char] at ret
            dsimp only at ret
            rw [List.length_append, List.length_singleton] at ret
            omega
      · rw [none] at ret
        dsimp only at ret
        have low := ended_le stored
        split at ret
        · omega
        · dsimp only at ret
          omega
  | succ k ih =>
      have fmt : dotsFormat (k + 1) = chr '%' :: chr '3' :: chr 'u' :: chr '.' :: dotsFormat k := rfl
      have rounds : fuel + (2 * (k + 1) + 2) = (fuel + (2 * k + 2) + 1) + 1 := by omega
      rw [fmt, rounds, doscan_octet] at ret
      rcases scanOctet_cases input with ⟨g, blanks, sign, ds, rest, rfl, num, stops⟩ | none
      · rw [scanOctet_run num stops] at ret
        dsimp only at ret
        have low := ended_le (stored ++ [.number .regular (signedValue sign ds)])
        have length : (stored ++ [Scanf.Stored.number .regular (signedValue sign ds)]).length = stored.length + 1 := by
          rw [List.length_append, List.length_singleton]
        split at ret
        · omega
        · rw [doscan_dot] at ret
          cases rest with
          | nil =>
              dsimp only at ret
              omega
          | cons c rest =>
              dsimp only at ret
              split at ret
              · rename_i dot
                subst dot
                have more : (Scanf.doscanLoop (fuel + (2 * k + 2)) (dotsFormat k) rest
                    (stored ++ [.number .regular (signedValue sign ds)])).ret =
                      (stored ++ [Scanf.Stored.number .regular (signedValue sign ds)]).length + (k + 1 : Nat) := by
                  omega
                obtain ⟨vs, count, dots⟩ := ih more
                cases vs with
                | nil => cases count
                | cons w vs =>
                    exact ⟨signedValue sign ds :: w :: vs, congrArg Nat.succ count, g, rest, rfl,
                      ⟨blanks, sign, ds, num, rfl⟩, dots⟩
              · dsimp only at ret
                omega
      · rw [none] at ret
        dsimp only at ret
        have low := ended_le stored
        split at ret
        · omega
        · dsimp only at ret
          omega

theorem Dots.map {α β : Type} {group : List Byte → α → Prop} {group' : List Byte → β → Prop} (f : α → β) {s : List Byte}
    {vs : List α} (imp : ∀ v ∈ vs, ∀ g, group g v → group' g (f v)) (dots : Dots group s vs) :
    Dots group' s (vs.map f) := by
  induction vs generalizing s with
  | nil => exact dots
  | cons v vs ih =>
      cases vs with
      | nil => exact imp v (.head _) s dots
      | cons w vs =>
          obtain ⟨g, rest, split, first, dots⟩ := dots
          exact ⟨g, rest, split, imp v (.head _) g first, ih (fun v member => imp v (.tail _ member)) dots⟩

theorem Octet.loose {g : List Byte} {v : Nat} (octet : Octet g v) : LooseOctet g v := by
  refine ⟨[], [], g, ⟨rfl, List.forall_mem_nil _, .inl rfl, octet.digits, octet.nonempty, ?_⟩, octet.value, octet.small, ?_⟩
  · exact (Nat.zero_add _).trans_le octet.short
  · exact fun h => absurd h.symm (List.cons_ne_nil _ _)

theorem Dotted.loose {str : List Byte} {a : List Nat} (dotted : Dotted str a) : Loose str a :=
  ⟨dotted.1, List.map_id a ▸ dotted.2.map id fun _ _ _ octet => octet.loose⟩

theorem Numeral.small {g blanks sign ds : List Byte} (num : Numeral g blanks sign ds) : decimalValue ds < 1000 := by
  have short := num.short
  calc
    decimalValue ds
    _ < (0 + 1) * 10 ^ ds.length := decimalValue_lt num.digits 0
    _ = 10 ^ ds.length := by rw [Nat.zero_add, Nat.one_mul]
    _ ≤ 10 ^ 3 := Nat.pow_le_pow_right (by decide) (by omega)

theorem LooseOctet.scanned {g : List Byte} {v : Nat} (octet : LooseOctet g v) : Scanned g (BitVec.ofNat 32 v) := by
  obtain ⟨blanks, sign, ds, num, rfl, _, zero⟩ := octet
  refine ⟨blanks, sign, ds, num, ?_⟩
  rw [signedValue]
  split
  · rename_i minus
    rw [zero minus]
    rfl
  · rfl

theorem Scanned.loose {g : List Byte} {v : BitVec 32} (small : v.toNat ≤ 255) (scanned : Scanned g v) : LooseOctet g v.toNat := by
  obtain ⟨blanks, sign, ds, num, rfl⟩ := scanned
  have bound := num.small
  refine ⟨blanks, sign, ds, num, ?_⟩
  rw [signedValue] at small ⊢
  by_cases minus : sign = [chr '-']
  · rw [if_pos minus, BitVec.toNat_neg, BitVec.toNat_ofNat] at small ⊢
    omega
  · rw [if_neg minus, BitVec.toNat_ofNat] at small ⊢
    exact ⟨by omega, small, fun h => absurd h minus⟩

theorem dots_small {s : List Byte} {a : List Nat} (dots : Dots LooseOctet s a) : ∀ v ∈ a, v ≤ 255 := by
  induction a generalizing s with
  | nil => exact List.forall_mem_nil _
  | cons v a ih =>
      cases a with
      | nil =>
          obtain ⟨_, _, _, _, _, small, _⟩ := dots
          exact List.forall_mem_singleton.mpr small
      | cons w a =>
          obtain ⟨g, rest, _, ⟨_, _, _, _, _, small, _⟩, dots⟩ := dots
          exact List.forall_mem_cons.mpr ⟨small, ih dots⟩

theorem length_four {α : Type} {a : List α} (count : a.length = 4) : ∃ a0 a1 a2 a3, a = [a0, a1, a2, a3] := by
  rcases a with _ | ⟨a0, _ | ⟨a1, _ | ⟨a2, _ | ⟨a3, _ | ⟨a4, a⟩⟩⟩⟩⟩
  all_goals first | exact ⟨_, _, _, _, rfl⟩ | simp at count

theorem sscanf_loop (str : List Byte) :
    Scanf.sscanf str (ascii "%3u.%3u.%3u.%3u%c") = Scanf.doscanLoop (9 + (2 * 3 + 2)) (dotsFormat 3) str [] := rfl

theorem dot2ipv4_loose {str : List Byte} {a : List Nat} (loose : Loose str a) (ip : Netaddr) :
    ∃ addr, dot2ipv4 (some str) (some ip) = (some addr, OK) ∧ addr.type = NETADDR_IPv4 ∧ addr.addr = a.map (BitVec.ofNat 8) := by
  obtain ⟨count, dots⟩ := loose
  have scan := doscan_dots 9 (by rw [List.length_map, count]) (dots.map (BitVec.ofNat 32) fun _ _ _ octet => octet.scanned) []
  have small := dots_small dots
  obtain ⟨a0, a1, a2, a3, rfl⟩ := length_four count
  have octet (v : Nat) (h : v ≤ 255) : ¬ (BitVec.ofNat 32 v).toNat > 0xff ∧ (BitVec.ofNat 32 v).truncate 8 = BitVec.ofNat 8 v := by
    constructor
    · rw [BitVec.toNat_ofNat]
      omega
    · apply BitVec.eq_of_toNat_eq
      simp only [BitVec.truncate, BitVec.toNat_setWidth, BitVec.toNat_ofNat]
      omega
  simp only [List.forall_mem_cons] at small
  obtain ⟨s0, s1, s2, s3, _⟩ := small
  refine ⟨ipv4Netaddr (BitVec.ofNat 8 a0) (BitVec.ofNat 8 a1) (BitVec.ofNat 8 a2) (BitVec.ofNat 8 a3), ?_, rfl, rfl⟩
  rw [dot2ipv4, sscanf_loop, scan]
  simp only [List.map_cons, List.map_nil, List.nil_append, scanned, (octet a0 s0).1, (octet a1 s1).1, (octet a2 s2).1,
    (octet a3 s3).1, (octet a0 s0).2, (octet a1 s1).2, (octet a2 s2).2, (octet a3 s3).2, or_self, if_false]
  rfl

theorem dot2ipv4_refused {str : List Byte} (none : ¬ ∃ a, Loose str a) (ip : Netaddr) :
    dot2ipv4 (some str) (some ip) = (some ip, SYSERR) := by
  rw [dot2ipv4, sscanf_loop]
  by_cases ret : (Scanf.doscanLoop (9 + (2 * 3 + 2)) (dotsFormat 3) str []).ret = 4
  · obtain ⟨vs, count, dots⟩ := @dots_of_doscan 3 9 str [] ret
    have scan := doscan_dots 9 count dots []
    obtain ⟨v0, v1, v2, v3, rfl⟩ := length_four count
    rw [scan]
    simp only [List.map_cons, List.map_nil, List.nil_append, scanned]
    by_cases large : v0.toNat > 0xff ∨ v1.toNat > 0xff ∨ v2.toNat > 0xff ∨ v3.toNat > 0xff
    · rw [if_pos large]
      rfl
    · have small : ∀ v ∈ [v0, v1, v2, v3], ∀ g, Scanned g v → LooseOctet g v.toNat := by
        intro v member g scanned
        refine scanned.loose ?_
        simp only [List.mem_cons, List.not_mem_nil, or_false] at member
        rcases member with rfl | rfl | rfl | rfl
        all_goals omega
      exact absurd ⟨_, rfl, dots.map BitVec.toNat small⟩ none
  · exact if_pos ret

def decimalText (w : BitVec 32) : List Byte :=
  if w.toInt < 0 then Printf.field false (chr ' ') 0 (-1) 10 [chr '-'] (Printf.ulong_to_string (-w).toNat 10 false)
  else Printf.field false (chr ' ') 0 (-1) 10 [] (Printf.ulong_to_string w.toNat 10 false)

def octetText (o : Byte) : List Byte := decimalText (o.zeroExtend 32)

theorem doprnt_decimal (fuel : Nat) (w : BitVec 32) (fmt : List Byte) (args : List Printf.Arg) (out : List Byte) :
    Printf.doprntLoop (fuel + 1) (chr '%' :: chr 'd' :: fmt) (.int w :: args) out =
      Printf.doprntLoop fuel fmt args (out ++ decimalText w) := by
  have conv : Printf.conversion (chr 'd' :: fmt) (.int w :: args) = (some (decimalText w), fmt, args) := by
    by_cases negative : w.toInt < 0
    · have text : Printf.convert (chr 'd') (.int w :: args) =
          (some (Printf.ulong_to_string (-w).toNat 10 false, 10, [chr '-']), args) := if_pos negative
      rw [decimalText, if_pos negative]
      change ((Printf.convert (chr 'd') (.int w :: args)).1.map _, fmt, (Printf.convert (chr 'd') (.int w :: args)).2) = _
      rw [text]
      rfl
    · have text : Printf.convert (chr 'd') (.int w :: args) =
          (some (Printf.ulong_to_string w.toNat 10 false, 10, []), args) := if_neg negative
      rw [decimalText, if_neg negative]
      change ((Printf.convert (chr 'd') (.int w :: args)).1.map _, fmt, (Printf.convert (chr 'd') (.int w :: args)).2) = _
      rw [text]
      rfl
  rw [Printf.doprntLoop, if_pos rfl, if_neg (by simp only [List.head?_cons]; decide), conv]

theorem doprnt_dot (fuel : Nat) (fmt : List Byte) (args : List Printf.Arg) (out : List Byte) :
    Printf.doprntLoop (fuel + 1) (chr '.' :: fmt) args out = Printf.doprntLoop fuel fmt args (out ++ [chr '.']) := rfl

theorem octetText_numeral (o : Byte) :
    octetText o = (Lib.numeral 10 o.toNat).map fun d => (Printf.digits false).getD d 0 := by
  have small := o.isLt
  have value : (o.zeroExtend 32).toNat = o.toNat := by
    rw [BitVec.zeroExtend, BitVec.toNat_setWidth]
    exact Nat.mod_eq_of_lt (by omega)
  have positive : ¬ (o.zeroExtend 32).toInt < 0 := by
    rw [BitVec.toInt_eq_toNat_of_lt (by omega), value]
    exact Int.not_lt.mpr (Int.natCast_nonneg _)
  have short : (Lib.numeral 10 o.toNat).length ≤ 3 := (Lib.length_numeral (by decide) (by decide)).mpr (by omega)
  have length := @Printf.int_nat (Lib.numeral 10 o.toNat).length (by omega)
  have room : ¬ ((Lib.numeral 10 o.toNat).length : Int) < 0 := Int.not_lt.mpr (Int.natCast_nonneg _)
  have blank : chr ' ' ≠ chr '0' := by decide
  rw [octetText, decimalText, if_neg positive, value, Printf.ulong_to_string_numeral (.inl rfl) false (by omega)]
  simp [Printf.field, length, room, blank, List.take_of_length_le]

theorem digit_text : ∀ d, d < 10 →
    isdigit ((Printf.digits false).getD d 0) = true ∧ ((Printf.digits false).getD d 0).toNat - 48 = d := by
  decide

theorem octetText_octet (o : Byte) : Octet (octetText o) o.toNat := by
  have small := o.isLt
  have digit (d : Nat) (member : d ∈ Lib.numeral 10 o.toNat) := digit_text d (Lib.numeral_digit (by decide) member)
  rw [octetText_numeral]
  constructor
  · intro c member
    obtain ⟨d, inside, rfl⟩ := List.mem_map.mp member
    exact (digit d inside).1
  · exact fun empty => Lib.numeral_ne 10 o.toNat (List.map_eq_nil_iff.mp empty)
  · rw [List.length_map]
    exact (Lib.length_numeral (by decide) (by decide)).mpr (by omega)
  · have back : (Lib.numeral 10 o.toNat).map (fun d => ((Printf.digits false).getD d 0).toNat - 48) = Lib.numeral 10 o.toNat :=
      (List.map_congr_left fun d member => (digit d member).2).trans (List.map_id _)
    rw [decimalValue, List.map_map]
    exact (Lib.value_numeral 10 o.toNat).symm.trans (congrArg (value 10 0) back.symm)
  · omega

theorem netaddrsprintf_ipv4 (o0 o1 o2 o3 : Byte) :
    netaddrsprintf (ipv4Netaddr o0 o1 o2 o3) =
      octetText o0 ++ chr '.' :: (octetText o1 ++ chr '.' :: (octetText o2 ++ chr '.' :: octetText o3)) := by
  have fmt : ascii "%d.%d.%d.%d" = chr '%' :: chr 'd' :: chr '.' :: chr '%' :: chr 'd' :: chr '.' ::
      chr '%' :: chr 'd' :: chr '.' :: chr '%' :: chr 'd' :: [] := rfl
  have printed : netaddrsprintf (ipv4Netaddr o0 o1 o2 o3) = Printf.doprntLoop 11 (ascii "%d.%d.%d.%d")
      [.int (o0.zeroExtend 32), .int (o1.zeroExtend 32), .int (o2.zeroExtend 32), .int (o3.zeroExtend 32)] [] := rfl
  rw [printed, fmt, doprnt_decimal, doprnt_dot, doprnt_decimal, doprnt_dot, doprnt_decimal, doprnt_dot, doprnt_decimal,
    Printf.doprntLoop]
  simp only [List.nil_append, List.append_assoc, List.cons_append, octetText]

theorem netaddrsprintf_dotted (o0 o1 o2 o3 : Byte) :
    Dotted (netaddrsprintf (ipv4Netaddr o0 o1 o2 o3)) [o0.toNat, o1.toNat, o2.toNat, o3.toNat] := by
  rw [netaddrsprintf_ipv4]
  exact ⟨rfl, _, _, rfl, octetText_octet o0, _, _, rfl, octetText_octet o1, _, _, rfl, octetText_octet o2, octetText_octet o3⟩

/-- `dot2ipv4` takes dotted decimal, and what is dotted decimal but for blanks and signs. It takes what is printed for an
address. -/
theorem dot2ipv4_parses (str : List Byte) (ip : Netaddr) :
    (Parses str ip ↔ ((∃ a, Loose str a) → ∃ a, Dotted str a)) ∧
      ∀ o0 o1 o2 o3, dot2ipv4 (some (netaddrsprintf (ipv4Netaddr o0 o1 o2 o3))) (some ip) =
        (some (ipv4Netaddr o0 o1 o2 o3), OK) := by
  constructor
  · constructor
    · intro parses ⟨a, loose⟩
      by_contra none
      obtain ⟨addr, taken, _⟩ := dot2ipv4_loose loose ip
      have refused := parses.2 (not_exists.mp none)
      rw [taken] at refused
      cases congrArg Prod.snd refused
    · intro strict
      refine ⟨fun a dotted => dot2ipv4_loose dotted.loose ip, fun none => dot2ipv4_refused (fun loose => ?_) ip⟩
      obtain ⟨a, dotted⟩ := strict loose
      exact none a dotted
  · intro o0 o1 o2 o3
    obtain ⟨⟨type, bytes, fits⟩, taken, rfl, stored⟩ := dot2ipv4_loose (netaddrsprintf_dotted o0 o1 o2 o3).loose ip
    simp only [List.map_cons, List.map_nil, BitVec.ofNat_toNat, BitVec.setWidth_eq] at stored
    subst stored
    exact taken

theorem dot2ipv4_decorated :
    dot2ipv4 (some (ascii "+1. 2.3.-0")) (some (ipv4Netaddr 9 9 9 9)) = (some (ipv4Netaddr 1 2 3 0), OK) ∧
      ¬ Parses (ascii "+1. 2.3.-0") (ipv4Netaddr 9 9 9 9) := by
  have taken : dot2ipv4 (some (ascii "+1. 2.3.-0")) (some (ipv4Netaddr 9 9 9 9)) = (some (ipv4Netaddr 1 2 3 0), OK) := by
    decide +kernel
  refine ⟨taken, fun parses => ?_⟩
  have strange : ∀ a, ¬ Dotted (ascii "+1. 2.3.-0") a := by
    rintro a ⟨count, dots⟩
    obtain ⟨a0, a1, a2, a3, rfl⟩ := length_four count
    obtain ⟨g, rest, split, octet, _⟩ := dots
    cases g with
    | nil => exact octet.nonempty rfl
    | cons c g =>
        have plus : c = chr '+' := (List.cons.inj split).1.symm
        exact absurd (octet.digits c (.head _)) (plus ▸ by decide)
  have refused := parses.2 strange
  rw [taken] at refused
  cases congrArg Prod.snd refused

end Xinu.Address
