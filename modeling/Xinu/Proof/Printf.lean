import Xinu.Lib.Digits
import Xinu.System.Scanf

namespace Xinu.Printf
open Lib

def digits (alt_digits : Bool) : List Byte := if alt_digits then digits_uc else digits_lc

theorem divisionLoop_numeral {base : Nat} (large : 1 < base) (digits : List Byte) (fuel num : Nat) (temp : List Byte)
    (bound : num < base ^ fuel) (positive : 0 < fuel) :
    divisionLoop digits base fuel num temp = (numeral base num).map (fun d => digits.getD d 0) ++ temp := by
  induction fuel generalizing num temp with
  | zero => omega
  | succ fuel ih =>
      rw [divisionLoop]
      by_cases last : num / base = 0
      · have small : num < base := (Nat.div_eq_zero_iff_lt (by omega)).mp last
        simp only [last, if_true, Nat.mod_eq_of_lt small, numeral_small small]
        rfl
      · have bound' : num / base < base ^ fuel := Nat.div_lt_of_lt_mul (by rwa [Nat.mul_comm, ← Nat.pow_succ])
        have positive' : 0 < fuel := by
          by_contra zero
          have : fuel = 0 := by omega
          rw [this, Nat.pow_zero] at bound'
          exact last (Nat.lt_one_iff.mp bound')
        simp only [last, if_false]
        rw [ih _ _ bound' positive', numeral_step large last, List.map_append, List.append_assoc]
        rfl

theorem maskLoop_division (digits : List Byte) (shift fuel num : Nat) (temp : List Byte) :
    maskLoop digits shift fuel num temp = divisionLoop digits (2 ^ shift) fuel num temp := by
  induction fuel generalizing num temp with
  | zero => rfl
  | succ fuel ih =>
      simp only [maskLoop, divisionLoop, Nat.one_shiftLeft, Nat.and_two_pow_sub_one_eq_mod, Nat.shiftRight_eq_div_pow, ih]

theorem ulong_to_string_numeral {base num : Nat} (bases : base = 10 ∨ base = 8 ∨ base = 16) (alt_digits : Bool)
    (bound : num < 2 ^ 32) :
    ulong_to_string num base alt_digits = (numeral base num).map (fun d => (digits alt_digits).getD d 0) := by
  have division : ulong_to_string num base alt_digits = divisionLoop (digits alt_digits) base LONG_BITS num [] := by
    have ten : base_to_nbits 10 = 0 := rfl
    have eight : base_to_nbits 8 = 3 := rfl
    have sixteen : base_to_nbits 16 = 4 := rfl
    rcases bases with rfl | rfl | rfl
    · simp only [ulong_to_string, ten, if_true, digits]
    · simp only [ulong_to_string, eight, OfNat.ofNat_ne_zero, if_false, digits, maskLoop_division, Nat.reducePow]
    · simp only [ulong_to_string, sixteen, OfNat.ofNat_ne_zero, if_false, digits, maskLoop_division, Nat.reducePow]
  have large : 1 < base := by omega
  have fits : num < base ^ LONG_BITS := Nat.lt_of_lt_of_le bound (Nat.pow_le_pow_left large 32)
  rw [division, divisionLoop_numeral large _ _ _ _ fits (by decide), List.append_nil]

inductive Flag
  | minus
  | zero

def Flag.byte : Flag → Byte
  | minus => chr '-'
  | zero => chr '0'

inductive Amount
  | digits (ds : List (Fin 10))
  | argument (w : BitVec 32)

def decimal (d : Fin 10) : Byte := BitVec.ofNat 8 (48 + d.val)

def Amount.text : Amount → List Byte
  | digits ds => ds.map decimal
  | argument _ => [chr '*']

def Amount.args : Amount → List Arg
  | digits _ => []
  | argument w => [.int w]

inductive Conv
  | d | u | o | x | X

def Conv.byte : Conv → Byte
  | d => chr 'd'
  | u => chr 'u'
  | o => chr 'o'
  | x => chr 'x'
  | X => chr 'X'

def Conv.scanned : Conv → Byte
  | X => chr 'x'
  | conv => conv.byte

def Conv.base : Conv → Nat
  | d | u => 10
  | o => 8
  | x | X => 16

structure Spec where
  flags : List Flag
  width : Amount
  prec : Option Amount
  long : Bool
  conv : Conv

def Spec.suffix (spec : Spec) : List Byte := (if spec.long then [chr 'l'] else []) ++ [spec.conv.byte]

def Spec.dotted (spec : Spec) : List Byte := (spec.prec.elim [] fun prec => chr '.' :: prec.text) ++ spec.suffix

def Spec.format (spec : Spec) : List Byte :=
  chr '%' :: (spec.flags.map Flag.byte ++ (spec.width.text ++ spec.dotted))

def Spec.args (spec : Spec) (v : BitVec 32) : List Arg :=
  spec.width.args ++ ((spec.prec.elim [] Amount.args) ++ [.int v])

def Spec.plain (spec : Spec) : List Byte :=
  chr '%' :: ((if spec.long then [chr 'l'] else []) ++ [spec.conv.scanned])

def Spec.stored (spec : Spec) (v : BitVec 32) : Scanf.Stored := .number (if spec.long then .long else .regular) v

def Conv.magnitude (conv : Conv) (v : BitVec 32) : Nat :=
  match conv with
  | .d => if v.toInt < 0 then (-v).toNat else v.toNat
  | _ => v.toNat

def Conv.sign (conv : Conv) (v : BitVec 32) : List Byte :=
  match conv with
  | .d => if v.toInt < 0 then [chr '-'] else []
  | _ => []

def Conv.alt (conv : Conv) : Bool := match conv with | .X => true | _ => false

def Stops (rest : List Byte) : Prop :=
  ∃ c tail, rest = c :: tail ∧ c ≠ chr '-' ∧ ¬ (chr '0' ≤ c ∧ c ≤ chr '9') ∧ c ≠ chr '*' ∧ c ≠ chr '%'

theorem Stops.of_cons {c : Byte} (tail : List Byte)
    (stops : c ≠ chr '-' ∧ ¬ (chr '0' ≤ c ∧ c ≤ chr '9') ∧ c ≠ chr '*' ∧ c ≠ chr '%') : Stops (c :: tail) :=
  ⟨c, tail, rfl, stops⟩

theorem suffix_stops (spec : Spec) : Stops spec.suffix := by
  unfold Spec.suffix
  cases spec.long with
  | true => exact .of_cons _ (by decide)
  | false => cases spec.conv <;> exact .of_cons _ (by decide)

theorem dotted_stops (spec : Spec) : Stops spec.dotted := by
  unfold Spec.dotted
  cases spec.prec with
  | none => exact suffix_stops spec
  | some prec => exact .of_cons _ (by decide)

theorem decimal_digit (d : Fin 10) : chr '0' ≤ decimal d ∧ decimal d ≤ chr '9' := by
  revert d
  decide

theorem decimal_ne (d : Fin 10) : decimal d ≠ chr '*' ∧ decimal d ≠ chr '-' ∧ decimal d ≠ chr '%' := by
  revert d
  decide

theorem flags_flags (flagList : List Flag) (rest : List Byte) (leftjust : Bool) (pad_char : Byte)
    (pad : pad_char = chr ' ' ∨ pad_char = chr '0') :
    ∃ leftjust' pad_char', flags (flagList.map Flag.byte ++ rest) leftjust pad_char = flags rest leftjust' pad_char' ∧
      (pad_char' = chr ' ' ∨ pad_char' = chr '0') := by
  induction flagList generalizing leftjust pad_char with
  | nil => exact ⟨leftjust, pad_char, rfl, pad⟩
  | cons flag flagList ih =>
      cases flag with
      | minus => exact ih true pad_char pad
      | zero => exact ih leftjust (chr '0') (.inr rfl)

theorem flags_stop {rest : List Byte} (stops : Stops rest) (leftjust : Bool) (pad_char : Byte) :
    flags rest leftjust pad_char = (leftjust, pad_char, rest) := by
  obtain ⟨c, tail, rfl, minus, digit, -⟩ := stops
  have zero : c ≠ chr '0' := by
    rintro rfl
    exact digit (by decide)
  rw [flags, if_neg minus, if_neg zero]

theorem flags_digits (ds : List (Fin 10)) {rest : List Byte} (stops : Stops rest) (leftjust : Bool) (pad_char : Byte)
    (pad : pad_char = chr ' ' ∨ pad_char = chr '0') :
    ∃ (pad_char' : Byte) (ds' : List (Fin 10)), flags (ds.map decimal ++ rest) leftjust pad_char = (leftjust, pad_char', ds'.map decimal ++ rest) ∧
      (pad_char' = chr ' ' ∨ pad_char' = chr '0') := by
  induction ds generalizing pad_char with
  | nil => exact ⟨pad_char, [], flags_stop stops leftjust pad_char, pad⟩
  | cons d ds ih =>
      rw [List.map_cons, List.cons_append, flags, if_neg (decimal_ne d).2.1]
      split
      · exact ih (chr '0') (.inr rfl)
      · exact ⟨pad_char, d :: ds, rfl, pad⟩

theorem int_lt (x : Int) : int x < 2 ^ 31 := by
  have := Int.bmod_lt (x := x) (m := 2 ^ 32) (by decide)
  exact this

theorem int_nat {n : Nat} (bound : n < 2 ^ 31) : int n = n := by
  rw [int, Int.bmod_def]
  omega

theorem number_digits (ds : List (Fin 10)) {rest : List Byte} (stops : Stops rest) {n : Int} (bound : n < 2 ^ 31) :
    ∃ n', number (ds.map decimal ++ rest) n = (n', rest) ∧ n' < 2 ^ 31 := by
  induction ds generalizing n with
  | nil =>
      obtain ⟨c, tail, rfl, -, digit, -⟩ := stops
      exact ⟨n, by rw [List.map_nil, List.nil_append, number, if_neg digit], bound⟩
  | cons d ds ih =>
      rw [List.map_cons, List.cons_append, number, if_pos (decimal_digit d)]
      exact ih (int_lt _)

theorem digits_head (ds : List (Fin 10)) {rest : List Byte} (stops : Stops rest) :
    (ds.map decimal ++ rest).head? ≠ some (chr '*') := by
  cases ds with
  | nil =>
      obtain ⟨c, tail, rfl, -, -, star, -⟩ := stops
      exact fun head => star (Option.some.inj head)
  | cons d ds => exact fun head => (decimal_ne d).1 (Option.some.inj head)

theorem width_head (amount : Amount) {rest : List Byte} (stops : Stops rest) :
    (amount.text ++ rest).head? ≠ some (chr '%') := by
  intro head
  cases amount with
  | digits ds =>
      cases ds with
      | nil =>
          obtain ⟨c, tail, rfl, -, -, -, percent⟩ := stops
          exact percent (Option.some.inj head)
      | cons d ds => exact (decimal_ne d).2.2 (Option.some.inj head)
  | argument w => exact absurd (Option.some.inj head) (by decide)

theorem width_amount (amount : Amount) {rest : List Byte} (stops : Stops rest) (args : List Arg) (leftjust : Bool) :
    ∃ fmin leftjust', width (amount.text ++ rest) (amount.args ++ args) leftjust = (fmin, leftjust', rest, args) := by
  cases amount with
  | digits ds =>
      obtain ⟨fmin, read, -⟩ := number_digits ds stops (by decide : (0 : Int) < 2 ^ 31)
      show ∃ fmin leftjust', width (ds.map decimal ++ rest) args leftjust = (fmin, leftjust', rest, args)
      rw [width, if_neg (digits_head ds stops), read]
      exact ⟨_, _, rfl⟩
  | argument w =>
      show ∃ fmin leftjust', (if w.toInt < 0 then (int (-w.toInt), true, rest, args) else (w.toInt, leftjust, rest, args)) =
        (fmin, leftjust', rest, args)
      split
      · exact ⟨_, _, rfl⟩
      · exact ⟨_, _, rfl⟩

theorem precision_amount (spec : Spec) (v : BitVec 32) :
    ∃ prec, precision spec.dotted (spec.prec.elim [] Amount.args ++ [.int v]) = (prec, spec.suffix, [.int v]) ∧
      prec < 2 ^ 31 := by
  unfold Spec.dotted
  cases spec.prec with
  | none =>
      refine ⟨-1, if_neg ?_, by decide⟩
      show ¬ spec.suffix.head? = _
      unfold Spec.suffix
      cases spec.long with
      | true => exact fun head => absurd (Option.some.inj head) (by decide)
      | false => cases spec.conv <;> exact fun head => absurd (Option.some.inj head) (by decide)
  | some amount =>
      cases amount with
      | digits ds =>
          obtain ⟨prec, read, bound⟩ := number_digits ds (suffix_stops spec) (by decide : (0 : Int) < 2 ^ 31)
          refine ⟨prec, (if_pos rfl).trans ((if_neg (digits_head ds (suffix_stops spec))).trans ?_), bound⟩
          exact congrArg (fun r : Int × List Byte => (r.1, r.2, [Arg.int v])) read
      | argument w => exact ⟨w.toInt, rfl, BitVec.toInt_lt⟩

theorem modifier_suffix (spec : Spec) : ∃ size, modifier spec.suffix = (size, [spec.conv.byte]) := by
  unfold Spec.suffix
  cases spec.long with
  | true => exact ⟨_, rfl⟩
  | false => cases spec.conv <;> exact ⟨_, rfl⟩

theorem convert_conv (conv : Conv) (v : BitVec 32) :
    convert conv.byte [.int v] =
      (some ((numeral conv.base (conv.magnitude v)).map (fun d => (digits conv.alt).getD d 0), conv.base, conv.sign v), []) := by
  cases conv with
  | d =>
      by_cases negative : v.toInt < 0
      · have taken : convert (chr 'd') [.int v] = (some (ulong_to_string (-v).toNat 10 false, 10, [chr '-']), []) :=
          if_pos negative
        rw [Conv.byte, taken, ulong_to_string_numeral (.inl rfl) _ (-v).isLt]
        simp only [Conv.magnitude, Conv.sign, negative, if_true]
        rfl
      · have taken : convert (chr 'd') [.int v] = (some (ulong_to_string v.toNat 10 false, 10, []), []) :=
          if_neg negative
        rw [Conv.byte, taken, ulong_to_string_numeral (.inl rfl) _ v.isLt]
        simp only [Conv.magnitude, Conv.sign, negative, if_false]
        rfl
  | u => exact congrArg (fun str => (some (str, 10, []), [])) (ulong_to_string_numeral (.inl rfl) false v.isLt)
  | o => exact congrArg (fun str => (some (str, 8, []), [])) (ulong_to_string_numeral (.inr (.inl rfl)) false v.isLt)
  | x => exact congrArg (fun str => (some (str, 16, []), [])) (ulong_to_string_numeral (.inr (.inr rfl)) false v.isLt)
  | X => exact congrArg (fun str => (some (str, 16, []), [])) (ulong_to_string_numeral (.inr (.inr rfl)) true v.isLt)

theorem conversion_spec (spec : Spec) (v : BitVec 32) :
    ∃ (leftjust : Bool) (pad_char : Byte) (fmin prec : Int), (pad_char = chr ' ' ∨ pad_char = chr '0' ∧ leftjust = false) ∧
      prec < 2 ^ 31 ∧ conversion (spec.flags.map Flag.byte ++ (spec.width.text ++ spec.dotted)) (spec.args v) =
        (some (field leftjust pad_char fmin prec spec.conv.base (spec.conv.sign v)
          ((numeral spec.conv.base (spec.conv.magnitude v)).map (fun d => (digits spec.conv.alt).getD d 0))), [], []) := by
  obtain ⟨leftjust, pad_char, first, pad⟩ :=
    flags_flags spec.flags (spec.width.text ++ spec.dotted) false (chr ' ') (.inl rfl)
  have widthed : ∃ (amount : Amount) (pad_char' : Byte), amount.args = spec.width.args ∧
      flags (spec.width.text ++ spec.dotted) leftjust pad_char = (leftjust, pad_char', amount.text ++ spec.dotted) ∧
      (pad_char' = chr ' ' ∨ pad_char' = chr '0') := by
    cases spec.width with
    | digits ds =>
        obtain ⟨pad_char', ds', read, pad'⟩ := flags_digits ds (dotted_stops spec) leftjust pad_char pad
        exact ⟨.digits ds', pad_char', rfl, read, pad'⟩
    | argument w => exact ⟨.argument w, pad_char, rfl, rfl, pad⟩
  obtain ⟨amount, pad_char', args, second, pad'⟩ := widthed
  obtain ⟨fmin, leftjust', third⟩ := width_amount amount (dotted_stops spec) (spec.prec.elim [] Amount.args ++ [.int v]) leftjust
  obtain ⟨prec, fourth, bound⟩ := precision_amount spec v
  obtain ⟨size, fifth⟩ := modifier_suffix spec
  refine ⟨leftjust', if leftjust' then chr ' ' else pad_char', fmin, prec, ?_, bound, ?_⟩
  · cases leftjust' with
    | true => exact .inl rfl
    | false => exact pad'.imp id fun zero => ⟨zero, rfl⟩
  · rw [conversion, first, second, Spec.args, ← args]
    simp only [third, fourth, fifth, convert_conv]
    rfl

theorem field_blanks {leftjust : Bool} {pad_char : Byte} (fmin : Int) {prec : Int} {base : Nat} (sign str : List Byte)
    (pad : pad_char = chr ' ' ∨ pad_char = chr '0' ∧ leftjust = false) (bound : prec < 2 ^ 31) (numeric : base ≠ 0) :
    ∃ before zeroes after : Nat, zeroes < 2 ^ 31 ∧ field leftjust pad_char fmin prec base sign str =
      List.replicate before (chr ' ') ++ (sign ++ (List.replicate zeroes (chr '0') ++ (str ++ List.replicate after (chr ' ')))) := by
  have string : (if 0 ≤ prec ∧ base = 0 ∧ prec < str.length then prec else (str.length : Int)) = str.length :=
    if_neg fun ⟨_, zero, _⟩ => numeric zero
  have take : str.take ((str.length : Int)).toNat = str := List.take_length
  unfold field
  simp only [string, take]
  have zeroes_lt : (if 0 ≤ prec ∧ base ≠ 0 ∧ (str.length : Int) < prec then prec - str.length else 0) < 2 ^ 31 := by
    split <;> omega
  generalize (if 0 ≤ prec ∧ base ≠ 0 ∧ (str.length : Int) < prec then prec - str.length else 0) = zeroes at *
  have padding_lt : (if int (str.length + zeroes + sign.length) < fmin
      then int (fmin - int (str.length + zeroes + sign.length)) else 0) < 2 ^ 31 := by
    split
    · exact int_lt _
    · decide
  generalize (if int (str.length + zeroes + sign.length) < fmin
      then int (fmin - int (str.length + zeroes + sign.length)) else 0) = padding at *
  have pad' : (if 0 ≤ prec ∧ base ≠ 0 then chr ' ' else pad_char) = chr ' ' ∨
      (if 0 ≤ prec ∧ base ≠ 0 then chr ' ' else pad_char) = chr '0' ∧ leftjust = false := by
    split
    · exact .inl rfl
    · exact pad
  generalize (if 0 ≤ prec ∧ base ≠ 0 then chr ' ' else pad_char) = pad_char at *
  rcases pad' with rfl | ⟨rfl, rfl⟩
  · -- blanks on one side, and the zeroes of the precision
    have blank : ¬ (¬ leftjust ∧ chr ' ' = chr '0') := fun both => absurd both.2 (by decide)
    simp only [blank, if_false]
    cases leftjust with
    | true =>
        refine ⟨0, zeroes.toNat, padding.toNat, by omega, ?_⟩
        simp
    | false =>
        refine ⟨padding.toNat, zeroes.toNat, 0, by omega, ?_⟩
        simp
  · -- zero padding stands behind the sign
    refine ⟨0, padding.toNat, 0, by omega, ?_⟩
    simp

theorem digit_oct : ∀ d, d < 8 → Scanf.digit 8 ((digits false).getD d 0) = some d := by decide

theorem digit_dec : ∀ d, d < 10 → Scanf.digit 10 ((digits false).getD d 0) = some d := by decide

theorem digit_hex : ∀ alt_digits d, d < 16 → Scanf.digit 16 ((digits alt_digits).getD d 0) = some d := by decide

theorem digit_printed (conv : Conv) {d : Nat} (bound : d < conv.base) :
    Scanf.digit conv.base ((digits conv.alt).getD d 0) = some d := by
  cases conv with
  | d | u => exact digit_dec d bound
  | o => exact digit_oct d bound
  | x => exact digit_hex false d bound
  | X => exact digit_hex true d bound

theorem digit_blank (base : Nat) : Scanf.digit base (chr ' ') = none := by
  simp [Scanf.digit, tolower, isupper, chr]

theorem digitLoop_value (conv : Conv) {maxlen : Nat} (ds : List Nat) (bound : ∀ d ∈ ds, d < conv.base) (after : Nat)
    (n len : Nat) (short : len + ds.length < maxlen) :
    ∃ rest eof, Scanf.digitLoop conv.base maxlen
        (ds.map (fun d => (digits conv.alt).getD d 0) ++ List.replicate after (chr ' ')) (BitVec.ofNat 32 n) len =
      (BitVec.ofNat 32 (value conv.base n ds), len + ds.length, rest, eof) := by
  induction ds generalizing n len with
  | nil =>
      cases after with
      | zero => exact ⟨[], true, rfl⟩
      | succ after =>
          refine ⟨chr ' ' :: List.replicate after (chr ' '), false, ?_⟩
          rw [List.map_nil, List.nil_append, List.replicate_succ, Scanf.digitLoop, digit_blank]
          rfl
  | cons d ds ih =>
      rw [List.length_cons] at short
      obtain ⟨rest, eof, read⟩ := ih (fun d member => bound d (List.mem_cons_of_mem _ member)) (n * conv.base + d) (len + 1) (by omega)
      refine ⟨rest, eof, ?_⟩
      have more : ¬ maxlen ≤ len + 1 := by omega
      rw [List.map_cons, List.cons_append, Scanf.digitLoop, digit_printed conv (bound d List.mem_cons_self)]
      simp only [more, if_false]
      rw [← BitVec.ofNat_mul, ← BitVec.ofNat_add, read, value_cons, List.length_cons, Nat.add_assoc, Nat.add_comm 1]

theorem magnitude_sign (conv : Conv) (v : BitVec 32) :
    conv.sign v = [] ∧ BitVec.ofNat 32 (conv.magnitude v) = v ∨
      conv.sign v = [chr '-'] ∧ - BitVec.ofNat 32 (conv.magnitude v) = v := by
  cases conv with
  | d =>
      by_cases negative : v.toInt < 0
      · simp only [Conv.sign, Conv.magnitude, negative, if_true]
        exact .inr ⟨trivial, by rw [BitVec.ofNat_toNat, BitVec.setWidth_eq, BitVec.neg_neg]⟩
      · simp only [Conv.sign, Conv.magnitude, negative, if_false]
        exact .inl ⟨trivial, by rw [BitVec.ofNat_toNat, BitVec.setWidth_eq]⟩
  | u | o | x | X => exact .inl (by simp [Conv.sign, Conv.magnitude])

theorem digits_text : ∀ alt_digits d, d < 16 → (digits alt_digits).getD d 0 ≠ chr '-' ∧
    (digits alt_digits).getD d 0 ≠ chr '+' ∧ isspace ((digits alt_digits).getD d 0) = false ∧
      (digits alt_digits).getD d 0 ≠ 0 := by decide

theorem printed_text (conv : Conv) {d : Nat} (bound : d < conv.base) :
    (digits conv.alt).getD d 0 ≠ chr '-' ∧ (digits conv.alt).getD d 0 ≠ chr '+' ∧
      isspace ((digits conv.alt).getD d 0) = false ∧ (digits conv.alt).getD d 0 ≠ 0 := by
  have : conv.base ≤ 16 := by cases conv <;> decide
  exact digits_text conv.alt d (Nat.lt_of_lt_of_le bound this)

theorem scanNumber_unsigned {base maxlen : Nat} (size : Scanf.Size) {c : Byte} {input rest : List Byte} {n : BitVec 32}
    {len : Nat} {eof : Bool} (minus : c ≠ chr '-') (plus : c ≠ chr '+')
    (read : Scanf.digitLoop base maxlen (c :: input) 0 0 = (n, len, rest, eof)) (nonempty : len ≠ 0) :
    Scanf.scanNumber base maxlen size (c :: input) = ⟨some (.number size n), rest, eof⟩ := by
  have negative : ¬ (c :: input).head? = some (chr '-') := fun head => minus (Option.some.inj head)
  have positive : ¬ (c :: input).head? = some (chr '+') := fun head => plus (Option.some.inj head)
  rw [Scanf.scanNumber]
  simp only [negative, positive, or_self, if_false, read, nonempty, false_and, not_false_eq_true, and_self, ne_eq, if_true]

theorem scanNumber_negative {base maxlen : Nat} (size : Scanf.Size) {input rest : List Byte} {n : BitVec 32}
    {len : Nat} {eof : Bool} (read : Scanf.digitLoop base maxlen input 0 1 = (n, len, rest, eof)) (nonempty : 1 < len) :
    Scanf.scanNumber base maxlen size (chr '-' :: input) = ⟨some (.number size (-n)), rest, eof⟩ := by
  have negative : (chr '-' :: input).head? = some (chr '-') := rfl
  have scanned : len ≠ 0 ∧ ¬ (True ∧ len = 1) := by omega
  rw [Scanf.scanNumber]
  simp only [negative, true_or, if_true, List.tail_cons, read, scanned, ne_eq, not_false_eq_true, and_self]

def Conv.number (conv : Conv) (v : BitVec 32) (zeroes : Nat) : List Byte :=
  conv.sign v ++ (List.replicate zeroes (chr '0') ++ (numeral conv.base (conv.magnitude v)).map
    (fun d => (digits conv.alt).getD d 0))

theorem number_ne (conv : Conv) (v : BitVec 32) (zeroes : Nat) : conv.number v zeroes ≠ [] := by
  have nonempty := numeral_ne conv.base (conv.magnitude v)
  simp [Conv.number, nonempty]

theorem number_text (conv : Conv) (v : BitVec 32) (zeroes : Nat) {c : Byte} (member : c ∈ conv.number v zeroes) :
    isspace c = false ∧ c ≠ 0 := by
  rcases List.mem_append.mp member with sign | member
  · have : c = chr '-' := by
      rcases magnitude_sign conv v with ⟨eq, -⟩ | ⟨eq, -⟩
      · rw [eq] at sign
        exact nomatch sign
      · rw [eq] at sign
        exact List.mem_singleton.mp sign
    exact this ▸ by decide
  · rcases List.mem_append.mp member with zero | member
    · exact List.eq_of_mem_replicate zero ▸ by decide
    · obtain ⟨d, printed, rfl⟩ := List.mem_map.mp member
      have large : 1 < conv.base := by cases conv <;> decide
      exact (printed_text conv (numeral_digit large printed)).2.2

theorem scanNumber_printed (conv : Conv) (v : BitVec 32) (size : Scanf.Size) {zeroes : Nat} (bound : zeroes < 2 ^ 31)
    (after : Nat) :
    ∃ rest eof, Scanf.scanNumber conv.base Scanf.UNLIMITED_LENGTH size
      (conv.number v zeroes ++ List.replicate after (chr ' ')) = ⟨some (.number size v), rest, eof⟩ := by
  have large : 1 < conv.base := by cases conv <;> decide
  have magnitude : conv.magnitude v < conv.base ^ 32 := by
    have small : conv.magnitude v < 2 ^ 32 := by
      cases conv with
      | d =>
          by_cases negative : v.toInt < 0
          · simp only [Conv.magnitude, negative, if_true]
            exact (-v).isLt
          · simp only [Conv.magnitude, negative, if_false]
            exact v.isLt
      | u | o | x | X => exact v.isLt
    exact Nat.lt_of_lt_of_le small (Nat.pow_le_pow_left large 32)
  have length := (length_numeral large (by decide)).mpr magnitude
  -- the zeroes are digits like the others
  let ds := List.replicate zeroes 0 ++ numeral conv.base (conv.magnitude v)
  have small : ∀ d ∈ ds, d < conv.base := by
    intro d member
    rcases List.mem_append.mp member with zero | member
    · have := List.eq_of_mem_replicate zero
      omega
    · exact numeral_digit large member
  have number : value conv.base 0 ds = conv.magnitude v := by
    rw [value_append, value_zeros, value_numeral]
  have nonempty : ds.length ≠ 0 := by
    have := List.length_pos_of_ne_nil (numeral_ne conv.base (conv.magnitude v))
    rw [List.length_append]
    omega
  have zero : (digits conv.alt).getD 0 0 = chr '0' := by cases conv <;> rfl
  have text : conv.number v zeroes ++ List.replicate after (chr ' ') =
      conv.sign v ++ (ds.map (fun d => (digits conv.alt).getD d 0) ++ List.replicate after (chr ' ')) := by
    rw [Conv.number, List.map_append, List.map_replicate, zero, List.append_assoc]
  have short : 1 + ds.length < Scanf.UNLIMITED_LENGTH := by
    rw [List.length_append, List.length_replicate]
    show _ < 2 ^ 32 - 1
    omega
  rw [text]
  rcases magnitude_sign conv v with ⟨sign, same⟩ | ⟨sign, same⟩
  · obtain ⟨rest, eof, read⟩ := digitLoop_value conv ds small after 0 0 (Nat.lt_of_le_of_lt (by omega) short)
    rw [number, same, Nat.zero_add] at read
    refine ⟨rest, eof, ?_⟩
    obtain ⟨d, ds', first⟩ := List.exists_cons_of_length_pos (Nat.pos_of_ne_zero nonempty)
    have signs := printed_text conv (small d (by rw [first]; exact List.mem_cons_self))
    rw [sign, List.nil_append]
    rw [first, List.map_cons, List.cons_append] at read ⊢
    exact scanNumber_unsigned size signs.1 signs.2.1 read (by rw [← first]; exact nonempty)
  · obtain ⟨rest, eof, read⟩ := digitLoop_value conv ds small after 0 1 short
    rw [number] at read
    refine ⟨rest, eof, ?_⟩
    rw [sign, List.singleton_append, scanNumber_negative size read (by omega), same]

theorem dropWhile_blanks (before : Nat) {c : Byte} (rest : List Byte) (text : isspace c = false) :
    (List.replicate before (chr ' ') ++ c :: rest).dropWhile isspace = c :: rest := by
  induction before with
  | zero => simp [text]
  | succ before ih =>
      rw [List.replicate_succ, List.cons_append, List.dropWhile_cons_of_pos (by decide)]
      exact ih

theorem scan_printed (conv : Conv) (maxlen : Nat) (size : Scanf.Size) (stopchar : Byte → Bool) (before : Nat) {c : Byte}
    (rest : List Byte) (text : isspace c = false) :
    Scanf.scan_number_or_string conv.scanned maxlen size stopchar (List.replicate before (chr ' ') ++ c :: rest) =
      Scanf.scanNumber conv.base maxlen size (c :: rest) := by
  unfold Scanf.scan_number_or_string
  rw [dropWhile_blanks before rest text]
  cases conv <;> rfl

theorem sscanf_printed (spec : Spec) (v : BitVec 32) (before after : Nat) {zeroes : Nat} (bound : zeroes < 2 ^ 31) :
    Scanf.sscanf (List.replicate before (chr ' ') ++ (spec.conv.number v zeroes ++ List.replicate after (chr ' ')))
      spec.plain = ⟨1, [spec.stored v]⟩ := by
  obtain ⟨flags, width, prec, long, conv⟩ := spec
  obtain ⟨rest, eof, read⟩ := scanNumber_printed conv v (if long then .long else .regular) bound after
  have scanned : Scanf.scan_number_or_string conv.scanned Scanf.UNLIMITED_LENGTH (if long then .long else .regular)
      (fun _ => false) (List.replicate before (chr ' ') ++ (conv.number v zeroes ++ List.replicate after (chr ' '))) =
      ⟨some (.number (if long then .long else .regular) v), rest, eof⟩ := by
    obtain ⟨c, tail, first⟩ := List.exists_cons_of_ne_nil (number_ne conv v zeroes)
    have text := number_text conv v zeroes (c := c) (by rw [first]; exact List.mem_cons_self)
    rw [← read, first, List.cons_append]
    exact scan_printed conv _ _ _ before _ text.1
  generalize List.replicate before (chr ' ') ++ (conv.number v zeroes ++ List.replicate after (chr ' ')) = input at *
  have converted : Scanf.conversion ((if long then [chr 'l'] else []) ++ [conv.scanned]) input =
      some (false, ⟨some (.number (if long then .long else .regular) v), rest, eof⟩, []) := by
    rw [← scanned]
    cases long <;> cases conv <;> rfl
  have percent : chr '%' = chr '%' ∧ ((if long then [chr 'l'] else []) ++ [conv.scanned]).head? ≠ some (chr '%') := by
    refine ⟨rfl, ?_⟩
    cases long <;> cases conv <;> exact fun head => absurd (Option.some.inj head) (by decide)
  show Scanf.doscanLoop (_ + 1) (chr '%' :: ((if long then [chr 'l'] else []) ++ [conv.scanned])) input [] = _
  rw [Scanf.doscanLoop, if_pos percent, converted]
  cases eof with
  | true => rfl
  | false => cases long <;> rfl

theorem sprintf_ret (format : List Byte) (args : List Arg) :
    (sprintf format args).2 = int (sprintf format args).1.length := by
  rw [sprintf]

theorem doprntLoop_nil (fuel : Nat) (args : List Arg) (out : List Byte) : doprntLoop fuel [] args out = out := by
  cases fuel <;> rfl

theorem sprintf_printed (spec : Spec) (v : BitVec 32) :
    ∃ before zeroes after : Nat, zeroes < 2 ^ 31 ∧ (sprintf spec.format (spec.args v)).1 =
      List.replicate before (chr ' ') ++ (spec.conv.number v zeroes ++ List.replicate after (chr ' ')) := by
  obtain ⟨leftjust, pad_char, fmin, prec, pad, bound, converted⟩ := conversion_spec spec v
  have numeric : spec.conv.base ≠ 0 := by cases spec.conv <;> decide
  obtain ⟨before, zeroes, after, few, shape⟩ := field_blanks fmin (spec.conv.sign v) ((numeral spec.conv.base
    (spec.conv.magnitude v)).map (fun d => (digits spec.conv.alt).getD d 0)) pad bound numeric
  have percent : (spec.flags.map Flag.byte ++ (spec.width.text ++ spec.dotted)).head? ≠ some (chr '%') := by
    intro head
    cases eq : spec.flags with
    | cons flag flags =>
        rw [eq] at head
        have same : flag.byte = chr '%' := Option.some.inj head
        cases flag <;> exact absurd same (by decide)
    | nil =>
        rw [eq, List.map_nil, List.nil_append] at head
        exact width_head spec.width (dotted_stops spec) head
  refine ⟨before, zeroes, after, few, ?_⟩
  show doprntLoop (_ + 1) (chr '%' :: _) _ [] = _
  rw [doprntLoop, if_pos rfl, if_neg percent, converted, shape]
  simp only [doprntLoop_nil, Conv.number, List.nil_append, List.append_assoc]

/-- Scanning a printed number stores the number, and `sprintf` returns how many characters it has stored
in front of the `'\0'`, none of which is another one, as long as a buffer can hold them. -/
theorem sprintf_sscanf (spec : Spec) (v : BitVec 32) :
    Scanf.sscanf (sprintf spec.format (spec.args v)).1 spec.plain = ⟨1, [spec.stored v]⟩ ∧
      0 ∉ (sprintf spec.format (spec.args v)).1 ∧
      ((sprintf spec.format (spec.args v)).1.length < 2 ^ 31 →
        (sprintf spec.format (spec.args v)).2 = (sprintf spec.format (spec.args v)).1.length) := by
  obtain ⟨before, zeroes, after, few, shape⟩ := sprintf_printed spec v
  refine ⟨?_, ?_, fun fits => ?_⟩
  · rw [shape]
    exact sscanf_printed spec v before after few
  · rw [shape]
    have blank : ∀ k, 0 ∉ List.replicate k (chr ' ') := by
      intro k member
      exact absurd (List.eq_of_mem_replicate member) (by decide)
    intro member
    rcases List.mem_append.mp member with left | member
    · exact blank before left
    · rcases List.mem_append.mp member with text | right
      · exact (number_text spec.conv v zeroes text).2 rfl
      · exact blank after right
  · rw [sprintf_ret, int_nat fits]

theorem sprintf_sscanf_lowest :
    let spec : Spec := ⟨[.zero, .minus], .digits [1, 4], some (.argument 3), true, .d⟩
    Scanf.sscanf (sprintf spec.format (spec.args 0x80000000)).1 spec.plain = ⟨1, [.number .long 0x80000000]⟩ ∧
      (sprintf spec.format (spec.args 0x80000000)).2 = 14 := by
  intro spec
  have round := sprintf_sscanf spec 0x80000000
  have length : (sprintf spec.format (spec.args 0x80000000)).1.length = 14 := by decide +kernel
  refine ⟨round.1, ?_⟩
  rw [round.2.2 (by omega), length]
  rfl

end Xinu.Printf
