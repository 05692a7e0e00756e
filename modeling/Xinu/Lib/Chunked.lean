import Xinu.Lib.Bytes
import Xinu.Lib.Digits

namespace Xinu.Lib

def crlf : List Byte := [13, 10]

def hexDigit (c : Byte) : Option Nat :=
  if 48 ≤ c ∧ c ≤ 57 then some (c.toNat - 48)
  else if 97 ≤ c ∧ c ≤ 102 then some (c.toNat - 87)
  else if 65 ≤ c ∧ c ≤ 70 then some (c.toNat - 55)
  else none

def hexDigits : List Byte → List Nat × List Byte
  | [] => ([], [])
  | c :: body =>
      match hexDigit c with
      | none => ([], c :: body)
      | some d => (d :: (hexDigits body).1, (hexDigits body).2)

def decode : Nat → List Byte → Option (List Byte)
  | 0, _ => none
  | fuel + 1, body =>
      let (ds, rest) := hexDigits body
      if ds = [] ∨ rest.take 2 ≠ crlf then none
      else
        let n := value 16 0 ds
        let rest := rest.drop 2
        if n = 0 then if rest = crlf then some [] else none
        else if (rest.drop n).take 2 = crlf then (decode fuel (rest.drop (n + 2))).map (rest.take n ++ ·)
        else none

def Dead (body : List Byte) : Prop := ∀ fuel rest, decode fuel (body ++ rest) = none

def Synced (body : List Byte) : Prop :=
  ∃ text, ∀ fuel rest decoded, decode fuel (body ++ rest) = some decoded →
    ∃ fuel' decoded', decode fuel' rest = some decoded' ∧ decoded = text ++ decoded'

section
variable {body data rest size text : List Byte} {c : Byte} {fuel n : Nat}

theorem hexDigits_stop (stop : hexDigit c = none) : hexDigits (c :: rest) = ([], c :: rest) := by
  rw [hexDigits, stop]

def Hex (size : List Byte) (ds : List Nat) : Prop := size.map hexDigit = ds.map some

theorem hexDigits_append {ds : List Nat} (hex : Hex size ds) :
    hexDigits (size ++ rest) = (ds ++ (hexDigits rest).1, (hexDigits rest).2) := by
  induction size generalizing ds with
  | nil =>
      have : ds = [] := by simpa [Hex] using hex.symm
      rw [this]
      rfl
  | cons c size ih =>
      cases ds with
      | nil => simp [Hex] at hex
      | cons d ds =>
          obtain ⟨head, tail⟩ := List.cons.inj hex
          rw [List.cons_append, hexDigits, head, ih tail]
          rfl

theorem hexDigits_spec (body : List Byte) :
    ∃ size, Hex size (hexDigits body).1 ∧ body = size ++ (hexDigits body).2 := by
  induction body with
  | nil => exact ⟨[], rfl, rfl⟩
  | cons c body ih =>
      obtain ⟨size, hex, split⟩ := ih
      rw [hexDigits]
      cases digit : hexDigit c with
      | none => exact ⟨[], rfl, rfl⟩
      | some d =>
          refine ⟨c :: size, ?_, ?_⟩
          · rw [Hex, List.map_cons, List.map_cons, digit, hex]
          · rw [List.cons_append, ← split]

theorem take_crlf (start : rest.take 2 = crlf) : rest = crlf ++ rest.drop 2 := by
  rw [← start, List.take_append_drop]

theorem decode_chunk {ds : List Nat} (hex : Hex size ds) (nonempty : ds ≠ []) (length : value 16 0 ds = data.length)
    (some_data : data ≠ []) :
    decode (fuel + 1) (size ++ (crlf ++ (data ++ (crlf ++ rest)))) = (decode fuel rest).map (data ++ ·) := by
  have digits : hexDigits (size ++ (crlf ++ (data ++ (crlf ++ rest)))) = (ds, crlf ++ (data ++ (crlf ++ rest))) := by
    rw [hexDigits_append hex, crlf, List.cons_append, hexDigits_stop (by decide), List.append_nil]
  have positive : value 16 0 ds ≠ 0 := by
    rw [length]
    exact fun zero => some_data (List.length_eq_zero_iff.mp zero)
  have skip : (crlf ++ (data ++ (crlf ++ rest))).drop 2 = data ++ (crlf ++ rest) := rfl
  have start : ¬ (ds = [] ∨ (crlf ++ (data ++ (crlf ++ rest))).take 2 ≠ crlf) := by
    rintro (empty | other)
    · exact nonempty empty
    · exact other rfl
  have stop : ((data ++ (crlf ++ rest)).drop data.length).take 2 = crlf := by
    rw [List.drop_left]
    rfl
  have after : (data ++ (crlf ++ rest)).drop (data.length + 2) = rest := by
    rw [← List.drop_drop, List.drop_left]
    rfl
  rw [decode]
  simp only [digits, start, positive, skip, if_false]
  rw [length, if_pos stop, after, List.take_left]

theorem synced_nil : Synced [] := ⟨[], fun fuel _ decoded read => ⟨fuel, decoded, read, rfl⟩⟩

theorem Synced.append (first : Synced body) (second : Synced rest) : Synced (body ++ rest) := by
  obtain ⟨text, first⟩ := first
  obtain ⟨text', second⟩ := second
  refine ⟨text ++ text', fun fuel last decoded read => ?_⟩
  rw [List.append_assoc] at read
  obtain ⟨fuel', decoded', read', rfl⟩ := first _ _ _ read
  obtain ⟨fuel'', decoded'', read'', rfl⟩ := second _ _ _ read'
  exact ⟨fuel'', decoded'', read'', (List.append_assoc _ _ _).symm⟩

theorem synced_chunk {ds : List Nat} (hex : Hex size ds) (nonempty : ds ≠ []) (length : value 16 0 ds = data.length)
    (some_data : data ≠ []) : Synced (size ++ (crlf ++ (data ++ crlf))) := by
  refine ⟨data, fun fuel rest decoded read => ?_⟩
  cases fuel with
  | zero => exact nomatch read
  | succ fuel =>
      simp only [List.append_assoc] at read
      rw [decode_chunk hex nonempty length some_data] at read
      obtain ⟨decoded', read', rfl⟩ := Option.map_eq_some_iff.mp read
      exact ⟨fuel, decoded', read', rfl⟩

theorem Dead.append (dead : Dead body) (rest : List Byte) : Dead (body ++ rest) := by
  intro fuel last
  rw [List.append_assoc]
  exact dead fuel _

theorem Synced.dead (synced : Synced body) (dead : Dead rest) : Dead (body ++ rest) := by
  obtain ⟨text, synced⟩ := synced
  intro fuel last
  rw [List.append_assoc]
  cases read : decode fuel (body ++ (rest ++ last)) with
  | none => rfl
  | some decoded =>
      obtain ⟨fuel', decoded', read', -⟩ := synced _ _ _ read
      rw [dead] at read'
      exact nomatch read'

theorem dead_size (stop : ∀ last, ((hexDigits (body ++ last)).2).take 2 ≠ crlf) : Dead body := by
  intro fuel last
  cases fuel with
  | zero => rfl
  | succ fuel =>
      rw [decode]
      exact if_pos (.inr (stop last))

theorem dead_chunk {ds : List Nat} (hex : Hex size ds) (length : value 16 0 ds = data.length) (some_data : data ≠ [])
    (stop : ∀ last, (rest ++ last).take 2 ≠ crlf) : Dead (size ++ (crlf ++ (data ++ rest))) := by
  intro fuel last
  cases fuel with
  | zero => rfl
  | succ fuel =>
      have digits : hexDigits (size ++ (crlf ++ (data ++ (rest ++ last)))) = (ds, crlf ++ (data ++ (rest ++ last))) := by
        rw [hexDigits_append hex, crlf, List.cons_append, hexDigits_stop (by decide), List.append_nil]
      have positive : value 16 0 ds ≠ 0 := by
        rw [length]
        exact fun zero => some_data (List.length_eq_zero_iff.mp zero)
      have skip : (crlf ++ (data ++ (rest ++ last))).drop 2 = data ++ (rest ++ last) := rfl
      have missing : ¬ ((data ++ (rest ++ last)).drop data.length).take 2 = crlf := by
        rw [List.drop_left]
        exact stop last
      simp only [List.append_assoc]
      rw [decode]
      simp only [digits, positive, skip, if_false]
      rw [length, if_neg missing, ite_self]

theorem Hex.digit {ds : List Nat} (hex : Hex size ds) : ∀ c ∈ size, hexDigit c ≠ none := by
  intro c member none
  have : hexDigit c ∈ ds.map some := hex ▸ List.mem_map_of_mem member
  obtain ⟨d, -, some⟩ := List.mem_map.mp this
  rw [none] at some
  exact nomatch some

theorem Hex.nonempty {ds : List Nat} (hex : Hex size ds) (nonempty : ds ≠ []) : size ≠ [] := by
  rintro rfl
  exact nonempty (by simpa [Hex] using hex.symm)

theorem decode_cases (read : decode fuel body = some text) :
    ∃ size, size ≠ [] ∧ (∀ c ∈ size, hexDigit c ≠ none) ∧
      (body = size ++ (crlf ++ crlf) ∧ text = [] ∨
        ∃ data rest fuel' text', fuel = fuel' + 1 ∧ data ≠ [] ∧ body = size ++ (crlf ++ (data ++ (crlf ++ rest))) ∧
          decode fuel' rest = some text' ∧ text = data ++ text') := by
  cases fuel with
  | zero => exact nomatch read
  | succ fuel =>
      obtain ⟨size, hex, split⟩ := hexDigits_spec body
      rw [decode] at read
      generalize hexDigits body = digits at *
      obtain ⟨ds, rest⟩ := digits
      simp only at read hex split
      by_cases start : ds = [] ∨ rest.take 2 ≠ crlf
      · rw [if_pos start] at read
        exact nomatch read
      · rw [if_neg start] at read
        have ⟨nonempty, line⟩ := not_or.mp start
        have line := take_crlf (not_not.mp line)
        refine ⟨size, hex.nonempty nonempty, hex.digit, ?_⟩
        generalize rest.drop 2 = rest' at *
        rw [line] at split
        by_cases zero : value 16 0 ds = 0
        · rw [if_pos zero] at read
          by_cases ended : rest' = crlf
          · rw [if_pos ended] at read
            exact .inl ⟨by rw [split, ended], (Option.some.inj read).symm⟩
          · rw [if_neg ended] at read
            exact nomatch read
        · rw [if_neg zero] at read
          generalize value 16 0 ds = n at *
          by_cases stop : (rest'.drop n).take 2 = crlf
          · rw [if_pos stop] at read
            obtain ⟨text', read', text⟩ := Option.map_eq_some_iff.mp read
            have behind := take_crlf stop
            rw [List.drop_drop] at behind
            refine .inr ⟨rest'.take n, rest'.drop (n + 2), fuel, text', rfl, ?_, ?_, read', text.symm⟩
            · intro empty
              rcases List.take_eq_nil_iff.mp empty with no | no
              · exact zero no
              · rw [no, List.drop_nil] at stop
                exact nomatch stop
            · rw [← behind, List.take_append_drop]
              exact split
          · rw [if_neg stop] at read
            exact nomatch read

theorem decode_end (read : decode fuel body = some text) (nonempty : text ≠ []) :
    ∃ front size, size ≠ [] ∧ (∀ c ∈ size, hexDigit c ≠ none) ∧
      body = front ++ (text.getLast nonempty :: (crlf ++ (size ++ (crlf ++ crlf)))) := by
  induction fuel generalizing body text with
  | zero => exact nomatch read
  | succ fuel ih =>
      obtain ⟨size, -, -, last | ⟨data, rest, fuel', text', same, some_data, split, read', rfl⟩⟩ := decode_cases read
      · exact absurd last.2 nonempty
      · cases Nat.succ.inj same
        by_cases empty : text' = []
        · subst empty
          obtain ⟨size', some_size, hex, last | ⟨data', _, _, _, _, some_data', _, _, joined⟩⟩ := decode_cases read'
          · refine ⟨size ++ (crlf ++ data.dropLast), size', some_size, hex, ?_⟩
            have ends : data = data.dropLast ++ [data.getLast some_data] := (List.dropLast_append_getLast some_data).symm
            have same : (data ++ []).getLast nonempty = data.getLast some_data := by congr 1; exact List.append_nil data
            rw [split, last.1, same]
            conv_lhs => rw [ends]
            simp only [List.append_assoc, List.cons_append, List.nil_append]
          · exact absurd (List.append_eq_nil_iff.mp joined.symm).1 some_data'
        · obtain ⟨front, size', some_size, hex, rest⟩ := ih read' empty
          refine ⟨size ++ (crlf ++ (data ++ (crlf ++ front))), size', some_size, hex, ?_⟩
          rw [split, rest, List.getLast_append_of_ne_nil _ empty]
          simp only [List.append_assoc]

end

end Xinu.Lib
