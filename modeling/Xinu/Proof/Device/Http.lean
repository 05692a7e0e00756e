import Xinu.Proof.Printf
import Xinu.System.Http

namespace Xinu.Http
open Lib Printf

theorem field_plain {pad_char : Byte} {base : Nat} {str : List Byte} (short : str.length < 2 ^ 31) :
    field false pad_char 0 (-1) base [] str = str := by
  have length : int ((str.length : Int) + 0 + ([] : List Byte).length) = str.length := by
    rw [Int.add_zero, List.length_nil, Int.natCast_zero, Int.add_zero, int_nat short]
  have blank : ¬ (str.length : Int) < 0 := by omega
  unfold field
  simp only [Int.reduceNeg, Int.reduceLE, false_and, if_false, length, blank]
  simp

def hexByte (d : Nat) : Byte := digits_lc.getD d 0

theorem printed_hex {n : Nat} (bound : n < 2 ^ 32) :
    (sprintf ([chr '%', chr 'x'] ++ crlf) [.int (BitVec.ofNat 32 n)]).1 = (numeral 16 n).map hexByte ++ crlf := by
  have number : ulong_to_string (BitVec.ofNat 32 n).toNat 16 false = (numeral 16 n).map hexByte := by
    rw [BitVec.toNat_ofNat, Nat.mod_eq_of_lt bound, ulong_to_string_numeral (.inr (.inr rfl)) _ bound]
    rfl
  have short : (ulong_to_string (BitVec.ofNat 32 n).toNat 16 false).length < 2 ^ 31 := by
    have : (numeral 16 n).length ≤ 8 := (length_numeral (by decide) (by decide)).mpr bound
    rw [number, List.length_map]
    omega
  have converted : conversion [chr 'x', 13, 10] [.int (BitVec.ofNat 32 n)] =
      (some (field false (chr ' ') 0 (-1) 16 [] (ulong_to_string (BitVec.ofNat 32 n).toNat 16 false)), [13, 10], []) := rfl
  show doprntLoop 4 [chr '%', chr 'x', 13, 10] [.int (BitVec.ofNat 32 n)] [] = _
  rw [doprntLoop, if_pos rfl, if_neg (by decide), converted, field_plain short, number]
  simp only [doprntLoop]
  simp [chr, crlf]

theorem hexDigit_hexByte : ∀ d, d < 16 → hexDigit (hexByte d) = some d := by decide

theorem hex_numeral (n : Nat) : Hex ((numeral 16 n).map hexByte) (numeral 16 n) := by
  rw [Hex, List.map_map]
  apply List.map_congr_left
  intro d member
  exact hexDigit_hexByte d (numeral_digit (by decide) member)

theorem chunkInfo_short {n : Nat} (bound : n < 4096) : chunkInfo n = (numeral 16 n).map hexByte ++ crlf := by
  have : (numeral 16 n).length ≤ 3 := (length_numeral (by decide) (by decide)).mpr bound
  rw [chunkInfo, HTTP_MAX_CHUNK, printed_hex (by omega), List.take_of_length_le]
  rw [List.length_append, List.length_map]
  simp only [crlf, List.length_cons, List.length_nil]
  omega

theorem chunkInfo_cut {n : Nat} (low : 4096 ≤ n) (high : n < 65536) :
    chunkInfo n = (numeral 16 n).map hexByte ++ [13] := by
  have upper : (numeral 16 n).length ≤ 4 := (length_numeral (by decide) (by decide)).mpr high
  have lower : ¬ (numeral 16 n).length ≤ 3 := by
    rw [length_numeral (by decide) (by decide)]
    omega
  have length : ((numeral 16 n).map hexByte).length = 4 := by
    rw [List.length_map]
    omega
  rw [chunkInfo, HTTP_MAX_CHUNK, printed_hex (by omega), List.take_append, length, List.take_of_length_le (by omega)]
  rfl

theorem chunkInfo_long {n : Nat} (low : 65536 ≤ n) (bound : n < 2 ^ 32) :
    chunkInfo n = ((numeral 16 n).take 5).map hexByte := by
  have lower : ¬ (numeral 16 n).length ≤ 4 := by
    rw [length_numeral (by decide) (by decide)]
    omega
  rw [chunkInfo, HTTP_MAX_CHUNK, printed_hex bound, List.take_append_of_le_length, List.map_take]
  rw [List.length_map]
  omega

def Settled (sent : List Byte) : Prop := Dead sent ∨ Synced sent

theorem Settled.append {sent bytes : List Byte} (settled : Settled sent) (more : Settled bytes) : Settled (sent ++ bytes) := by
  rcases settled with dead | synced
  · exact .inl (dead.append bytes)
  · rcases more with dead | synced'
    · exact .inl (synced.dead dead)
    · exact .inr (synced.append synced')

theorem Settled.dead {sent bytes : List Byte} (settled : Settled sent) (dead : Dead bytes) : Dead (sent ++ bytes) := by
  rcases settled with dead' | synced
  · exact dead'.append bytes
  · exact synced.dead dead

/-- A buffer that gives no line end to the size in front of it, unless that size has its own. -/
def Plain (buffer : List Byte) : Prop :=
  buffer.length < 65536 ∨ ∀ rest, (hexDigits (buffer ++ (crlf ++ rest))).2.take 2 ≠ crlf

theorem synced_short {data : List Byte} (some_data : data ≠ []) (short : data.length < 4096) :
    Synced (chunkInfo data.length ++ (data ++ crlf)) := by
  rw [chunkInfo_short short, List.append_assoc]
  exact synced_chunk (hex_numeral _) (numeral_ne _ _) (value_numeral _ _) some_data

theorem dead_cut {data : List Byte} (low : 4096 ≤ data.length) (high : data.length < 65536) :
    Dead (chunkInfo data.length ++ (data ++ crlf)) := by
  obtain ⟨c, rest, rfl⟩ := List.exists_cons_of_length_pos (l := data) (by omega)
  rw [chunkInfo_cut low high, List.append_assoc, List.singleton_append]
  by_cases newline : c = 10
  · -- the size takes its line end from the data, which then ends one byte too late
    subst newline
    have shift : (13 : Byte) :: (10 :: rest ++ crlf) = crlf ++ ((rest ++ [13]) ++ [10]) := by
      simp [crlf]
    have length : value 16 0 (numeral 16 ((10 : Byte) :: rest).length) = (rest ++ [13]).length := by
      rw [value_numeral, List.length_cons, List.length_append]
      rfl
    rw [shift]
    exact dead_chunk (hex_numeral _) length (by simp) fun last => by simp [crlf]
  · apply dead_size
    intro last
    rw [List.append_assoc, hexDigits_append (hex_numeral _), List.cons_append, hexDigits_stop (by decide)]
    simpa [crlf] using newline

theorem dead_long {data : List Byte} (low : 65536 ≤ data.length) (bound : data.length < 2 ^ 32) (plain : Plain data) :
    Dead (chunkInfo data.length ++ (data ++ crlf)) := by
  have stop := plain.resolve_left (by omega)
  have hex : Hex (((numeral 16 data.length).take 5).map hexByte) ((numeral 16 data.length).take 5) := by
    have := hex_numeral data.length
    rw [Hex] at this ⊢
    rw [List.map_take, List.map_take, this, List.map_take]
  rw [chunkInfo_long low bound]
  apply dead_size
  intro last
  rw [List.append_assoc, List.append_assoc, hexDigits_append hex]
  exact stop last

theorem settled_chunk {data : List Byte} (some_data : data ≠ []) (bound : data.length < 2 ^ 32) (plain : Plain data) :
    Settled (chunkInfo data.length ++ (data ++ crlf)) := by
  by_cases short : data.length < 4096
  · exact .inr (synced_short some_data short)
  · by_cases cut : data.length < 65536
    · exact .inl (dead_cut (by omega) cut)
    · exact .inl (dead_long (by omega) bound plain)

def footer : List Byte := endpage ++ crlf

theorem endOfPage_chunked {web : Http} (chunked : web.flags .chunked) :
    endOfPage web = (numeral 16 footer.length).map hexByte ++ (crlf ++ (footer ++ ([48] ++ (crlf ++ crlf)))) := by
  have sent : endOfPage web = [51, 54] ++ (crlf ++ (footer ++ ([48] ++ (crlf ++ crlf)))) := by
    rw [endOfPage, if_pos chunked]
    decide +kernel
  have size : (numeral 16 footer.length).map hexByte = [51, 54] := by
    have : footer.length = 54 := rfl
    rw [this, numeral_step (by decide) (by decide), numeral_small (by decide)]
    rfl
  rw [sent, size]

theorem dead_endOfPage {web : Http} (chunked : web.flags .chunked) : Dead (endOfPage web) := by
  rw [endOfPage_chunked chunked]
  exact dead_chunk (hex_numeral _) (value_numeral _ _) (by decide) fun last => by simp [crlf]

theorem endOfPage_unread {web : Http} (chunked : web.flags .chunked) (front : List Byte) (fuel : Nat) (text : List Byte) :
    decode fuel (front ++ endOfPage web) ≠ some (text ++ footer) := by
  intro read
  have nonempty : text ++ footer ≠ [] := fun empty => absurd (List.append_eq_nil_iff.mp empty).2 (by decide)
  obtain ⟨front', size, some_size, hex, body⟩ := decode_end read nonempty
  have last : (text ++ footer).getLast nonempty = 10 := by
    rw [List.getLast_append_of_ne_nil _ (by decide)]
    rfl
  have ends : ∃ front'', front ++ endOfPage web = (front'' ++ 62 :: crlf) ++ (48 :: (crlf ++ crlf)) := by
    have split : footer = footer.take 51 ++ 62 :: crlf := rfl
    refine ⟨front ++ ((numeral 16 footer.length).map hexByte ++ (crlf ++ footer.take 51)), ?_⟩
    rw [endOfPage_chunked chunked]
    conv_lhs => rw [split]
    simp only [List.append_assoc, List.cons_append, List.nil_append]
    rw [split]
    rfl
  obtain ⟨front'', ends⟩ := ends
  rw [ends, last] at body
  rcases List.eq_nil_or_concat size with empty | ⟨size', c, eq⟩
  · exact some_size empty
  · have split : front' ++ 10 :: (crlf ++ (size ++ (crlf ++ crlf))) =
        (front' ++ (10 :: crlf ++ size')) ++ (c :: (crlf ++ crlf)) := by
      simp [eq]
    rw [split] at body
    have front_eq := (List.append_inj' body rfl).1
    rcases List.eq_nil_or_concat size' with empty' | ⟨size'', c', eq'⟩
    · rw [empty', List.append_nil] at front_eq
      exact absurd (List.append_inj' front_eq rfl).2 (by decide)
    · -- the last byte in front of the size is no digit
      have same : (front'' ++ [62, 13]) ++ [10] = (front' ++ (10 :: crlf ++ size'')) ++ [c'] := by
        have : front'' ++ 62 :: crlf = (front'' ++ [62, 13]) ++ [10] := by simp [crlf]
        rw [← this, front_eq, eq']
        simp
      have digit := hex c' (by simp [eq, eq'])
      rw [← List.head_eq_of_cons_eq (List.append_inj' same rfl).2] at digit
      exact digit (by decide)

structure Chunking (web : Http) : Prop where
  alloc : web.alloc
  phw : web.phw
  chunked : web.flags .chunked
  output : web.flags .clearwout = false
  fits : web.wout.length ≤ HTTP_WBLEN

section
variable {web web' : Http} {flag other : Flag} {set : Bool} {buffer : List Byte}

theorem control_alloc : (httpControl set flag web).alloc = web.alloc := by
  unfold httpControl
  split <;> rfl

theorem control_sent : (httpControl set flag web).sent = web.sent := by
  unfold httpControl
  split <;> rfl

theorem control_wout : (httpControl set flag web).wout = web.wout := by
  unfold httpControl
  split <;> rfl

theorem control_phw : (httpControl set flag web).phw = web.phw := by
  unfold httpControl
  split <;> rfl

theorem control_other (differs : other ≠ flag) : (httpControl set flag web).flags other = web.flags other := by
  unfold httpControl
  split
  · exact Function.update_of_ne differs _ _
  · rfl

theorem control_same (alloc : web.alloc) : (httpControl set flag web).flags flag = set := by
  rw [httpControl, if_pos alloc]
  exact Function.update_self _ _ _

theorem Chunking.control (chunking : Chunking web) (chunked : flag ≠ .chunked) (output : flag ≠ .clearwout) :
    Chunking (httpControl set flag web) where
  alloc := by rw [control_alloc, chunking.alloc]
  phw := by rw [control_phw, chunking.phw]
  chunked := by rw [control_other chunked.symm, chunking.chunked]
  output := by rw [control_other output.symm, chunking.output]
  fits := by rw [control_wout]; exact chunking.fits

theorem cleanLoop_length (fuel : Nat) (buf : List Byte) (start : Nat) (discovered : Bool) :
    (cleanLoop fuel buf start discovered).1.length ≤ buf.length := by
  induction fuel generalizing buf start discovered with
  | zero => exact Nat.le_refl _
  | succ fuel ih =>
      rw [cleanLoop]
      split
      · exact Nat.le_refl _
      · simp only
        split
        · split
          · exact ih _ _ _
          · refine Nat.le_trans (ih _ _ _) ?_
            rw [List.length_append, List.length_take, List.length_drop]
            omega
        · exact ih _ _ _

structure Cleans (web web' : Http) : Prop where
  alloc : web'.alloc = web.alloc
  phw : web'.phw = web.phw
  sent : web'.sent = web.sent
  flags : ∀ flag, flag ≠ .cleansed → flag ≠ .waitonshell → web'.flags flag = web.flags flag

theorem Cleans.control (cleans : Cleans web web') (flag_eq : flag = .cleansed ∨ flag = .waitonshell) :
    Cleans web (httpControl set flag web') where
  alloc := control_alloc.trans cleans.alloc
  phw := control_phw.trans cleans.phw
  sent := control_sent.trans cleans.sent
  flags := by
    intro other cleansed waitonshell
    have differs : other ≠ flag := by
      rintro rfl
      exact flag_eq.elim cleansed waitonshell
    rw [control_other differs, cleans.flags other cleansed waitonshell]

theorem cleanPrompts_spec (web : Http) : Cleans web (cleanPrompts web) ∧ (cleanPrompts web).wout.length ≤ web.wout.length := by
  unfold cleanPrompts
  split
  · have length := cleanLoop_length web.wout.length web.wout 0 false
    generalize cleanLoop web.wout.length web.wout 0 false = cleaned at *
    have cleans : Cleans web { web with wout := cleaned.1 } := ⟨rfl, rfl, rfl, fun _ _ _ => rfl⟩
    simp only
    split
    · refine ⟨(cleans.control (.inl rfl)).control (.inr rfl), ?_⟩
      rw [control_wout, control_wout]
      exact length
    · refine ⟨cleans.control (.inl rfl), ?_⟩
      rw [control_wout]
      exact length
  · exact ⟨⟨rfl, rfl, rfl, fun _ _ _ => rfl⟩, Nat.le_refl _⟩

theorem place_spec (buffer : List Byte) (web : Http) :
    Cleans web (place buffer web) ∧ (place buffer web).wout.length ≤ web.wout.length + buffer.length := by
  have cleans : Cleans web { web with wout := web.wout ++ buffer } := ⟨rfl, rfl, rfl, fun _ _ _ => rfl⟩
  have cleared : Cleans web (httpControl false .cleansed { web with wout := web.wout ++ buffer }) := cleans.control (.inl rfl)
  obtain ⟨cleaned, length⟩ := cleanPrompts_spec (httpControl false .cleansed { web with wout := web.wout ++ buffer })
  constructor
  · exact {
      alloc := cleaned.alloc.trans cleared.alloc
      phw := cleaned.phw.trans cleared.phw
      sent := cleaned.sent.trans cleared.sent
      flags := fun flag cleansed waitonshell =>
        (cleaned.flags flag cleansed waitonshell).trans (cleared.flags flag cleansed waitonshell) }
  · rw [control_wout, List.length_append] at length
    exact length

theorem whenChunked_pos (chunked : web.flags .chunked) (bytes : List Byte) : whenChunked web bytes = bytes := if_pos chunked

theorem plain_short (short : buffer.length ≤ HTTP_WBLEN) : buffer.length < 2 ^ 32 ∧ Plain buffer := by
  simp only [HTTP_WBLEN] at short
  exact ⟨by omega, .inl (by omega)⟩

def written (buffer : List Byte) (web : Http) : Http :=
  let web :=
    if web.wout ≠ [] ∧ (web.flags .flushwout ∨ HTTP_WBLEN < (web.wout.length + buffer.length) % 2 ^ 32) then
      writeIntermediate web
    else web
  let web := if HTTP_WBLEN < buffer.length then writeImmediately buffer web else web
  if 0 < buffer.length ∧ buffer.length ≤ HTTP_WBLEN then place buffer web else web

theorem httpWrite_written (chunking : Chunking web) (output : web.flags .awaitingrqst = false) :
    (httpWrite buffer web).2 =
      if ¬ (written buffer web).flags .waitonshell ∧ (written buffer web).flags .endreadoutput then
        endPage (written buffer web)
      else written buffer web := by
  unfold httpWrite written
  simp only [chunking.phw, output, chunking.output, not_true_eq_false, if_false, Bool.false_eq_true]
  split <;> split <;> split <;> rfl

theorem flushed_spec (chunking : Chunking web) (buffer : List Byte) :
    let web' := if web.wout ≠ [] ∧ (web.flags .flushwout ∨ HTTP_WBLEN < (web.wout.length + buffer.length) % 2 ^ 32) then
      writeIntermediate web else web
    Chunking web' ∧ web'.flags = web.flags ∧ (buffer.length ≤ HTTP_WBLEN → web'.wout.length + buffer.length ≤ HTTP_WBLEN) ∧
      (Settled web.sent → Settled web'.sent) := by
  intro web'
  have fits := chunking.fits
  simp only [HTTP_WBLEN] at fits ⊢
  by_cases full : web.wout ≠ [] ∧ (web.flags .flushwout ∨ 1024 < (web.wout.length + buffer.length) % 2 ^ 32)
  · have eq : web' = writeIntermediate web := if_pos full
    have sent : (writeIntermediate web).sent = web.sent ++ (chunkInfo web.wout.length ++ (web.wout ++ crlf)) := by
      unfold writeIntermediate
      rw [whenChunked_pos chunking.chunked, whenChunked_pos chunking.chunked]
      rfl
    rw [eq]
    refine ⟨⟨chunking.alloc, chunking.phw, chunking.chunked, chunking.output, Nat.zero_le _⟩, rfl, fun short => ?_, fun settled => ?_⟩
    · exact (Nat.zero_add _).symm ▸ short
    · rw [sent]
      have bounds := plain_short chunking.fits
      exact settled.append (settled_chunk full.1 bounds.1 bounds.2)
  · have eq : web' = web := if_neg full
    rw [eq]
    refine ⟨chunking, rfl, fun short => ?_, id⟩
    by_cases empty : web.wout = []
    · rw [empty]
      exact (Nat.zero_add _).symm ▸ short
    · have small : ¬ 1024 < (web.wout.length + buffer.length) % 2 ^ 32 := fun large => full ⟨empty, .inr large⟩
      omega

theorem written_spec (chunking : Chunking web) (bound : buffer.length < 2 ^ 32) :
    Chunking (written buffer web) ∧ (written buffer web).flags .awaitingrqst = web.flags .awaitingrqst ∧
      (Plain buffer → Settled web.sent → Settled (written buffer web).sent) := by
  obtain ⟨chunking', flags, fits, settled⟩ := flushed_spec chunking buffer
  unfold written
  generalize (if web.wout ≠ [] ∧ (web.flags .flushwout ∨ HTTP_WBLEN < (web.wout.length + buffer.length) % 2 ^ 32) then
    writeIntermediate web else web) = web' at *
  by_cases long : HTTP_WBLEN < buffer.length
  · have short : ¬ (0 < buffer.length ∧ buffer.length ≤ HTTP_WBLEN) := by omega
    simp only [long, short, if_true, if_false]
    refine ⟨⟨chunking'.alloc, chunking'.phw, chunking'.chunked, chunking'.output, chunking'.fits⟩, congrFun flags _, ?_⟩
    intro plain before
    have sent : (writeImmediately buffer web').sent = web'.sent ++ (chunkInfo buffer.length ++ (buffer ++ crlf)) := by
      unfold writeImmediately
      rw [whenChunked_pos chunking'.chunked, whenChunked_pos chunking'.chunked]
      rfl
    have some_data : buffer ≠ [] := by
      rintro rfl
      exact absurd long (Nat.not_lt_zero _)
    rw [sent]
    exact (settled before).append (settled_chunk some_data bound plain)
  · simp only [long, if_false]
    split
    · obtain ⟨cleans, length⟩ := place_spec buffer web'
      refine ⟨⟨?_, ?_, ?_, ?_, ?_⟩, ?_, fun _ before => ?_⟩
      · rw [cleans.alloc, chunking'.alloc]
      · rw [cleans.phw, chunking'.phw]
      · rw [cleans.flags .chunked (by decide) (by decide), chunking'.chunked]
      · rw [cleans.flags .clearwout (by decide) (by decide), chunking'.output]
      · exact Nat.le_trans length (fits (by omega))
      · rw [cleans.flags .awaitingrqst (by decide) (by decide), flags]
      · rw [cleans.sent]
        exact settled before
    · exact ⟨chunking', congrFun flags _, fun _ => settled⟩

theorem endPage_spec (chunking : Chunking web) :
    Chunking (endPage web) ∧ (endPage web).flags .awaitingrqst = true ∧
      ∃ front, (endPage web).sent = front ++ endOfPage web ∧ (Settled web.sent → Settled front) := by
  have last : ∀ {web' : Http}, Chunking web' →
      Chunking (httpControl true .conclose (httpControl true .awaitingrqst { send (endOfPage web') web' with wout := [] })) ∧
      (httpControl true .conclose (httpControl true .awaitingrqst { send (endOfPage web') web' with wout := [] })).flags
        .awaitingrqst = true ∧
      (httpControl true .conclose (httpControl true .awaitingrqst { send (endOfPage web') web' with wout := [] })).sent =
        web'.sent ++ endOfPage web := by
    intro web' chunking'
    have emptied : Chunking { send (endOfPage web') web' with wout := [] } :=
      ⟨chunking'.alloc, chunking'.phw, chunking'.chunked, chunking'.output, Nat.zero_le _⟩
    refine ⟨(emptied.control (by decide) (by decide)).control (by decide) (by decide), ?_, ?_⟩
    · rw [control_other (by decide), control_same emptied.alloc]
    · rw [control_sent, control_sent, endOfPage_chunked chunking.chunked, ← endOfPage_chunked chunking'.chunked]
      rfl
  unfold endPage
  by_cases some_data : web.wout ≠ []
  · simp only [some_data, ne_eq, not_false_eq_true, if_true, whenChunked_pos chunking.chunked]
    have flushed : Chunking (send (chunkInfo web.wout.length ++ (web.wout ++ crlf)) { web with wout := [] }) :=
      ⟨chunking.alloc, chunking.phw, chunking.chunked, chunking.output, Nat.zero_le _⟩
    obtain ⟨chunking', ended, sent⟩ := last flushed
    refine ⟨⟨chunking'.alloc, chunking'.phw, chunking'.chunked, chunking'.output, chunking'.fits⟩, ended, _, sent, ?_⟩
    intro settled
    have bounds := plain_short chunking.fits
    exact settled.append (settled_chunk some_data bounds.1 bounds.2)
  · simp only [some_data, if_false]
    obtain ⟨chunking', ended, sent⟩ := last chunking
    exact ⟨⟨chunking'.alloc, chunking'.phw, chunking'.chunked, chunking'.output, chunking'.fits⟩, ended, _, sent, id⟩

theorem httpWrite_spec (chunking : Chunking web) (output : web.flags .awaitingrqst = false) (bound : buffer.length < 2 ^ 32) :
    Chunking (httpWrite buffer web).2 ∧
      (((httpWrite buffer web).2.flags .awaitingrqst = true ∧ ∃ front, (httpWrite buffer web).2.sent = front ++ endOfPage web ∧
        (Plain buffer → Settled web.sent → Settled front)) ∨
      ((httpWrite buffer web).2.flags .awaitingrqst = false ∧
        (Plain buffer → Settled web.sent → Settled (httpWrite buffer web).2.sent))) := by
  obtain ⟨chunking', awaiting, settled⟩ := written_spec chunking bound
  rw [httpWrite_written chunking output]
  split
  · obtain ⟨chunking'', ended, front, sent, settled'⟩ := endPage_spec chunking'
    refine ⟨chunking'', .inl ⟨ended, front, ?_, fun plain before => settled' (settled plain before)⟩⟩
    rw [sent, endOfPage_chunked chunking'.chunked, endOfPage_chunked chunking.chunked]
  · exact ⟨chunking', .inr ⟨awaiting.trans output, settled⟩⟩

end

inductive Event
  | write (buffer : List Byte)
  | control (set : Bool) (flag : Flag)

def step (web : Http) : Event → Http
  | .write buffer => (httpWrite buffer web).2
  | .control set flag => httpControl set flag web

def run (web : Http) (events : List Event) : Http := events.foldl step web

def Event.OfPage : Event → Prop
  | .write buffer => buffer.length < 2 ^ 32
  | .control _ flag => flag ≠ .chunked ∧ flag ≠ .clearwout ∧ flag ≠ .awaitingrqst

def Event.Plain : Event → Prop
  | .write buffer => Http.Plain buffer
  | .control _ _ => True

def Sending (plain : Prop) (web : Http) : Prop :=
  (web.flags .awaitingrqst = false ∧ (plain → Settled web.sent)) ∨
    (web.flags .awaitingrqst = true ∧ ∃ front web', web.sent = front ++ endOfPage web' ∧ web'.flags .chunked ∧
      (plain → Settled front))

theorem step_sending {web : Http} {event : Event} {plain : Prop} (chunking : Chunking web) (sending : Sending plain web)
    (page : event.OfPage) (plains : plain → event.Plain) : Chunking (step web event) ∧ Sending plain (step web event) := by
  cases event with
  | write buffer =>
      rcases sending with ⟨output, settled⟩ | ended
      · obtain ⟨chunking', ⟨ended, front, sent, settled'⟩ | ⟨output', settled'⟩⟩ := httpWrite_spec chunking output page
        · exact ⟨chunking', .inr ⟨ended, front, web, sent, chunking.chunked, fun all => settled' (plains all) (settled all)⟩⟩
        · exact ⟨chunking', .inl ⟨output', fun all => settled' (plains all) (settled all)⟩⟩
      · have same : (httpWrite buffer web).2 = web := by
          unfold httpWrite
          simp only [chunking.phw, ended.1, not_true_eq_false, if_false, if_true]
        show Chunking (httpWrite buffer web).2 ∧ Sending plain (httpWrite buffer web).2
        rw [same]
        exact ⟨chunking, .inr ended⟩
  | control set flag =>
      refine ⟨chunking.control page.1 page.2.1, ?_⟩
      show Sending plain (httpControl set flag web)
      unfold Sending
      rw [control_sent, control_other page.2.2.symm]
      exact sending

theorem run_sending {web : Http} {events : List Event} {plain : Prop} (chunking : Chunking web) (sending : Sending plain web)
    (page : ∀ event ∈ events, event.OfPage) (plains : ∀ event ∈ events, plain → event.Plain) :
    Chunking (run web events) ∧ Sending plain (run web events) := by
  induction events generalizing web with
  | nil => exact ⟨chunking, sending⟩
  | cons event events ih =>
      obtain ⟨chunking', sending'⟩ := step_sending chunking sending (page event List.mem_cons_self) (plains event List.mem_cons_self)
      exact ih chunking' sending' (fun event member => page event (List.mem_cons_of_mem _ member))
        fun event member => plains event (List.mem_cons_of_mem _ member)

/-- Nothing that is sent as a page in chunks is read as a text and the page footer, and it is not well formed at
all unless a write of 65536 bytes or more starts like the end of a size. -/
theorem httpWrite_malformed {web : Http} {events : List Event} (chunking : Chunking web)
    (output : web.flags .awaitingrqst = false) (nothing : web.sent = []) (page : ∀ event ∈ events, event.OfPage)
    (ended : (run web events).flags .awaitingrqst = true) (fuel : Nat) :
    (∀ text, decode fuel (run web events).sent ≠ some (text ++ footer)) ∧
      ((∀ event ∈ events, event.Plain) → decode fuel (run web events).sent = none) := by
  have synced : Settled web.sent := nothing ▸ .inr synced_nil
  have started : Sending (∀ event ∈ events, event.Plain) web := .inl ⟨output, fun _ => synced⟩
  obtain ⟨-, sending⟩ := run_sending chunking started page fun event member all => all event member
  rcases sending with ⟨output', -⟩ | ⟨-, front, web', sent, chunked, settled⟩
  · rw [output'] at ended
    exact nomatch ended
  · rw [sent]
    refine ⟨fun text => endOfPage_unread chunked front fuel text, fun plain => ?_⟩
    have dead := (settled plain).dead (dead_endOfPage chunked) fuel []
    rwa [List.append_nil] at dead

def opened : Http := ⟨true, true, [], fun flag => decide (flag = .chunked), 0, []⟩

/-- Two characters, and the end of the page. -/
def page : List Event := [.write [104, 105], .control true .endreadoutput, .write []]

theorem httpWrite_malformed_page :
    (∀ text, decode 100 (run opened page).sent ≠ some (text ++ footer)) ∧ decode 100 (run opened page).sent = none := by
  have chunking : Chunking opened := ⟨rfl, rfl, rfl, rfl, Nat.zero_le _⟩
  have ofPage : ∀ event ∈ page, event.OfPage := by simp [page, Event.OfPage]
  have plain : ∀ event ∈ page, event.Plain := by simp [page, Event.Plain, Plain]
  have ended : (run opened page).flags .awaitingrqst = true := by decide +kernel
  have result := httpWrite_malformed chunking rfl rfl ofPage ended 100
  exact ⟨result.1, result.2 plain⟩

theorem page_malformed :
    Chunking opened ∧ (run opened page).flags .awaitingrqst = true ∧
      (run opened page).sent = [50, 13, 10, 104, 105, 13, 10, 51, 54, 13, 10] ++ footer ++ [48, 13, 10, 13, 10] ∧
      footer.length = 0x36 ∧ decode (run opened page).sent.length (run opened page).sent = none := by
  refine ⟨⟨rfl, rfl, rfl, rfl, Nat.zero_le _⟩, ?_, ?_, rfl, ?_⟩
  · decide +kernel
  · decide +kernel
  · decide +kernel

end Xinu.Http
