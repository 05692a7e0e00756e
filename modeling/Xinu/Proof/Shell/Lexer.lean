import Xinu.System.Shell
import Mathlib.Data.List.TakeWhile

namespace Xinu.Lexer
open Lib (Byte)

variable {line line' : Nat → Byte} {linelen fuel i n : Nat} {s : Lexer} {l r w rest blanks body : List Byte}
  {ts : List (List Byte)} {goes : Byte → Prop} [DecidablePred goes] {q : Byte}

def At (line : Nat → Byte) (linelen : Nat) : Nat → List Byte → Prop
  | i, [] => i = linelen
  | i, c :: r => line i = c ∧ At line linelen (i + 1) r

theorem At.length (here : At line linelen i r) : i + r.length = linelen := by
  induction r generalizing i with
  | nil => exact here
  | cons c r ih =>
      have := ih here.2
      rw [List.length_cons]
      omega

theorem At.append (here : At line linelen i (w ++ r)) : At line linelen (i + w.length) r := by
  induction w generalizing i with
  | nil => exact here
  | cons c w ih =>
      have := ih here.2
      rwa [List.length_cons, Nat.add_comm w.length, ← Nat.add_assoc]

theorem skipLoop_eq (here : At line linelen i (blanks ++ rest)) (all : ∀ c ∈ blanks, isWhitespace c)
    (stop : ∀ c, rest.head? = some c → ¬ isWhitespace c) (enough : blanks.length ≤ fuel) :
    skipLoop line linelen fuel i = i + blanks.length := by
  induction fuel generalizing i blanks with
  | zero =>
      obtain rfl := List.length_eq_zero_iff.mp (Nat.le_zero.mp enough)
      rfl
  | succ fuel ih =>
      rw [skipLoop]
      cases blanks with
      | nil =>
          have bound := here.length
          rw [if_neg]
          · rfl
          · rintro ⟨blank, inside⟩
            cases rest with
            | nil =>
                simp only [List.append_nil, List.length_nil] at bound
                omega
            | cons c rest =>
                rw [here.1] at blank
                exact stop c rfl blank
      | cons c blanks =>
          have bound := here.length
          simp only [List.cons_append, List.length_cons] at bound
          rw [if_pos ⟨by rw [here.1]; exact all c (.head _), by omega⟩, ih here.2 (fun d member => all d (.tail _ member))
            (Nat.le_of_succ_le_succ enough), List.length_cons]
          omega

theorem copyLoop_eq (w rest : List Byte) (here : At line linelen s.i (w ++ rest)) (all : ∀ c ∈ w, goes c)
    (stop : ∀ c, rest.head? = some c → ¬ goes c) (enough : w.length ≤ fuel) :
    copyLoop goes line linelen fuel s = { s with i := s.i + w.length, tokbuf := s.tokbuf ++ w } := by
  induction fuel generalizing s w with
  | zero =>
      obtain rfl := List.length_eq_zero_iff.mp (Nat.le_zero.mp enough)
      rw [copyLoop, List.append_nil]
      rfl
  | succ fuel ih =>
      rw [copyLoop]
      cases w with
      | nil =>
          have bound := here.length
          rw [if_neg]
          · rw [List.append_nil]
            rfl
          · rintro ⟨goes, inside⟩
            cases rest with
            | nil =>
                simp only [List.append_nil, List.length_nil] at bound
                omega
            | cons c rest =>
                rw [here.1] at goes
                exact stop c rfl goes
      | cons c w =>
          have bound := here.length
          simp only [List.cons_append, List.length_cons] at bound
          rw [if_pos ⟨by rw [here.1]; exact all c (.head _), by omega⟩, @ih (s.copy line) w here.2
            (fun d member => all d (.tail _ member)) (Nat.le_of_succ_le_succ enough)]
          simp only [copy, here.1, List.length_cons, List.append_assoc, List.singleton_append, Nat.add_assoc, Nat.add_comm 1]

inductive Ending
  | stop
  | syserr (copied : List Byte)
  | unclosed (q : Byte) (body : List Byte)

def Blank (l : List Byte) : Prop := ∀ c ∈ l, isWhitespace c

def Inside (q : Byte) (body : List Byte) : Prop := ∀ c ∈ body, q ≠ c ∧ ¬ isEndOfLine c

inductive Lexed : Nat → List Byte → List (List Byte) → Ending → Prop
  | full (r : List Byte) : Lexed 0 r [] .stop
  | ended {m : Nat} {blanks rest : List Byte} : Blank blanks → (∀ c, rest.head? = some c → isEndOfLine c) →
      Lexed (m + 1) (blanks ++ rest) [] .stop
  | cut {m : Nat} {blanks w : List Byte} {c : Byte} : Blank blanks → (∀ x ∈ c :: w, isPlain x) →
      Lexed (m + 1) (blanks ++ c :: w) [] (.syserr (c :: w))
  | broken {m : Nat} {blanks body rest : List Byte} {q e : Byte} : Blank blanks → isQuote q → Inside q body → isEndOfLine e → q ≠ e →
      Lexed (m + 1) (blanks ++ q :: (body ++ e :: rest)) [] (.syserr (q :: body))
  | unclosed {m : Nat} {blanks body : List Byte} {q : Byte} : Blank blanks → isQuote q → Inside q body →
      Lexed (m + 1) (blanks ++ q :: body) [] (.unclosed q body)
  | quoted {m : Nat} {blanks body rest : List Byte} {q : Byte} {ts : List (List Byte)} {e : Ending} : Blank blanks → isQuote q →
      Inside q body → Lexed m rest ts e → Lexed (m + 1) (blanks ++ q :: (body ++ q :: rest)) ((q :: body ++ [q]) :: ts) e
  | special {m : Nat} {blanks rest : List Byte} {c : Byte} {ts : List (List Byte)} {e : Ending} : Blank blanks → isOtherSpecial c →
      Lexed m rest ts e → Lexed (m + 1) (blanks ++ c :: rest) ([c] :: ts) e
  | word {m : Nat} {blanks w rest : List Byte} {c d : Byte} {ts : List (List Byte)} {e : Ending} : Blank blanks →
      (∀ x ∈ c :: w, isPlain x) → ¬ isPlain d → Lexed m (d :: rest) ts e →
      Lexed (m + 1) (blanks ++ c :: (w ++ d :: rest)) ((c :: w) :: ts) e

theorem dropWhile_head {p : Byte → Prop} [DecidablePred p] (l : List Byte) :
    ∀ c, (l.dropWhile fun c => p c).head? = some c → ¬ p c := by
  intro c first
  have := List.head?_dropWhile_not (fun c => decide (p c)) l
  rw [first] at this
  simpa using this

theorem takeWhile_all {p : Byte → Prop} [DecidablePred p] (l : List Byte) : ∀ c ∈ l.takeWhile fun c => p c, p c := by
  intro c member
  simpa using List.mem_takeWhile_imp member

theorem exists_lexed (n : Nat) (r : List Byte) : ∃ ts e, Lexed n r ts e := by
  induction n generalizing r with
  | zero => exact ⟨[], .stop, .full r⟩
  | succ n ih =>
      have split := List.takeWhile_append_dropWhile (p := fun c => decide (isWhitespace c)) (l := r)
      have blank : Blank (r.takeWhile fun c => isWhitespace c) := takeWhile_all r
      have start := dropWhile_head (p := isWhitespace) r
      generalize r.takeWhile (fun c => decide (isWhitespace c)) = blanks at split blank
      generalize r.dropWhile (fun c => decide (isWhitespace c)) = tail at split start
      subst split
      cases tail with
      | nil => exact ⟨[], .stop, .ended blank nofun⟩
      | cons c tail =>
          have notBlank := start c rfl
          by_cases eol : isEndOfLine c
          · exact ⟨[], .stop, .ended blank fun d first => Option.some.inj first ▸ eol⟩
          by_cases quote : isQuote c
          · have split := List.takeWhile_append_dropWhile (p := fun d => decide (c ≠ d ∧ ¬ isEndOfLine d)) (l := tail)
            have inside : Inside c (tail.takeWhile fun d => decide (c ≠ d ∧ ¬ isEndOfLine d)) := takeWhile_all tail
            have stop := dropWhile_head (p := fun d => c ≠ d ∧ ¬ isEndOfLine d) tail
            generalize tail.takeWhile (fun d => decide (c ≠ d ∧ ¬ isEndOfLine d)) = body at split inside
            generalize tail.dropWhile (fun d => decide (c ≠ d ∧ ¬ isEndOfLine d)) = rest at split stop
            subst split
            cases rest with
            | nil =>
                rw [List.append_nil]
                exact ⟨[], .unclosed c body, .unclosed blank quote inside⟩
            | cons d rest =>
                have last := stop d rfl
                by_cases same : c = d
                · subst d
                  obtain ⟨ts, e, lexed⟩ := ih rest
                  exact ⟨_, e, .quoted blank quote inside lexed⟩
                · have eol : isEndOfLine d := by
                    by_contra more
                    exact last ⟨same, more⟩
                  exact ⟨[], _, .broken blank quote inside eol same⟩
          by_cases special : isOtherSpecial c
          · obtain ⟨ts, e, lexed⟩ := ih tail
            exact ⟨_, e, .special blank special lexed⟩
          have plain : isPlain c := ⟨eol, quote, special, notBlank⟩
          have split := List.takeWhile_append_dropWhile (p := fun d => decide (isPlain d)) (l := tail)
          have all : ∀ x ∈ tail.takeWhile fun d => decide (isPlain d), isPlain x := takeWhile_all tail
          have stop := dropWhile_head (p := isPlain) tail
          generalize tail.takeWhile (fun d => decide (isPlain d)) = w at split all
          generalize tail.dropWhile (fun d => decide (isPlain d)) = rest at split stop
          subst split
          cases rest with
          | nil =>
              rw [List.append_nil]
              exact ⟨[], _, .cut blank (List.forall_mem_cons.mpr ⟨plain, all⟩)⟩
          | cons d rest =>
              obtain ⟨ts, e, lexed⟩ := ih (d :: rest)
              exact ⟨_, e, .word blank (List.forall_mem_cons.mpr ⟨plain, all⟩) (stop d rfl) lexed⟩

def push (s : Lexer) (t : List Byte) (i : Nat) : Lexer := ⟨i, s.ntok + 1, s.tokbuf ++ t ++ [0], s.tok ++ [s.tokbuf.length]⟩

def emit (s : Lexer) : List (List Byte) → Lexer
  | [] => s
  | t :: ts => emit (s.push t 0) ts

/-- What a scan that ends so makes of the tokens before the end. -/
def outcome (line : Nat → Byte) (linelen : Nat) (s : Lexer) : Ending → Option (Int × List Byte × List Nat)
  | .stop => s.result s.ntok
  | .syserr copied => some (SYSERR, s.tokbuf ++ copied, s.tok ++ [s.tokbuf.length])
  | .unclosed q body =>
      if q = line linelen then (s.push (q :: body ++ [q]) 0).result (s.ntok + 1)
      else some (SYSERR, s.tokbuf ++ q :: body, s.tok ++ [s.tokbuf.length])

theorem outcome_push (t : List Byte) (i : Nat) (e : Ending) :
    outcome line linelen (emit (s.push t i) ts) e = outcome line linelen (emit (s.push t 0) ts) e := by
  cases ts with
  | nil => cases e <;> rfl
  | cons t' ts => rfl

theorem quote_notBlank (quote : isQuote q) : ¬ isWhitespace q ∧ ¬ isEndOfLine q ∧ ¬ isOtherSpecial q := by
  revert quote
  rw [isQuote, isWhitespace, isEndOfLine, isOtherSpecial]
  rintro (rfl | rfl) <;> decide

theorem special_notBlank {c : Byte} (special : isOtherSpecial c) : ¬ isWhitespace c ∧ ¬ isEndOfLine c ∧ ¬ isQuote c := by
  revert special
  rw [isQuote, isWhitespace, isEndOfLine, isOtherSpecial]
  rintro (rfl | rfl | rfl) <;> decide

theorem loop_start (fuel : Nat) {c : Byte} (here : At line linelen s.i (blanks ++ c :: rest)) (blank : Blank blanks)
    (notBlank : ¬ isWhitespace c) (notEnd : ¬ isEndOfLine c) (more : s.ntok < SHELL_MAXTOK) :
    ∃ i, At line linelen i (c :: rest) ∧ loop line linelen (fuel + 1) s =
      (let s : Lexer := { s with i := i, tok := s.tok ++ [s.tokbuf.length] }
       if isQuote c then
         let s := copyLoop (fun d => c ≠ d ∧ ¬ isEndOfLine d) line linelen linelen (s.copy line)
         if c = line s.i then loop line linelen fuel (s.copy line).finishToken else s.result SYSERR
       else if isOtherSpecial c then loop line linelen fuel (s.copy line).finishToken
       else
         let s := copyLoop isPlain line linelen linelen (s.copy line)
         if s.i ≥ linelen then s.result SYSERR else loop line linelen fuel s.finishToken) := by
  have bound := here.length
  have there := here.append
  rw [List.length_append, List.length_cons] at bound
  have skipped : skipLoop line linelen linelen s.i = s.i + blanks.length :=
    skipLoop_eq here blank (fun d first => Option.some.inj first ▸ notBlank) (by omega)
  have own : line (s.i + blanks.length) = c := there.1
  refine ⟨s.i + blanks.length, there, ?_⟩
  have inside : ¬ (isEndOfLine c ∨ s.i + blanks.length ≥ linelen) := by
    rintro (eol | behind)
    · exact notEnd eol
    · omega
  have back : s.i + blanks.length + 1 - 1 = s.i + blanks.length := rfl
  rw [loop, if_neg (not_not.mpr ⟨by omega, more⟩)]
  simp only [skipped, own, if_neg inside, startToken, copy, back]

theorem loop_quoted (fuel : Nat) (here : At line linelen s.i (blanks ++ q :: (body ++ q :: rest))) (blank : Blank blanks) (quote : isQuote q)
    (inside : Inside q body) (more : s.ntok < SHELL_MAXTOK) :
    ∃ i, At line linelen i rest ∧ loop line linelen (fuel + 1) s = loop line linelen fuel (s.push (q :: body ++ [q]) i) := by
  obtain ⟨notBlank, notEnd, -⟩ := quote_notBlank quote
  obtain ⟨i, there, looped⟩ := loop_start fuel here blank notBlank notEnd more
  have bound := there.length
  rw [List.length_cons, List.length_append] at bound
  have close := there.2.append
  refine ⟨i + 1 + body.length + 1, close.2, looped.trans ?_⟩
  simp only [if_pos quote]
  rw [copyLoop_eq body (q :: rest) there.2 inside (fun c first => Option.some.inj first ▸ fun both => both.1 rfl) (by omega)]
  simp only [copy, finishToken, push, there.1, close.1, if_true, List.append_assoc, List.cons_append, List.nil_append]

theorem loop_special (fuel : Nat) {c : Byte} (here : At line linelen s.i (blanks ++ c :: rest)) (blank : Blank blanks)
    (special : isOtherSpecial c) (more : s.ntok < SHELL_MAXTOK) :
    ∃ i, At line linelen i rest ∧ loop line linelen (fuel + 1) s = loop line linelen fuel (s.push [c] i) := by
  obtain ⟨notBlank, notEnd, notQuote⟩ := special_notBlank special
  obtain ⟨i, there, looped⟩ := loop_start fuel here blank notBlank notEnd more
  refine ⟨i + 1, there.2, looped.trans ?_⟩
  simp only [if_neg notQuote, if_pos special, copy, finishToken, push, there.1]

theorem loop_word (fuel : Nat) {c d : Byte} (here : At line linelen s.i (blanks ++ c :: (w ++ d :: rest))) (blank : Blank blanks)
    (plain : ∀ x ∈ c :: w, isPlain x) (stop : ¬ isPlain d) (more : s.ntok < SHELL_MAXTOK) :
    ∃ i, At line linelen i (d :: rest) ∧ loop line linelen (fuel + 1) s = loop line linelen fuel (s.push (c :: w) i) := by
  obtain ⟨notEnd, notQuote, notSpecial, notBlank⟩ := plain c (.head _)
  obtain ⟨i, there, looped⟩ := loop_start fuel here blank notBlank notEnd more
  have bound := there.length
  rw [List.length_cons, List.length_append, List.length_cons] at bound
  have close := there.2.append
  refine ⟨i + 1 + w.length, close, looped.trans ?_⟩
  simp only [if_neg notQuote, if_neg notSpecial]
  rw [copyLoop_eq w (d :: rest) there.2 (fun x member => plain x (.tail _ member))
    (fun x first => Option.some.inj first ▸ stop) (by omega)]
  have short : ¬ i + 1 + w.length ≥ linelen := by omega
  simp only [copy, finishToken, push, there.1, if_neg short, List.append_assoc, List.cons_append, List.nil_append]

theorem loop_eq {e : Ending} (lexed : Lexed n r ts e) (here : At line linelen s.i r) (count : s.ntok + n = SHELL_MAXTOK)
    (enough : r.length < fuel) : loop line linelen fuel s = outcome line linelen (emit s ts) e := by
  induction lexed generalizing s fuel with
  | full r =>
      obtain ⟨fuel, rfl⟩ : ∃ k, fuel = k + 1 := ⟨fuel - 1, by omega⟩
      have last : ¬ s.ntok < SHELL_MAXTOK := by omega
      rw [loop, if_pos fun both => last both.2]
      rfl
  | ended blank eol =>
      rename_i m blanks rest
      obtain ⟨fuel, rfl⟩ : ∃ k, fuel = k + 1 := ⟨fuel - 1, by omega⟩
      have bound := here.length
      rw [List.length_append] at bound
      have there := here.append
      have skipped : skipLoop line linelen linelen s.i = s.i + blanks.length := by
        refine skipLoop_eq here blank (fun c first blank => ?_) (by omega)
        have last := eol c first
        rw [isEndOfLine] at last
        rw [isWhitespace] at blank
        rcases blank with rfl | rfl <;> revert last <;> decide
      rw [loop]
      split
      · rfl
      · have ends : isEndOfLine (line (s.i + blanks.length)) ∨ s.i + blanks.length ≥ linelen := by
          cases rest with
          | nil =>
              rw [List.length_nil] at bound
              exact .inr (by omega)
          | cons c rest =>
              rw [there.1]
              exact .inl (eol c rfl)
        simp only [skipped, if_pos ends]
        rfl
  | cut blank plain =>
      rename_i m blanks w c
      obtain ⟨fuel, rfl⟩ : ∃ k, fuel = k + 1 := ⟨fuel - 1, by omega⟩
      obtain ⟨notEnd, notQuote, notSpecial, notBlank⟩ := plain c (.head _)
      obtain ⟨i, there, looped⟩ := loop_start fuel here blank notBlank notEnd (by omega)
      have bound := there.length
      rw [List.length_cons] at bound
      rw [looped]
      simp only [if_neg notQuote, if_neg notSpecial]
      rw [copyLoop_eq w [] (by rw [List.append_nil]; exact there.2) (fun x member => plain x (.tail _ member)) nofun
        (by omega)]
      have ends : i + 1 + w.length ≥ linelen := by omega
      simp only [copy, there.1, if_pos ends, result, outcome, emit, List.append_assoc, List.cons_append, List.nil_append]
  | broken blank quote inside eol other =>
      rename_i m blanks body rest q e
      obtain ⟨fuel, rfl⟩ : ∃ k, fuel = k + 1 := ⟨fuel - 1, by omega⟩
      obtain ⟨notBlank, notEnd, -⟩ := quote_notBlank quote
      obtain ⟨i, there, looped⟩ := loop_start fuel here blank notBlank notEnd (by omega)
      have bound := there.length
      rw [List.length_cons, List.length_append] at bound
      have close := there.2.append
      rw [looped]
      simp only [if_pos quote]
      rw [copyLoop_eq body (e :: rest) there.2 inside (fun c first => Option.some.inj first ▸ fun both => both.2 eol) (by omega)]
      simp only [copy, there.1, close.1, if_neg other, result, outcome, emit, List.append_assoc, List.cons_append, List.nil_append]
  | unclosed blank quote inside =>
      rename_i m blanks body q
      obtain ⟨fuel, rfl⟩ : ∃ k, fuel = k + 1 := ⟨fuel - 1, by omega⟩
      obtain ⟨notBlank, notEnd, -⟩ := quote_notBlank quote
      obtain ⟨i, there, looped⟩ := loop_start fuel here blank notBlank notEnd (by omega)
      have bound := there.length
      rw [List.length_cons] at bound
      have last : i + 1 + body.length = linelen := by omega
      rw [looped]
      simp only [if_pos quote]
      rw [copyLoop_eq body [] (by rw [List.append_nil]; exact there.2) inside nofun (by omega)]
      simp only [copy, there.1, last, outcome, emit]
      split
      · rename_i behind
        obtain ⟨fuel, rfl⟩ : ∃ k, fuel = k + 1 := by
          rw [List.length_append, List.length_cons] at enough
          exact ⟨fuel - 1, by omega⟩
        have past : ¬ (linelen + 1 < linelen ∧ s.ntok + 1 < SHELL_MAXTOK) := by omega
        rw [loop]
        simp only [finishToken, past, not_false_eq_true, if_true, ← behind, result, push, List.append_assoc, List.cons_append,
          List.nil_append]
        rfl
      · simp only [result, List.append_assoc, List.cons_append, List.nil_append]
  | quoted blank quote inside lexed ih =>
      obtain ⟨fuel, rfl⟩ : ∃ k, fuel = k + 1 := ⟨fuel - 1, by omega⟩
      simp only [List.length_append, List.length_cons] at enough
      obtain ⟨i, there, looped⟩ := loop_quoted fuel here blank quote inside (by omega)
      rw [looped, ih there (by simp only [push]; omega) (by omega), outcome_push]
      rfl
  | special blank special lexed ih =>
      obtain ⟨fuel, rfl⟩ : ∃ k, fuel = k + 1 := ⟨fuel - 1, by omega⟩
      simp only [List.length_append, List.length_cons] at enough
      obtain ⟨i, there, looped⟩ := loop_special fuel here blank special (by omega)
      rw [looped, ih there (by simp only [push]; omega) (by omega), outcome_push]
      rfl
  | word blank plain stop lexed ih =>
      obtain ⟨fuel, rfl⟩ : ∃ k, fuel = k + 1 := ⟨fuel - 1, by omega⟩
      simp only [List.length_append, List.length_cons] at enough
      obtain ⟨i, there, looped⟩ := loop_word fuel here blank plain stop (by omega)
      rw [looped, ih there (by simp only [push]; omega) (by simp only [List.length_cons]; omega), outcome_push]
      rfl

inductive Token : List Byte → List Byte → Prop
  | quoted {q : Byte} {body rest : List Byte} : isQuote q → Inside q body → Token (q :: body ++ [q]) rest
  | special {c : Byte} {rest : List Byte} : isOtherSpecial c → Token [c] rest
  | word {c : Byte} {w rest : List Byte} : (∀ x ∈ c :: w, isPlain x) → (∀ x, rest.head? = some x → ¬ isPlain x) →
      Token (c :: w) rest

inductive Munch : List Byte → List (List Byte) → List Byte → Prop
  | nil (r : List Byte) : Munch r [] r
  | cons {blanks t rest rest' : List Byte} {ts : List (List Byte)} : Blank blanks → Token t rest → Munch rest ts rest' →
      Munch (blanks ++ (t ++ rest)) (t :: ts) rest'

def Over (r : List Byte) : Prop := ∃ blanks rest, r = blanks ++ rest ∧ Blank blanks ∧ ∀ c, rest.head? = some c → isEndOfLine c

/-- The line ends in a quotation, before `SHELL_MAXTOK` tokens are found. -/
def OpenQuote (r : List Byte) : Prop :=
  ∃ ts blanks q body, Munch r ts (blanks ++ q :: body) ∧ ts.length < SHELL_MAXTOK ∧ Blank blanks ∧ isQuote q ∧ Inside q body

def lineOf (line : Nat → Byte) (linelen : Nat) : List Byte := (List.range' 0 linelen).map line

structure Stored (tokbuf : List Byte) (tok : List Nat) (ts : List (List Byte)) : Prop where
  count : tok.length = ts.length
  each : ∀ (k : Nat) (t : List Byte), ts[k]? = some t → ∃ a, tok[k]? = some a ∧ (tokbuf.drop a).take (t.length + 1) = t ++ [0]

/-- What `lexan` should do. -/
structure Lexes (line : Nat → Byte) (linelen : Nat) : Prop where
  own : ∀ line', (∀ i, i < linelen → line' i = line i) → lexan line' linelen = lexan line linelen
  result : ∃ value tokbuf tok, lexan line linelen = some (value, tokbuf, tok) ∧ tokbuf.length ≤ linelen + SHELL_MAXTOK ∧
    tok.length ≤ SHELL_MAXTOK ∧ (0 ≤ value → ∃ ts rest, Munch (lineOf line linelen) ts rest ∧ value = ts.length ∧
      ts.length ≤ SHELL_MAXTOK ∧ (ts.length < SHELL_MAXTOK → Over rest) ∧ Stored tokbuf tok ts)

theorem at_lineOf (line : Nat → Byte) (i k : Nat) : At line (i + k) i ((List.range' i k).map line) := by
  induction k generalizing i with
  | zero => rfl
  | succ k ih =>
      rw [List.range'_succ, List.map_cons]
      refine ⟨rfl, ?_⟩
      rw [← Nat.add_assoc, Nat.add_right_comm]
      exact ih (i + 1)

theorem at_line (line : Nat → Byte) (linelen : Nat) : At line linelen 0 (lineOf line linelen) := by
  have whole := at_lineOf line 0 linelen
  rwa [Nat.zero_add] at whole

theorem lineOf_congr (same : ∀ i, i < linelen → line' i = line i) : lineOf line' linelen = lineOf line linelen := by
  apply List.map_congr_left
  intro i member
  rw [List.mem_range'_1] at member
  exact same i (by omega)

theorem length_lineOf : (lineOf line linelen).length = linelen := by
  rw [lineOf, List.length_map, List.length_range']

theorem lexan_eq {e : Ending} (lexed : Lexed SHELL_MAXTOK (lineOf line linelen) ts e) :
    lexan line linelen = outcome line linelen (emit ⟨0, 0, [], []⟩ ts) e :=
  loop_eq lexed (at_line line linelen) (Nat.zero_add _) (by rw [length_lineOf]; exact Nat.lt_succ_self _)

def copied : Ending → List Byte
  | .stop => []
  | .syserr copied => copied
  | .unclosed q body => q :: body

theorem Lexed.size {e : Ending} (lexed : Lexed n r ts e) :
    (ts.flatMap (· ++ [0])).length + (copied e).length ≤ r.length + ts.length := by
  induction lexed with
  | full r => exact Nat.zero_le _
  | ended => exact Nat.zero_le _
  | cut | broken | unclosed =>
      simp only [List.flatMap_nil, copied, List.length_nil, List.length_append, List.length_cons]
      omega
  | quoted _ _ _ _ ih | special _ _ _ ih | word _ _ _ _ ih =>
      simp only [List.flatMap_cons, List.length_append, List.length_cons, List.length_nil] at ih ⊢
      omega

theorem Lexed.munch {e : Ending} (lexed : Lexed n r ts e) :
    ∃ rest, Munch r ts rest ∧ ts.length ≤ n ∧ (e = .stop → ts.length < n → Over rest) ∧ (e ≠ .stop → ts.length < n) ∧
      ∀ q body, e = .unclosed q body → ∃ blanks, rest = blanks ++ q :: body ∧ Blank blanks ∧ isQuote q ∧ Inside q body := by
  induction lexed with
  | full r => exact ⟨r, .nil r, Nat.le_refl _, fun _ less => absurd less (Nat.lt_irrefl _), fun other => absurd rfl other, nofun⟩
  | ended blank eol => exact ⟨_, .nil _, Nat.zero_le _, fun _ _ => ⟨_, _, rfl, blank, eol⟩, fun other => absurd rfl other, nofun⟩
  | cut => exact ⟨_, .nil _, Nat.zero_le _, nofun, fun _ => Nat.succ_pos _, nofun⟩
  | broken => exact ⟨_, .nil _, Nat.zero_le _, nofun, fun _ => Nat.succ_pos _, nofun⟩
  | unclosed blank quote inside =>
      refine ⟨_, .nil _, Nat.zero_le _, nofun, fun _ => Nat.succ_pos _, fun q body same => ?_⟩
      cases same
      exact ⟨_, rfl, blank, quote, inside⟩
  | @quoted _ blanks body rest q _ _ blank quote inside _ ih =>
      obtain ⟨rest', munch, bound, stop, more, open'⟩ := ih
      refine ⟨rest', ?_, Nat.succ_le_succ bound, fun same less => stop same (Nat.lt_of_succ_lt_succ less),
        fun other => Nat.succ_lt_succ (more other), open'⟩
      have token : Token (q :: body ++ [q]) rest := .quoted quote inside
      have joined := Munch.cons blank token munch
      rwa [List.append_assoc, List.singleton_append] at joined
  | special blank special _ ih =>
      obtain ⟨rest', munch, bound, stop, more, open'⟩ := ih
      exact ⟨rest', .cons blank (.special special) munch, Nat.succ_le_succ bound, fun same less => stop same (Nat.lt_of_succ_lt_succ less),
        fun other => Nat.succ_lt_succ (more other), open'⟩
  | @word _ blanks w rest c d _ _ blank plain stop' _ ih =>
      obtain ⟨rest', munch, bound, stop, more, open'⟩ := ih
      have token : Token (c :: w) (d :: rest) := .word plain fun x first => by
        cases first
        exact stop'
      exact ⟨rest', .cons blank token munch, Nat.succ_le_succ bound,
        fun same less => stop same (Nat.lt_of_succ_lt_succ less), fun other => Nat.succ_lt_succ (more other), open'⟩

theorem Token.nonempty {t : List Byte} (token : Token t rest) : t ≠ [] := by
  cases token <;> exact nofun

theorem Munch.of_nil (munch : Munch r ts rest) (empty : r = []) : rest = [] := by
  cases munch with
  | nil => exact empty
  | cons blank token munch =>
      obtain ⟨-, later⟩ := List.append_eq_nil_iff.mp empty
      exact absurd (List.append_eq_nil_iff.mp later).1 token.nonempty

theorem Munch.lexed {e : Ending} {ts' : List (List Byte)} (munch : Munch r ts rest) (more : rest ≠ []) (lexed : Lexed n rest ts' e) :
    Lexed (n + ts.length) r (ts ++ ts') e := by
  induction munch with
  | nil r => exact lexed
  | @cons blanks t rest rest' ts blank token munch ih =>
      have later := ih more lexed
      rw [List.length_cons, ← Nat.add_assoc]
      cases token with
      | quoted quote inside =>
          rw [List.append_assoc, List.singleton_append]
          exact .quoted blank quote inside later
      | special special => exact .special blank special later
      | word plain stop =>
          cases rest with
          | nil => exact absurd (munch.of_nil rfl) more
          | cons d rest => exact .word blank plain (stop d rfl) later

def offsets : Nat → List (List Byte) → List Nat
  | _, [] => []
  | a, t :: ts => a :: offsets (a + t.length + 1) ts

theorem length_offsets (a : Nat) (ts : List (List Byte)) : (offsets a ts).length = ts.length := by
  induction ts generalizing a with
  | nil => rfl
  | cons t ts ih => rw [offsets, List.length_cons, ih, List.length_cons]

theorem emit_eq (s : Lexer) (ts : List (List Byte)) :
    (emit s ts).ntok = s.ntok + ts.length ∧ (emit s ts).tokbuf = s.tokbuf ++ ts.flatMap (· ++ [0]) ∧
      (emit s ts).tok = s.tok ++ offsets s.tokbuf.length ts := by
  induction ts generalizing s with
  | nil => exact ⟨rfl, (List.append_nil _).symm, (List.append_nil _).symm⟩
  | cons t ts ih =>
      obtain ⟨count, buffer, places⟩ := ih (s.push t 0)
      rw [emit, count, buffer, places]
      refine ⟨?_, ?_, ?_⟩
      · simp only [push, List.length_cons]
        omega
      · simp only [push, List.flatMap_cons, List.append_assoc]
      · simp only [push, offsets, List.append_assoc, List.singleton_append, List.length_append, List.length_singleton, Nat.add_assoc]

theorem offsets_get (pre : List Byte) {k : Nat} {t : List Byte} (own : ts[k]? = some t) :
    ∃ a, (offsets pre.length ts)[k]? = some a ∧ ((pre ++ ts.flatMap (· ++ [0])).drop a).take (t.length + 1) = t ++ [0] := by
  induction ts generalizing pre k with
  | nil => exact nomatch own
  | cons t' ts ih =>
      cases k with
      | zero =>
          cases own
          refine ⟨pre.length, rfl, ?_⟩
          rw [List.drop_left, List.flatMap_cons]
          exact List.take_left' (by rw [List.length_append, List.length_singleton])
      | succ k =>
          obtain ⟨a, place, held⟩ := ih (pre ++ (t' ++ [0])) own
          refine ⟨a, ?_, ?_⟩
          · rw [offsets, List.getElem?_cons_succ, ← place, List.length_append, List.length_append, List.length_singleton,
              Nat.add_assoc]
          · rw [List.flatMap_cons, ← List.append_assoc]
            exact held

theorem stored (ts : List (List Byte)) : Stored (ts.flatMap (· ++ [0])) (offsets 0 ts) ts :=
  ⟨length_offsets 0 ts, fun _ _ own => offsets_get [] own⟩

theorem OpenQuote.depends (unclosed : OpenQuote (lineOf line linelen)) :
    ∃ (q : Byte) (value : Nat) (tokbuf : List Byte) (tok : List Nat),
      (∀ line', (∀ i, i < linelen → line' i = line i) → line' linelen = q →
        lexan line' linelen = some ((value : Int), tokbuf, tok)) ∧
      ∀ line', (∀ i, i < linelen → line' i = line i) → line' linelen ≠ q →
        ∃ tokbuf tok, lexan line' linelen = some (SYSERR, tokbuf, tok) := by
  obtain ⟨ts, blanks, q, body, munch, few, blank, quote, inside⟩ := unclosed
  obtain ⟨m, budget⟩ : ∃ m, SHELL_MAXTOK = m + 1 + ts.length := ⟨SHELL_MAXTOK - 1 - ts.length, by omega⟩
  have more : blanks ++ q :: body ≠ [] := by simp
  have lexed := munch.lexed more (Lexed.unclosed (m := m) blank quote inside)
  rw [← budget, List.append_nil] at lexed
  refine ⟨q, (emit ⟨0, 0, [], []⟩ ts).ntok + 1, ((emit ⟨0, 0, [], []⟩ ts).push (q :: body ++ [q]) 0).tokbuf,
    ((emit ⟨0, 0, [], []⟩ ts).push (q :: body ++ [q]) 0).tok, fun line' same behind => ?_, fun line' same behind => ?_⟩
  · rw [← lineOf_congr same] at lexed
    rw [lexan_eq lexed, outcome, if_pos behind.symm]
    rfl
  · rw [← lineOf_congr same] at lexed
    rw [lexan_eq lexed, outcome, if_neg (Ne.symm behind)]
    exact ⟨_, _, rfl⟩

theorem lexan_tokens (line : Nat → Byte) (linelen : Nat) : Lexes line linelen ↔ ¬ OpenQuote (lineOf line linelen) := by
  constructor
  · rintro ⟨own, -⟩ unclosed
    obtain ⟨q, value, tokbuf, tok, closed, broken⟩ := unclosed.depends
    have keeps (c : Byte) : ∀ i, i < linelen → Function.update line linelen c i = line i :=
      fun i inside => Function.update_of_ne (Nat.ne_of_lt inside) _ _
    have fst := closed _ (keeps q) (Function.update_self _ _ _)
    obtain ⟨tokbuf', tok', snd⟩ := broken _ (keeps (q + 1)) (by
      rw [Function.update_self]
      bv_omega)
    rw [own _ (keeps q)] at fst
    rw [own _ (keeps (q + 1)), fst] at snd
    have := (Prod.mk.inj (Option.some.inj snd)).1
    rw [SYSERR] at this
    omega
  · intro closed
    obtain ⟨ts, e, lexed⟩ := exists_lexed SHELL_MAXTOK (lineOf line linelen)
    obtain ⟨rest, munch, bound, stop, more, unclosed⟩ := lexed.munch
    obtain ⟨count, buffer, places⟩ := emit_eq ⟨0, 0, [], []⟩ ts
    have size := lexed.size
    rw [length_lineOf] at size
    rw [List.nil_append] at buffer places
    rw [Nat.zero_add] at count
    cases e with
    | stop =>
        refine ⟨fun line' same => ?_, _, _, _, lexan_eq lexed, ?_, ?_, fun _ => ?_⟩
        · have lexed' : Lexed SHELL_MAXTOK (lineOf line' linelen) ts .stop := by rw [lineOf_congr same]; exact lexed
          rw [lexan_eq lexed, lexan_eq lexed']
          rfl
        · rw [buffer]
          rw [copied, List.length_nil] at size
          omega
        · rw [places, length_offsets]
          exact bound
        · refine ⟨ts, rest, munch, ?_, bound, stop rfl, ?_⟩
          · rw [count]
          · rw [buffer, places]
            exact stored ts
    | syserr w =>
        refine ⟨fun line' same => ?_, _, _, _, lexan_eq lexed, ?_, ?_, fun value => ?_⟩
        · have lexed' : Lexed SHELL_MAXTOK (lineOf line' linelen) ts (.syserr w) := by rw [lineOf_congr same]; exact lexed
          rw [lexan_eq lexed, lexan_eq lexed']
          rfl
        · rw [List.length_append, buffer]
          rw [copied] at size
          omega
        · have := more nofun
          rw [List.length_append, places, length_offsets, List.length_singleton]
          omega
        · exact absurd value (by decide)
    | unclosed q body =>
        obtain ⟨blanks, rfl, blank, quote, inside⟩ := unclosed q body rfl
        exact absurd ⟨ts, blanks, q, body, munch, more nofun, blank, quote, inside⟩ closed

theorem lexan_stale : ¬ Lexes (fun i => [34, 97, 34].getD i 0) 2 := by
  rintro ⟨own, -⟩
  have same := own (fun i => [34, 97, 10].getD i 0) (by decide)
  have closed : lexan (fun i => [34, 97, 34].getD i 0) 2 = some (1, [34, 97, 34, 0], [0]) := by decide +kernel
  have broken : lexan (fun i => [34, 97, 10].getD i 0) 2 = some (SYSERR, [34, 97], [0]) := by decide +kernel
  rw [closed, broken] at same
  exact absurd same (by decide)

end Xinu.Lexer
