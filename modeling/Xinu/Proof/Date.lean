import Xinu.Lib.Calendar
import Xinu.System.Date
import Mathlib.Tactic.IntervalCases

namespace Xinu.Time
open Lib

variable {d n s : Nat} {t t' : Time}

/-- The fields of `t` are those of the second with the date `a`. -/
structure Reads (t : Time) (seconds : Nat) (a : Date) : Prop where
  valid : a.Valid 1900
  year : t.year = a.year
  month : t.month = a.month
  monthday : t.monthday = a.day + 1
  yearday : t.yearday = a.yearday 1900
  weekday : t.weekday = ((1 + a.number 1900) % 7 : Nat)
  hour : 0 ≤ t.hour ∧ t.hour < 24
  minute : 0 ≤ t.minute ∧ t.minute < 60
  second : 0 ≤ t.second ∧ t.second < 60
  back : (a.number 1900 * SECS_IN_DAY : Nat) + t.hour * SECS_IN_HOUR + t.minute * SECS_IN_MIN + t.second = seconds

theorem leap_iff (small : n < 200) : Leap (1900 + n) ↔ n % 4 = 0 ∧ n ≠ 0 := by
  rw [Leap]
  omega

theorem years_eq (small : n ≤ 200) : Date.years 1900 n = 365 * n + (n - 1) / 4 := by
  induction n with
  | zero => rfl
  | succ n ih =>
      have ih := ih (Nat.le_of_succ_le small)
      have leap := leap_iff (Nat.lt_of_succ_le small)
      rw [Date.years] at ih ⊢
      rw [before, ih, yearLength]
      split
      · rename_i isLeap
        have := leap.mp isLeap
        omega
      · rename_i common
        have := mt leap.mpr common
        omega

theorem leapyears_eq (y : Nat) : leapyears y = ((y - 1) / 4 + (y - 1) / 100 : Nat) := by
  cases y with
  | zero => rfl
  | succ y =>
      rw [leapyears, Int.natCast_add, Nat.add_sub_cancel]
      have back : (y : Int) + ((1 : Nat) : Int) - 1 = y := by omega
      rw [back]
      rfl

theorem uint_eq {x : Int} {k : Nat} (same : x = k) (word : k < WORD) : uint x = k := by
  rw [uint, same]
  have := Int.emod_eq_of_lt (Int.natCast_nonneg k) (Int.ofNat_lt.mpr word)
  rw [this]
  rfl

theorem sec_day : SECS_IN_DAY = 86400 := rfl
theorem sec_year : SECS_IN_YEAR = 86400 * 365 := rfl

theorem convertYear_eq (word : s < WORD) :
    convertYear s = (s / 86400 - ((s / 86400 / 365 - 1) / 4 + (s / 86400 / 365 - 1) / 100)) / 365 := by
  have days : s / (86400 * 365) = s / 86400 / 365 := (Nat.div_div_eq_div_mul _ _ _).symm
  rw [convertYear, sec_year, days, leapyears_eq, sec_day]
  generalize same : (s / 86400 / 365 - 1) / 4 + (s / 86400 / 365 - 1) / 100 = leap
  have few : leap ≤ s / 86400 := by omega
  have left : ((s : Int) - (leap : Nat) * (86400 : Nat)) = (s - 86400 * leap : Nat) := by
    have := Nat.div_mul_le_self s 86400
    omega
  rw [uint_eq left (Nat.lt_of_le_of_lt (Nat.sub_le _ _) word), ← Nat.div_div_eq_div_mul, Nat.sub_mul_div]

theorem convertYear_place (word : s < WORD) (low : Date.years 1900 n ≤ s / 86400) (high : s / 86400 < Date.years 1900 (n + 1)) :
    n ≤ 136 ∧ convertYear s = if 101 ≤ n ∧ s / 86400 = Date.years 1900 n then n - 1 else n := by
  have few : s / 86400 ≤ 49710 := by
    rw [WORD] at word
    omega
  have small : n ≤ 136 := by
    by_contra more
    have first : Date.years 1900 137 ≤ Date.years 1900 n := before_le (show 137 ≤ n by omega)
    rw [years_eq (by decide)] at first
    omega
  rw [years_eq (by omega)] at low high
  rw [convertYear_eq word, years_eq (by omega)]
  refine ⟨small, ?_⟩
  -- the year of 365 days is that year or the next one
  obtain near | near : s / 86400 / 365 = n ∨ s / 86400 / 365 = n + 1 := by omega
  · rw [near]
    split <;> omega
  · rw [near]
    split <;> omega

theorem leapday_eq (small : n < 200) : leapday n = if Leap (1900 + n) then 1 else 0 := by
  have four : (n : Int).tmod 4 = (n % 4 : Nat) := rfl
  have hundred : (n : Int).tmod 100 = (n % 100 : Nat) := rfl
  have cycle : (1900 + (n : Int)).tmod 400 = ((1900 + n) % 400 : Nat) := by
    have sum : 1900 + (n : Int) = ((1900 + n : Nat) : Int) := by omega
    rw [sum]
    rfl
  rw [leapday, four, hundred, cycle]
  have leap := leap_iff small
  split
  · rename_i own
    rw [if_pos (leap.mpr (by omega))]
  · rename_i own
    rw [if_neg (mt leap.mp (by omega))]

theorem convertYearday_eq (small : n ≤ 136) : convertYearday n ((365 * n + (n - 1) / 4 + d : Nat) - (365 * n : Nat) : Int) = d := by
  have four : (n : Int).tdiv 4 = (n / 4 : Nat) := rfl
  have hundred : (n : Int).tdiv 100 = (n / 100 : Nat) := rfl
  have cycle : (1900 + (n : Int)).tdiv 400 = ((1900 + n) / 400 : Nat) := by
    have sum : 1900 + (n : Int) = ((1900 + n : Nat) : Int) := by omega
    rw [sum]
    rfl
  rw [convertYearday, four, hundred, cycle, leapday_eq (by omega)]
  have leap := leap_iff (n := n) (by omega)
  split
  · rename_i own
    have := leap.mp own
    omega
  · rename_i own
    have := mt leap.mpr own
    omega

theorem monthLength_eq (year : Nat) {m : Nat} (bound : m < 12) :
    days_in_month.getD m 0 + (if 1 = (if Leap year then (1 : Int) else 0) ∧ 1 = m then 1 else 0) = monthLength year m := by
  rcases Nat.lt_or_ge 1 m with more | less
  · have other : ¬ (1 = (if Leap year then (1 : Int) else 0) ∧ 1 = m) := by omega
    rw [if_neg other]
    interval_cases m <;> rfl
  · interval_cases m
    · by_cases leap : Leap year <;> simp [leap, days_in_month, monthLength]
    · by_cases leap : Leap year <;> simp [leap, days_in_month, monthLength]

theorem monthLoop_spec (year : Nat) {fuel month : Nat} (whole : month + fuel = 11) :
    ∃ m day : Nat, monthLoop (if Leap year then 1 else 0) fuel month d = (m, (day : Int)) ∧ m ≤ 11 ∧
      before (monthLength year) month + d = before (monthLength year) m + day ∧ (m < 11 → day < monthLength year m) := by
  induction fuel generalizing month d with
  | zero => exact ⟨month, d, rfl, by omega, rfl, fun less => by omega⟩
  | succ fuel ih =>
      have length := monthLength_eq year (m := month) (by omega)
      simp only [monthLoop, length]
      by_cases inside : d < monthLength year month
      · rw [if_pos (Int.ofNat_lt.mpr inside)]
        exact ⟨month, d, rfl, by omega, rfl, fun _ => inside⟩
      · rw [if_neg (by omega)]
        have left : (d : Int) - (monthLength year month : Nat) = (d - monthLength year month : Nat) := by omega
        rw [left]
        obtain ⟨m, day, looped, bound, sum, last⟩ := @ih (d - monthLength year month) (month + 1) (by omega)
        refine ⟨m, day, looped, bound, ?_, last⟩
        rw [before] at sum
        omega

theorem convertDate_parts (word : s < WORD) {y yd : Nat} (small : y ≤ 136) (year : convertYear s = y)
    (day : s / 86400 = 365 * y + (y - 1) / 4 + yd) :
    ∃ m day : Nat, m ≤ 11 ∧ before (monthLength (1900 + y)) m + day = yd ∧ (m < 11 → day < monthLength (1900 + y) m) ∧
      (convertDate s).year = y ∧ (convertDate s).month = m ∧ (convertDate s).monthday = day + 1 ∧
      (convertDate s).yearday = yd ∧ (convertDate s).weekday = ((1 + s / 86400) % 7 : Nat) ∧
      (convertDate s).hour = (s % 86400 / 3600 : Nat) ∧ (convertDate s).minute = (s % 3600 / 60 : Nat) ∧
      (convertDate s).second = (s % 60 : Nat) := by
  have split := Nat.div_add_mod s 86400
  have left : uint ((s : Int) - (y : Nat) * (86400 * 365 : Nat)) = (s / 86400 - 365 * y) * 86400 + s % 86400 := by
    refine uint_eq ?_ (Nat.lt_of_le_of_lt ?_ word) <;> omega
  have days : ((s / 86400 - 365 * y) * 86400 + s % 86400) / 86400 = s / 86400 - 365 * y := by omega
  have rest : uint ((((s / 86400 - 365 * y) * 86400 + s % 86400 : Nat) : Int) - (s / 86400 - 365 * y : Nat) * (86400 : Nat)) =
      s % 86400 := by
    refine uint_eq ?_ (Nat.lt_of_le_of_lt (Nat.mod_le _ _) word)
    omega
  have yearday : convertYearday y ((s / 86400 - 365 * y : Nat) : Int) = yd := by
    rw [← convertYearday_eq small (d := yd), day]
    congr 1
    omega
  have hour : uint (((s % 86400 : Nat) : Int) - (s % 86400 / 3600 : Nat) * (3600 : Nat)) = s % 3600 := by
    refine uint_eq ?_ (Nat.lt_of_le_of_lt (Nat.mod_le _ _) word)
    omega
  have minute : uint (((s % 3600 : Nat) : Int) - (s % 3600 / 60 : Nat) * (60 : Nat)) = s % 60 := by
    refine uint_eq ?_ (Nat.lt_of_le_of_lt (Nat.mod_le _ _) word)
    omega
  obtain ⟨m, monthday, looped, bound, sum, last⟩ := @monthLoop_spec yd (1900 + y) 11 0 rfl
  rw [← leapday_eq (by omega)] at looped
  have sum : before (monthLength (1900 + y)) m + monthday = yd := by
    rw [← sum, before, Nat.zero_add]
  have months : days_in_month.length - 1 = 11 := rfl
  have sec_hour : SECS_IN_HOUR = 3600 := rfl
  refine ⟨m, monthday, bound, sum, last, ?_⟩
  simp only [convertDate, year, sec_year, sec_day, sec_hour, left, days, rest, yearday, months, looped, hour, minute]
  exact ⟨trivial, trivial, trivial, trivial, trivial, trivial, trivial, trivial⟩

theorem Reads.number {a : Date} (reads : Reads t s a) : a.number 1900 = s / 86400 := by
  have back := reads.back
  have hour := reads.hour
  have minute := reads.minute
  have second := reads.second
  rw [sec_day] at back
  have sec_hour : SECS_IN_HOUR = 3600 := rfl
  have sec_min : SECS_IN_MIN = 60 := rfl
  rw [sec_hour, sec_min] at back
  omega

theorem Reads.monthday_lt {a : Date} (reads : Reads t s a) (december : t.month = 11) : t.monthday < 32 := by
  have valid := reads.valid.day
  have month := reads.month
  have monthday := reads.monthday
  have last : a.month = 11 := by omega
  have length : monthLength (1900 + a.year) 11 = 31 := rfl
  rw [last, length] at valid
  omega

theorem reads_iff (word : s < WORD) :
    (∃ a, Reads (convertDate s) s a) ↔ ¬ ∃ n, 101 ≤ n ∧ s / SECS_IN_DAY = Date.years 1900 n := by
  rw [sec_day]
  obtain ⟨n, low, high⟩ := exists_place (fun n => yearLength_pos (1900 + n)) (s / 86400)
  obtain ⟨small, year⟩ := convertYear_place word low high
  have first : Date.years 1900 n = 365 * n + (n - 1) / 4 := years_eq (by omega)
  constructor
  · rintro ⟨a, reads⟩ ⟨k, late, start⟩
    have positive := yearLength_pos (1900 + k)
    obtain rfl : n = k := by
      refine place_unique (f := fun n => yearLength (1900 + n)) low high (Nat.le_of_eq start.symm) ?_
      rw [start, before]
      exact Nat.lt_add_of_pos_right positive
    rw [if_pos ⟨late, start⟩] at year
    have next : Date.years 1900 (n - 1 + 1) = Date.years 1900 (n - 1) + yearLength (1900 + (n - 1)) := rfl
    have before_eq : Date.years 1900 (n - 1) = 365 * (n - 1) + (n - 1 - 1) / 4 := years_eq (by omega)
    rw [Nat.sub_add_cancel (by omega), before_eq, ← start] at next
    -- the day is taken for one behind the year before
    obtain ⟨m, day, bound, sum, last, -, month, monthday, -⟩ := convertDate_parts word (by omega) year next
    have whole := before_months (1900 + (n - 1))
    have december : m = 11 := by
      by_contra inner
      have less := last (by omega)
      have inside := before_le (f := monthLength (1900 + (n - 1))) (show m + 1 ≤ 12 by omega)
      rw [before, whole] at inside
      omega
    rw [december] at sum month
    rw [before] at whole
    have length : monthLength (1900 + (n - 1)) 11 = 31 := rfl
    have := reads.monthday_lt month
    omega
  · intro other
    rw [if_neg fun both => other ⟨n, both⟩] at year
    have day : s / 86400 = 365 * n + (n - 1) / 4 + (s / 86400 - Date.years 1900 n) := by
      have low : Date.years 1900 n ≤ s / 86400 := low
      omega
    obtain ⟨m, monthday, bound, sum, last, fields⟩ := convertDate_parts word small year day
    have inside : s / 86400 - Date.years 1900 n < yearLength (1900 + n) := by
      have high : s / 86400 < Date.years 1900 n + yearLength (1900 + n) := high
      have low : Date.years 1900 n ≤ s / 86400 := low
      omega
    have whole := before_months (1900 + n)
    have valid : monthday < monthLength (1900 + n) m := by
      by_cases inner : m < 11
      · exact last inner
      · obtain rfl : m = 11 := by omega
        rw [before] at whole
        omega
    have number : (Date.mk n m monthday).number 1900 = s / 86400 := by
      have low : Date.years 1900 n ≤ s / 86400 := low
      simp only [Date.number, Date.yearday, sum]
      omega
    obtain ⟨y, mo, md, yd, wd, h, mi, sec⟩ := fields
    refine ⟨⟨n, m, monthday⟩, ⟨⟨by show m < 12; omega, valid⟩, y, mo, md, ?_, ?_, ?_, ?_, ?_, ?_⟩⟩
    · rw [yd, ← sum]
      rfl
    · rw [wd, number]
    · omega
    · omega
    · omega
    · have sec_hour : SECS_IN_HOUR = 3600 := rfl
      have sec_min : SECS_IN_MIN = 60 := rfl
      rw [number, h, mi, sec, sec_day, sec_hour, sec_min]
      omega

/-- When the fields are those of the second, and that they follow the calendar then. -/
theorem convertDate_calendar (s : Nat) :
    (s < WORD → ((∃ a, Reads (convertDate s) s a) ↔ ¬ ∃ n, 101 ≤ n ∧ s / SECS_IN_DAY = Date.years 1900 n)) ∧
      ∀ a b, Reads (convertDate s) s a → Reads (convertDate (s + SECS_IN_DAY)) (s + SECS_IN_DAY) b → b = a.next 1900 := by
  refine ⟨fun word => reads_iff word, fun a b reads reads' => ?_⟩
  obtain ⟨valid, number⟩ := Date.next_spec reads.valid
  apply Date.unique reads'.valid valid
  rw [number, reads.number, reads'.number, sec_day]
  omega

theorem years_le {m n : Nat} (le : m ≤ n) : Date.years 1900 m ≤ Date.years 1900 n :=
  @before_le (fun n => yearLength (1900 + n)) m n le

def leapDay : Nat := 3918239999

theorem convertDate_calendar_start :
    ((∃ a, Reads (convertDate 0) 0 a) ↔ ¬ ∃ n, 101 ≤ n ∧ 0 / SECS_IN_DAY = Date.years 1900 n) ∧
      (∃ a b, Reads (convertDate 0) 0 a ∧ Reads (convertDate (0 + SECS_IN_DAY)) (0 + SECS_IN_DAY) b ∧ b = a.next 1900) ∧
      ((∃ a, Reads (convertDate leapDay) leapDay a) ↔ ¬ ∃ n, 101 ≤ n ∧ leapDay / SECS_IN_DAY = Date.years 1900 n) ∧
      ∃ a b, Reads (convertDate leapDay) leapDay a ∧ Reads (convertDate (leapDay + SECS_IN_DAY)) (leapDay + SECS_IN_DAY) b ∧
        b = a.next 1900 := by
  have early {d : Nat} (first : d ≤ 1) : ¬ ∃ n, 101 ≤ n ∧ d = Date.years 1900 n := by
    rintro ⟨n, late, same⟩
    have := @years_le 1 n (by omega)
    have year : Date.years 1900 1 = 365 := rfl
    omega
  -- in 2024
  have within {d : Nat} (low : 45290 < d) (high : d < 45656) : ¬ ∃ n, 101 ≤ n ∧ d = Date.years 1900 n := by
    rintro ⟨n, -, same⟩
    have start : Date.years 1900 124 = 45290 := by decide +kernel
    have behind : Date.years 1900 125 = 45656 := by decide +kernel
    rcases Nat.lt_or_ge n 125 with before | after
    · have := @years_le n 124 (by omega)
      omega
    · have := @years_le 125 n after
      omega
  obtain ⟨a, reads⟩ := (reads_iff (s := 0) (by decide)).mpr (early (by decide))
  obtain ⟨b, reads'⟩ := (reads_iff (s := 0 + SECS_IN_DAY) (by decide)).mpr (early (by decide))
  obtain ⟨c, leap⟩ := (reads_iff (s := leapDay) (by decide)).mpr (within (by decide) (by decide))
  obtain ⟨d, leap'⟩ := (reads_iff (s := leapDay + SECS_IN_DAY) (by decide)).mpr (within (by decide) (by decide))
  exact ⟨(convertDate_calendar 0).1 (by decide), ⟨a, b, reads, reads', (convertDate_calendar 0).2 a b reads reads'⟩,
    (convertDate_calendar leapDay).1 (by decide), c, d, leap, leap', (convertDate_calendar leapDay).2 c d leap leap'⟩

theorem convertDate_2001 : (convertDate 3187296000).monthday = 32 ∧ ¬ ∃ a, Reads (convertDate 3187296000) 3187296000 a := by
  have day : (convertDate 3187296000).month = 11 ∧ (convertDate 3187296000).monthday = 32 := by decide +kernel
  refine ⟨day.2, ?_⟩
  rintro ⟨a, reads⟩
  have := reads.monthday_lt day.1
  omega

end Xinu.Time
