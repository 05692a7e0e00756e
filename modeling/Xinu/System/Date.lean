import Xinu.System.Memory

/-!
# Dates

`convertDate` of `src/apps/date.c`. `t->year * SECS_IN_YEAR` does not fit an `int` from 1969 on; it is taken modulo
`2 ^ 32`, as what it is subtracted from is an unsigned word.
-/

namespace Xinu

abbrev DAYS_IN_YEAR : Nat := 365
abbrev SECS_IN_MIN : Nat := 60
abbrev SECS_IN_HOUR : Nat := 60 * SECS_IN_MIN
abbrev SECS_IN_DAY : Nat := 24 * SECS_IN_HOUR
abbrev SECS_IN_YEAR : Nat := 365 * SECS_IN_DAY

def days_in_month : List Int := [31, 28, 31, 30, 31, 30, 31, 31, 30, 31, 30, 31]

structure Time where
  second : Int
  minute : Int
  hour : Int
  monthday : Int
  month : Int
  weekday : Int
  year : Int
  yearday : Int
  is_dst : Int
  deriving DecidableEq, Repr

def uint (x : Int) : Nat := (x % WORD).toNat

namespace Time

def leapyears (year : Int) : Int := (year - 1).tdiv 4 + (year - 1).tdiv 100

def convertYear (seconds : Nat) : Nat :=
  uint (seconds - leapyears (seconds / SECS_IN_YEAR : Nat) * SECS_IN_DAY) / SECS_IN_YEAR

def leapday (year : Int) : Int :=
  if (0 = year.tmod 4 ∧ 0 ≠ year.tmod 100) ∨ 0 = (1900 + year).tmod 400 then 1 else 0

/-- From the days that are left when `year` years of 365 days have been taken away. -/
def convertYearday (year days : Int) : Int :=
  days - year.tdiv 4 + year.tdiv 100 - ((1900 + year).tdiv 400 - 4) + leapday year

def monthLoop (leapday : Int) : Nat → Nat → Int → Nat × Int
  | 0, month, monthday => (month, monthday)
  | fuel + 1, month, monthday =>
      let leapyear := if 1 = leapday ∧ 1 = month then 1 else 0
      if monthday < days_in_month.getD month 0 + leapyear then (month, monthday)
      else monthLoop leapday fuel (month + 1) (monthday - (days_in_month.getD month 0 + leapyear))

def dst_day (year month : Int) : Int :=
  if 55 ≤ year ∧ year ≤ 106 then
    if 4 = month then (2 + 6 * year - year.tdiv 4).tmod 7 + 1
    else if 8 = month then (31 - ((year * 5).tdiv 4 + 1)).tmod 7
    else DAYS_IN_YEAR + 1
  else if 107 ≤ year then
    if 3 = month then 14 - (1 + (year * 5).tdiv 4).tmod 7
    else if 9 = month then 7 - (1 + (year * 5).tdiv 4).tmod 7
    else DAYS_IN_YEAR + 1
  else DAYS_IN_YEAR + 1

def convertDst (year month monthday hour : Int) : Int :=
  let is_dst :=
    if 55 ≤ year ∧ year ≤ 106 then if 4 < month ∧ month < 8 then 1 else 0
    else if 107 ≤ year then if 3 < month ∧ month < 9 then 1 else 0
    else -1
  if (monthday = dst_day year month ∧ 2 ≤ hour) ∨ monthday > dst_day year month then 1 else is_dst

end Time

open Time

def convertDate (seconds : Nat) : Time :=
  let weekday := (1 + seconds / SECS_IN_DAY) % 7
  let year := convertYear seconds
  let seconds := uint (seconds - year * SECS_IN_YEAR)
  let days := seconds / SECS_IN_DAY
  let seconds := uint (seconds - days * SECS_IN_DAY)
  let yearday := convertYearday year days
  let (month, monthday) := monthLoop (leapday year) (days_in_month.length - 1) 0 yearday
  let monthday := monthday + 1
  let hour := seconds / SECS_IN_HOUR
  let seconds := uint (seconds - hour * SECS_IN_HOUR)
  let minute := seconds / SECS_IN_MIN
  let seconds := uint (seconds - minute * SECS_IN_MIN)
  { second := seconds, minute, hour, monthday, month, weekday, year, yearday
    is_dst := convertDst year month monthday hour }

end Xinu
