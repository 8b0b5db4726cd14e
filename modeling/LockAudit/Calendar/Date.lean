/-!
# Calendar dates and times of day

Dates are those of the proleptic Gregorian calendar in the years 1 to 9999, and
every value of the type is a day that exists. Days are counted from one, which is
the first of January of the year 1, so that distances between days are
differences of their numbers.
-/

namespace LockAudit.Calendar

/-- The year has a 29th of February. -/
def isLeap (year : Nat) : Bool := year % 4 == 0 && (year % 100 != 0 || year % 400 == 0)

/-- How many days a month has. -/
def daysInMonth (year month : Nat) : Nat :=
  if month = 2 then if isLeap year then 29 else 28
  else if month = 4 ∨ month = 6 ∨ month = 9 ∨ month = 11 then 30
  else 31

/-- A day that exists. -/
structure Date where
  year : Nat
  month : Nat
  day : Nat
  year_mem : 1 ≤ year ∧ year ≤ 9999
  month_mem : 1 ≤ month ∧ month ≤ 12
  day_mem : 1 ≤ day ∧ day ≤ daysInMonth year month
  deriving DecidableEq

/-- A time of day, down to the microsecond. -/
structure Time where
  hour : Nat
  minute : Nat
  second : Nat
  micro : Nat
  hour_lt : hour < 24
  minute_lt : minute < 60
  second_lt : second < 60
  micro_lt : micro < 1000000
  deriving DecidableEq

/-- Why numbers are no date or time. -/
inductive Defect where
  | year (given : Int)
  | month
  | day
  | hour
  | minute
  | second
  deriving DecidableEq, Repr

/-- What is said about numbers that are no date or time. -/
def Defect.message : Defect → String
  | .year given => "year " ++ toString given ++ " is out of range"
  | .month => "month must be in 1..12"
  | .day => "day is out of range for month"
  | .hour => "hour must be in 0..23"
  | .minute => "minute must be in 0..59"
  | .second => "second must be in 0..59"

/-- The date with the given numbers; the year is looked at first, then the month,
then the day. -/
def Date.of (year month day : Nat) : Except Defect Date :=
  if hy : 1 ≤ year ∧ year ≤ 9999 then
    if hm : 1 ≤ month ∧ month ≤ 12 then
      if hd : 1 ≤ day ∧ day ≤ daysInMonth year month then .ok ⟨year, month, day, hy, hm, hd⟩
      else .error .day
    else .error .month
  else .error (.year year)

/-- The time with the given numbers; a fraction has at most six digits. -/
def Time.of (hour minute second micro : Nat) : Except Defect Time :=
  if hh : hour < 24 then
    if hm : minute < 60 then
      if hs : second < 60 then
        if hu : micro < 1000000 then .ok ⟨hour, minute, second, micro, hh, hm, hs, hu⟩
        else .error .second
      else .error .second
    else .error .minute
  else .error .hour

/-- The start of a day. -/
def Time.midnight : Time := ⟨0, 0, 0, 0, by decide, by decide, by decide, by decide⟩

/-- How many days came before a year. -/
def daysBeforeYear (year : Nat) : Nat :=
  (year - 1) * 365 + (year - 1) / 4 - (year - 1) / 100 + (year - 1) / 400

/-- How many days of the year came before a month. -/
def daysBeforeMonth (year : Nat) : Nat → Nat
  | 0 => 0
  | 1 => 0
  | month + 2 => daysBeforeMonth year (month + 1) + daysInMonth year (month + 1)

/-- The number of a day, counted from one. -/
def Date.ordinal (d : Date) : Nat :=
  daysBeforeYear d.year + daysBeforeMonth d.year d.month + d.day

/-- The month and the day of the month, looked for from a month on, of a day of
the year counted from zero. -/
def monthFrom (year : Nat) : Nat → Nat → Nat → Nat × Nat
  | 0, month, day => (month, day + 1)
  | fuel + 1, month, day =>
    if day < daysInMonth year month then (month, day + 1)
    else monthFrom year fuel (month + 1) (day - daysInMonth year month)

/-- The year, and the day of it counted from zero, of a day counted from zero. A
cycle of 400 years has 146097 days, and the last day of a longer cycle belongs to
the last shorter cycle in it. -/
def yearOf (day : Nat) : Nat × Nat :=
  let n400 := day / 146097
  let r400 := day % 146097
  let n100 := min 3 (r400 / 36524)
  let r100 := r400 - n100 * 36524
  let n4 := r100 / 1461
  let r4 := r100 % 1461
  let n1 := min 3 (r4 / 365)
  (n400 * 400 + n100 * 100 + n4 * 4 + n1 + 1, r4 - n1 * 365)

/-- The date with a number; the error is a year outside the calendar. -/
def Date.ofOrdinal (n : Nat) : Except Defect Date :=
  if n = 0 then .error (.year 0)
  else
    let (year, day) := yearOf (n - 1)
    let (month, day) := monthFrom year 11 1 day
    Date.of year month day

/-- The day after; there is none after the last day of the calendar. -/
def Date.tomorrow? (d : Date) : Option Date := (Date.ofOrdinal (d.ordinal + 1)).toOption

/-- The number of the Monday on which the first ISO week of a year starts: the
week that holds the year's first Thursday. It may lie before the calendar. -/
def firstMonday (year : Nat) : Int :=
  let first : Int := daysBeforeYear year + 1
  let weekday := (first + 6) % 7
  first - weekday + if weekday > 3 then 7 else 0

/-- The ISO year has 53 weeks: it starts on a Thursday, or is a leap year that
starts on a Wednesday. -/
def hasLongYear (year : Nat) : Bool :=
  let weekday := (daysBeforeYear year + 7) % 7
  weekday == 3 || (weekday == 2 && isLeap year)

/-- The parts of a time of day as microseconds since midnight. -/
def Time.micros (t : Time) : Nat :=
  ((t.hour * 60 + t.minute) * 60 + t.second) * 1000000 + t.micro

/-- The time of day at a number of microseconds after midnight, modulo a day. -/
def Time.ofMicros (n : Nat) : Time :=
  { hour := n / 3600000000 % 24
    minute := n / 60000000 % 60
    second := n / 1000000 % 60
    micro := n % 1000000
    hour_lt := Nat.mod_lt _ (by decide)
    minute_lt := Nat.mod_lt _ (by decide)
    second_lt := Nat.mod_lt _ (by decide)
    micro_lt := Nat.mod_lt _ (by decide) }

end LockAudit.Calendar
