import LockAudit.Calendar.Date
import LockAudit.Calendar.Duration

/-!
# Instants

An instant is a date and a time of day in UTC. A written timestamp may carry an
offset instead, or none; `DateTime.toUtc` makes an instant of it, reading a
missing offset as UTC, and fails when the shift leaves the years 1 to 9999.

A clock may also show no offset at all. Such a reading can be compared with
nothing, which only matters where a comparison is really needed; so a clock
reading keeps the two cases apart.
-/

namespace LockAudit.Calendar

/-- A date and a time of day in UTC. -/
structure Instant where
  date : Date
  time : Time
  deriving DecidableEq

/-- A date and a time of day with the offset from UTC, in microseconds, if one is
known. -/
structure DateTime where
  date : Date
  time : Time
  offset : Option Int
  deriving DecidableEq

namespace Instant

/-- Microseconds since the day before the first day of the calendar. -/
def micros (t : Instant) : Nat := t.date.ordinal * 86400000000 + t.time.micros

/-- The instant at a number of microseconds, if it lies in the calendar. -/
def ofMicros? (n : Int) : Option Instant :=
  if n < 0 then none
  else match Date.ofOrdinal (n.toNat / 86400000000) with
    | .ok date => some ⟨date, Time.ofMicros (n.toNat % 86400000000)⟩
    | .error _ => none

instance : LE Instant := ⟨fun a b => a.micros ≤ b.micros⟩

instance (a b : Instant) : Decidable (a ≤ b) := inferInstanceAs (Decidable (a.micros ≤ b.micros))

/-- The time that has passed since an earlier instant. -/
def since (now earlier : Instant) : Duration := ⟨(now.micros : Int) - earlier.micros⟩

/-- Midnight at the start of a day. -/
def startOf (date : Date) : Instant := ⟨date, Time.midnight⟩

/-- The instant a number of seconds after the first of January 1970, if it lies
in the calendar. -/
def ofUnix? (seconds : Int) : Option Instant :=
  ofMicros? ((719163 * 86400 + seconds) * 1000000)

end Instant

/-- The year a number of seconds after the first of January 1970, inside the calendar
or not. -/
def unixYear (seconds : Int) : Int :=
  let day := seconds.fdiv 86400 + 719162
  day.fdiv 146097 * 400 + (yearOf (day.fmod 146097).toNat).1

/-- The written form of a date. -/
def Date.text (d : Date) : String :=
  String.ofList (Number.padded 4 d.year ++ '-' :: Number.padded 2 d.month ++
    '-' :: Number.padded 2 d.day)

/-- The written form of a time of day; the fraction is left out when it is zero. -/
def Time.text (t : Time) : String :=
  String.ofList (Number.padded 2 t.hour ++ ':' :: Number.padded 2 t.minute ++
    ':' :: Number.padded 2 t.second ++
    (if t.micro = 0 then [] else '.' :: Number.padded 6 t.micro))

/-- The written form of an instant. -/
def Instant.text (t : Instant) : String := t.date.text ++ "T" ++ t.time.text ++ "+00:00"

/-- The instant a written timestamp stands for; none if the shift to UTC leaves
the calendar. -/
def DateTime.toUtc (t : DateTime) : Option Instant :=
  match t.offset with
  | none => some ⟨t.date, t.time⟩
  | some 0 => some ⟨t.date, t.time⟩
  | some offset => Instant.ofMicros? ((Instant.mk t.date t.time).micros - offset)

/-- What the clock shows: an instant, or a date and time without an offset. -/
inductive ClockReading where
  | zoned (now : Instant)
  | unzoned (date : Date) (time : Time)
  deriving DecidableEq

/-- The instant that the clock shows; a missing offset is UTC. -/
def ClockReading.asUtc : ClockReading → Instant
  | .zoned now => now
  | .unzoned date time => ⟨date, time⟩

/-- What cannot be done with a reading that has no offset. -/
inductive UnzonedDefect where
  | compare
  | subtract
  deriving DecidableEq, Repr

/-- What is said about a reading that has no offset. -/
def UnzonedDefect.message : UnzonedDefect → String
  | .compare => "can't compare offset-naive and offset-aware datetimes"
  | .subtract => "can't subtract offset-naive and offset-aware datetimes"

/-- The time that has passed since an instant, if the clock shows an offset. -/
def ClockReading.since (now : ClockReading) (earlier : Instant) :
    Except UnzonedDefect Duration :=
  match now with
  | .zoned t => .ok (t.since earlier)
  | .unzoned .. => .error .subtract

end LockAudit.Calendar
