import LockAudit.Number.Decimal
import LockAudit.Text.Quoted

/-!
# Durations

A duration is a whole number of microseconds, of either sign, of less than 10⁹
days. It is written in three ways: as an age, in the largest unit that fits; as
days and a clock time; and in parts, where a message shows an offset.
-/

namespace LockAudit.Calendar

/-- A span of time in microseconds. -/
structure Duration where
  micros : Int
  deriving DecidableEq

namespace Duration

/-- A whole number of seconds. -/
def ofSeconds (n : Int) : Duration := ⟨n * 1000000⟩

/-- Microseconds in a second. -/
def secondUnit : Nat := 1000000

/-- Microseconds in a millisecond. -/
def millisecondUnit : Nat := 1000

/-- One day. -/
def day : Duration := ofSeconds 86400

/-- The whole days of a duration, rounded down. -/
def days (d : Duration) : Int := d.micros.fdiv 86400000000

/-- What the whole days leave of a duration, in microseconds. -/
def rest (d : Duration) : Nat := (d.micros.fmod 86400000000).toNat

/-- A number of days that no duration can have. -/
inductive Overflow where
  | tooManyDays (days : Int)
  | tooLarge
  deriving DecidableEq, Repr

/-- What is said about a duration that is too long; past the range of a 32-bit
integer its days are not even named. -/
def Overflow.message : Overflow → String
  | .tooManyDays days => "days=" ++ toString days ++ "; must have magnitude <= 999999999"
  | .tooLarge => "Python int too large to convert to C int"

/-- The duration, if it is short enough. -/
def checked (d : Duration) : Except Overflow Duration :=
  if d.days < -2147483648 ∨ 2147483647 < d.days then .error .tooLarge
  else if d.days < -999999999 ∨ 999999999 < d.days then .error (.tooManyDays d.days)
  else .ok d

/-- Why a double is no number of units of time. -/
inductive RealDefect where
  | notANumber
  | infinite
  | overflow (cause : Overflow)
  deriving DecidableEq, Repr

/-- A double cut toward zero. -/
def cut (x : Float) : Float := if x < 0 then x.ceil else x.floor

/-- The duration of a number of units, each of so many microseconds, to the nearest
microsecond and half to even. The fraction of a unit is scaled as a double. -/
def ofReal (unit : Nat) (x : Float) : Except RealDefect Duration :=
  match Number.truncate (Number.Binary.ofFloat x) with
  | none => .error (if Number.isNaN x then .notANumber else .infinite)
  | some (units, _) =>
    let scaled := (x - cut x) * Number.ofInt unit
    let left := scaled - cut scaled
    let whole := ((Number.truncate (Number.Binary.ofFloat scaled)).map (·.1)).getD 0
    let micros := units * unit + whole
    let up := left.abs > 0.5 || (left.abs == 0.5 && micros % 2 ≠ 0)
    let change := if !up then 0 else if left < 0 then -1 else 1
    (Duration.mk (micros + change)).checked.mapError .overflow

/-- The duration in whole seconds, cut toward zero, as read off the nearest
double. -/
def wholeSeconds (d : Duration) : Int :=
  let x := Number.Binary.ofBits
    (Number.nearestBits d.micros.natAbs 1000000 + if d.micros < 0 then Nat.pow 2 63 else 0)
  ((Number.truncate x).map (·.1)).getD 0

/-- An age: whole days, hours, minutes or seconds, in the largest unit of which
there is at least one. -/
def ageText (d : Duration) : String :=
  let seconds := d.wholeSeconds
  if 86400 ≤ seconds then toString (seconds / 86400) ++ "d"
  else if 3600 ≤ seconds then toString (seconds / 3600) ++ "h"
  else if 60 ≤ seconds then toString (seconds / 60) ++ "m"
  else toString seconds ++ "s"

/-- Days, if any, and a clock time. -/
def clockText (d : Duration) : String :=
  let seconds := d.rest / 1000000
  let micros := d.rest % 1000000
  let clock := toString (seconds / 3600) ++ ":" ++
    String.ofList (Number.padded 2 (seconds / 60 % 60)) ++ ":" ++
    String.ofList (Number.padded 2 (seconds % 60)) ++
    (if micros = 0 then "" else "." ++ String.ofList (Number.padded 6 micros))
  if d.days = 0 then clock
  else toString d.days ++ (if d.days.natAbs = 1 then " day, " else " days, ") ++ clock

/-- The nonzero parts of a duration by name. -/
def partsText (d : Duration) : String :=
  let seconds := d.rest / 1000000
  let micros := d.rest % 1000000
  let parts :=
    (if d.days = 0 then [] else ["days=" ++ toString d.days]) ++
    (if seconds = 0 then [] else ["seconds=" ++ toString seconds]) ++
    (if micros = 0 then [] else ["microseconds=" ++ toString micros])
  "datetime.timedelta(" ++ (if parts.isEmpty then "0" else ", ".intercalate parts) ++ ")"

/-- Why a text is no duration, or one that is too long. -/
inductive ReadDefect where
  | notADuration (text : String)
  | oversized (cause : Number.Oversized)
  | unknownUnit (unit : String)
  | overflow (cause : Overflow)
  deriving DecidableEq

/-- What is said about a text that is no duration. -/
def ReadDefect.message : ReadDefect → String
  | .notADuration text =>
    "invalid duration " ++ Text.quote text ++ " (expected e.g. 3600, 30m, 24h, 7d)"
  | .oversized cause => cause.message
  | .unknownUnit unit => Text.quote unit
  | .overflow cause => cause.message

/-- The unit letters; the long s counts as a letter although no unit goes by it. -/
def isUnit (c : Char) : Bool :=
  let l := c.toLower
  l = 's' || l = 'm' || l = 'h' || l = 'd' || l = 'w' || c = 'ſ'

/-- The seconds in a unit; none without a letter means seconds. -/
def unitSeconds? : Option Char → Option Nat
  | none => some 1
  | some c =>
    match c.toLower with
    | 's' => some 1
    | 'm' => some 60
    | 'h' => some 3600
    | 'd' => some 86400
    | 'w' => some 604800
    | _ => none

/-- The digits and the unit letter of a duration text. -/
def splitText (s : String) : Option (List Char × Option Char) :=
  let (digits, rest) := (Text.stripList s.toList).span Text.isDigit
  if digits.isEmpty then none
  else match rest.dropWhile Text.isBlank with
    | [] => some (digits, none)
    | [c] => if isUnit c then some (digits, some c) else none
    | _ => none

/-- The duration that a text such as `90`, `30s`, `15m`, `24h`, `7d` or `2w`
spells. -/
def read (s : String) : Except ReadDefect Duration :=
  match splitText s with
  | none => .error (.notADuration s)
  | some (digits, unit) => do
    let amount ← (Number.ofDigits digits).mapError .oversized
    match unitSeconds? unit with
    | none => .error (.unknownUnit (String.ofList unit.toList))
    | some size => (ofSeconds (amount * size)).checked.mapError .overflow

end Duration

end LockAudit.Calendar
