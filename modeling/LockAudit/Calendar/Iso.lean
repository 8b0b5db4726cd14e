import LockAudit.Calendar.Instant

/-!
# ISO 8601 text

A timestamp is a date in extended, basic or week form, then perhaps any one
character and a clock time in extended or basic form, and perhaps an offset. The
clock time before an offset is read leniently: one more character may stand
between the two, and a fraction may follow a third colon.

`readDateTime` separates three questions, in this order: whether the text has
the form at all, whether its offset is less than a day, and whether the numbers
are a date and a time that exist.
-/

namespace LockAudit.Calendar.Iso

/-- Why a text is no timestamp or date. -/
inductive Fault where
  | malformed (text : String)
  | offset (given : Duration)
  | numbers (cause : Defect)
  deriving DecidableEq

/-- What is said about a text that is no timestamp or date. -/
def Fault.message : Fault → String
  | .malformed text => "Invalid isoformat string: " ++ Text.quote text
  | .offset given =>
    "offset must be a timedelta strictly between -timedelta(hours=24) and timedelta(hours=24), not "
      ++ given.partsText ++ "."
  | .numbers cause => cause.message

/-- A number with exactly `n` plain digits, and the rest. -/
def takeDigits (n : Nat) (cs : List Char) : Option (Nat × List Char) :=
  let digits := cs.take n
  if digits.length = n ∧ digits.all Text.isAsciiDigit then
    some (Text.digitsValue digits, cs.drop n)
  else none

/-- The text continues with the separator, if the form has one. -/
def takeDash (extended : Bool) (cs : List Char) : Option (List Char) :=
  if extended then (if cs.head? = some '-' then some cs.tail else none) else some cs

/-- The Monday-based date of an ISO year, week and day of the week: none if there
is no such week or day. The result may lie outside the calendar. -/
def weekDate (year week day : Nat) : Option (Except Defect Date) :=
  if week = 0 ∨ 53 < week ∨ (week = 53 ∧ !hasLongYear year) ∨ day = 0 ∨ 7 < day then none
  else if year = 0 then some (.error .month)
  else
    let n := firstMonday year + (week - 1) * 7 + (day - 1)
    some (Date.ofOrdinal n.toNat)

/-- A date in any of the forms; it has to use up the text, save that a week date
without a day stands for its Monday. -/
def readDateForm (cs : List Char) : Option (Except Defect Date) := do
  let (year, rest) ← takeDigits 4 cs
  let extended := rest.head? = some '-'
  let rest := if extended then rest.tail else rest
  match rest with
  | 'W' :: rest =>
    let (week, rest) ← takeDigits 2 rest
    if rest.isEmpty then weekDate year week 1
    else
      let rest ← takeDash extended rest
      let (day, _) ← takeDigits 1 rest
      weekDate year week day
  | _ =>
    let (month, rest) ← takeDigits 2 rest
    let rest ← takeDash extended rest
    let (day, rest) ← takeDigits 2 rest
    if rest.isEmpty then some (Date.of year month day) else none

/-- How many characters of a timestamp belong to its date. Where a week date may
or may not name a day, the digits that follow decide. -/
def dateLength (cs : List Char) : Option Nat :=
  if cs.length < 7 then none
  else if cs.length = 7 then some 7
  else if cs[4]? = some '-' then
    if cs[5]? = some 'W' then
      if cs[8]? = some '-' then
        if cs.length = 9 then none
        else if (cs[10]?.map Text.isAsciiDigit).getD false then some 8
        else some 10
      else some 8
    else some 10
  else if cs[4]? = some 'W' then
    let last := 7 + ((cs.drop 7).takeWhile Text.isAsciiDigit).length
    if last < 9 then some last
    else if last % 2 = 0 then some 7
    else some 8
  else some 8

/-- The numbers of a clock time, and whether characters were left over after it. -/
structure Clock where
  hour : Nat
  minute : Nat
  second : Nat
  micro : Nat
  leftover : Bool

/-- A clock time out of the fields read so far. -/
def Clock.ofFields (fields : List Nat) (micro : Nat) (leftover : Bool) : Clock :=
  ⟨fields[0]?.getD 0, fields[1]?.getD 0, fields[2]?.getD 0, micro, leftover⟩

/-- The fraction of a second: at most six digits count, and further ones are
passed over. -/
def readFraction (fields : List Nat) (cs : List Char) : Option Clock := do
  let width := min 6 cs.length
  let (n, rest) ← takeDigits width cs
  let rest := rest.dropWhile Text.isAsciiDigit
  some (Clock.ofFields fields (n * Nat.pow 10 (6 - width)) (!rest.isEmpty))

/-- The fields of a clock time from the given ones on, in a form with or without
colons. One ASCII character may be left over after a field. -/
def readFields : Nat → Bool → List Nat → List Char → Option Clock
  | 0, _, fields, cs => readFraction fields cs
  | count + 1, colons, fields, cs => do
    let (n, rest) ← takeDigits 2 cs
    let fields := fields ++ [n]
    match rest with
    | [] => some (Clock.ofFields fields 0 false)
    | [c] => if c.toNat < 128 then some (Clock.ofFields fields 0 true) else none
    | c :: more =>
      let colons := if fields.length = 1 then c = ':' else colons
      if colons && c = ':' then readFields count colons fields more
      else if c = '.' || c = ',' then readFraction fields more
      else if !colons then readFields count colons fields rest
      else none

/-- A clock time from its hours on. -/
def readClock (cs : List Char) : Option Clock := readFields 3 true [] cs

/-- The character starts an offset. -/
def startsOffset (c : Char) : Bool := c = '+' || c = '-' || c = 'Z'

/-- An offset in microseconds; its seconds decide whether it is zero. -/
def readOffset (cs : List Char) : Option Int :=
  match cs with
  | 'Z' :: rest => if rest.isEmpty then some 0 else none
  | sign :: rest => do
    let clock ← readClock rest
    if clock.leftover then none
    else
      let seconds : Int := (clock.hour * 60 + clock.minute) * 60 + clock.second
      let size := if seconds = 0 then 0 else seconds * 1000000 + clock.micro
      some (if sign = '-' then -size else size)
  | [] => none

/-- A clock time and, if one follows, its offset. -/
def readTimeForm (cs : List Char) : Option (Clock × Option Int) := do
  let clock ← readClock (cs.takeWhile (!startsOffset ·))
  match cs.dropWhile (!startsOffset ·) with
  | [] => if clock.leftover then none else some (clock, none)
  | offset => some (clock, some (← readOffset offset))

/-- The numbers of a timestamp: its date, its clock time and its offset. -/
def readForm (cs : List Char) : Option (Except Defect Date × Clock × Option Int) := do
  let length ← dateLength cs
  let date ← readDateForm (cs.take length)
  match cs.drop length with
  | [] => some (date, ⟨0, 0, 0, 0, false⟩, none)
  | _ :: time =>
    let (clock, offset) ← readTimeForm time
    some (date, clock, offset)

/-- The offset is less than a day either way. -/
def isOffset (micros : Int) : Bool := -86400000000 < micros && micros < 86400000000

/-- The timestamp that a text spells. -/
def readDateTime (s : String) : Except Fault DateTime :=
  match readForm s.toList with
  | none => .error (.malformed s)
  | some (date, clock, offset) => do
    if !(offset.map isOffset).getD true then throw (.offset ⟨offset.getD 0⟩)
    let date ← date.mapError .numbers
    let time ← (Time.of clock.hour clock.minute clock.second clock.micro).mapError .numbers
    pure ⟨date, time, offset⟩

/-- The date that a text of seven, eight or ten characters spells. -/
def readDate (s : String) : Except Fault Date :=
  let cs := s.toList
  if cs.length = 7 ∨ cs.length = 8 ∨ cs.length = 10 then
    match readDateForm cs with
    | none => .error (.malformed s)
    | some date => date.mapError .numbers
  else .error (.malformed s)

end LockAudit.Calendar.Iso
