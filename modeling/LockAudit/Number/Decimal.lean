import LockAudit.Number.Integer
import LockAudit.Number.Binary

/-!
# Decimal text of doubles

A double is written with the fewest digits that read back as the same double,
and of those the nearest to it. For one digit, two digits and so on, the two
neighbours of the value on that decimal grid are tested against the interval of
reals that round to the double; seventeen digits always suffice.

Timings are written with a fixed number of places instead, the exact binary
value rounded half to even.
-/

namespace LockAudit.Number

/-- The reals that round to a double, between two fractions of one denominator;
the ends belong to it when the mantissa is even. -/
structure Interval where
  low : Nat
  value : Nat
  high : Nat
  den : Nat
  closed : Bool

/-- The reals that round to `mantissa * 2 ^ exponent`. Below a power of two the
doubles lie half as far apart. -/
def Interval.around (mantissa : Nat) (exponent : Int) : Interval :=
  let below := if mantissa = Nat.pow 2 52 ∧ exponent ≠ -1074 then 1 else 2
  let scale := Nat.pow 2 exponent.toNat
  -- Counted in quarters of a unit, the ends are integers.
  { low := (4 * mantissa - below) * scale
    value := 4 * mantissa * scale
    high := (4 * mantissa + 2) * scale
    den := 4 * Nat.pow 2 (-exponent).toNat
    closed := mantissa % 2 = 0 }

/-- The fraction `num / den` rounds to the double. -/
def Interval.holds (i : Interval) (num den : Nat) : Bool :=
  if i.closed then i.low * den ≤ num * i.den && num * i.den ≤ i.high * den
  else i.low * den < num * i.den && num * i.den < i.high * den

/-- The decimal exponent of a positive fraction: the least `k` with
`num / den < 10 ^ k`, found from an estimate by steps of one. -/
def magnitudeFrom : Nat → Nat → Nat → Int → Int
  | 0, _, _, k => k
  | fuel + 1, num, den, k =>
    let (n, d) := if 0 ≤ k then (num, den * Nat.pow 10 k.toNat)
      else (num * Nat.pow 10 (-k).toNat, den)
    if d ≤ n then magnitudeFrom fuel num den (k + 1)
    else if 10 * n < d then magnitudeFrom fuel num den (k - 1)
    else k

/-- The least `k` with `num / den < 10 ^ k`. -/
def magnitude (num den : Nat) : Int :=
  let estimate := ((num.log2 : Int) - den.log2) * 30103 / 100000
  magnitudeFrom 8 num den estimate

/-- The decimals with `count` digits that round to the double, the nearest of
them if there are two. -/
def candidate (i : Interval) (k : Int) (count : Nat) : Option Nat :=
  let unit := k - count
  let (un, ud) := if 0 ≤ unit then (Nat.pow 10 unit.toNat, 1) else (1, Nat.pow 10 (-unit).toNat)
  let down := i.value * ud / (i.den * un)
  let up := down + 1
  let inDown := i.holds (down * un) ud
  let inUp := i.holds (up * un) ud
  if inDown && inUp then
    -- Both neighbours read back as the double: the nearer one, or the even one at a tie.
    let below := i.value * ud - down * un * i.den
    let above := up * un * i.den - i.value * ud
    if below < above then some down
    else if above < below then some up
    else some (if down % 2 = 0 then down else up)
  else if inDown then some down
  else if inUp then some up
  else none

/-- The shortest digits of a double from `count` digits on. -/
def shortestFrom (i : Interval) (k : Int) : Nat → Nat → Nat × Nat
  | 0, count => (0, count)
  | fuel + 1, count =>
    match candidate i k count with
    | some digits => (digits, count)
    | none => shortestFrom i k fuel (count + 1)

/-- The digits of a positive double without trailing zeros, and the place of the
decimal point relative to their start. -/
def shortest (mantissa : Nat) (exponent : Int) : List Char × Int :=
  let i := Interval.around mantissa exponent
  let k := magnitude i.value i.den
  let (digits, count) := shortestFrom i k 17 1
  let text := (toString digits).toList
  -- Rounding up to a power of ten adds a digit in front.
  let point := k + ((text.length : Int) - count)
  ((text.reverse.dropWhile (· = '0')).reverse, point)

/-- An exponent with its sign and at least two digits. -/
def exponentText (n : Int) : List Char :=
  let digits := (toString n.natAbs).toList
  (if n < 0 then '-' else '+') :: (if digits.length < 2 then '0' :: digits else digits)

/-- Digits with a decimal point, in positional form for exponents from -4 to 15
and with an exponent otherwise; a whole number keeps one zero after the point. -/
def layOut (digits : List Char) (point : Int) : List Char :=
  if -4 < point ∧ point ≤ 16 then
    if point ≤ 0 then ['0', '.'] ++ List.replicate (-point).toNat '0' ++ digits
    else
      let whole := digits.take point.toNat
      let rest := digits.drop point.toNat
      whole ++ List.replicate (point.toNat - whole.length) '0' ++
        '.' :: (if rest.isEmpty then ['0'] else rest)
  else
    let rest := digits.drop 1
    digits.take 1 ++ (if rest.isEmpty then [] else '.' :: rest) ++ 'e' :: exponentText (point - 1)

/-- The shortest text that reads back as the double. -/
def floatText (x : Float) : String :=
  match Binary.ofFloat x with
  | .nan => "nan"
  | .infinite negative => if negative then "-inf" else "inf"
  | .finite negative mantissa exponent =>
    let body := if mantissa = 0 then ['0', '.', '0']
      else let (digits, point) := shortest mantissa exponent; layOut digits point
    String.ofList (if negative then '-' :: body else body)

/-- A number with leading zeros up to a width. -/
def padded (width n : Nat) : List Char :=
  let digits := (toString n).toList
  List.replicate (width - digits.length) '0' ++ digits

/-- A double with a fixed number of places, half to even. -/
def fixedText (places : Nat) (x : Float) : String :=
  match Binary.ofFloat x with
  | .nan => "nan"
  | .infinite negative => if negative then "-inf" else "inf"
  | .finite negative mantissa exponent =>
    let units := roundHalfEven (mantissa * Nat.pow 2 exponent.toNat * Nat.pow 10 places)
      (Nat.pow 2 (-exponent).toNat)
    let body := (toString (units / Nat.pow 10 places)).toList ++
      '.' :: padded places (units % Nat.pow 10 places)
    String.ofList (if negative then '-' :: body else body)

/-- The double nearest to `digits * 10 ^ exponent`. Exponents far outside the
range of doubles are settled by the number of digits. -/
def ofScientific (negative : Bool) (digits : List Char) (exponent : Int) : Float :=
  let n := Text.digitsValue digits
  let size : Int := (digits.dropWhile fun c => Text.digitValue? c == some 0).length + exponent
  if n = 0 ∨ size < -400 then nearest negative 0 1
  else if 400 < size then (if negative then -infinity else infinity)
  else if 0 ≤ exponent then nearest negative (n * Nat.pow 10 exponent.toNat) 1
  else nearest negative n (Nat.pow 10 (-exponent).toNat)

/-- A decimal without its sign: digits, an optional point and fraction, and an
optional exponent. -/
structure Scientific where
  whole : List Char
  fraction : List Char
  exponent : Int

/-- The decimal that a text spells in full. -/
def Scientific.read? (cs : List Char) : Option Scientific := do
  let (whole, rest) := cs.span Text.isDigit
  let (fraction, rest) := match rest with
    | '.' :: after => after.span Text.isDigit
    | _ => ([], rest)
  if whole.isEmpty && fraction.isEmpty then none
  else match rest with
    | [] => some ⟨whole, fraction, 0⟩
    | c :: after =>
      if c = 'e' || c = 'E' then
        let (negative, digits) := takeSign after
        if digits.isEmpty || !digits.all Text.isDigit then none
        else
          let n : Int := Text.digitsValue digits
          some ⟨whole, fraction, if negative then -n else n⟩
      else none

/-- The double nearest to a decimal. -/
def Scientific.toFloat (negative : Bool) (d : Scientific) : Float :=
  ofScientific negative (d.whole ++ d.fraction) (d.exponent - d.fraction.length)

/-- The double that a text spells, with an optional sign, white space around it
and underscores between its digits; infinities and the value that is not a
number have names. -/
def readFloat? (s : String) : Option Float := do
  let (negative, body) := takeSign (strip s.toList)
  let name := String.ofList (body.map Char.toLower)
  if name = "inf" ∨ name = "infinity" then some (if negative then -infinity else infinity)
  else if name = "nan" then some notANumber
  else
    let body ← dropUnderscores ' ' body
    let d ← Scientific.read? body
    some (d.toFloat negative)

/-- A number given as an integer or as a double; the two are shown differently. -/
inductive Amount where
  | whole (n : Int)
  | real (x : Float)

/-- The written form of an amount. -/
def Amount.text : Amount → String
  | .whole n => toString n
  | .real x => floatText x

/-- The amount is zero or less. -/
def Amount.isAtMostZero : Amount → Bool
  | .whole n => n ≤ 0
  | .real x => (Binary.ofFloat x).isAtMostZero

end LockAudit.Number
