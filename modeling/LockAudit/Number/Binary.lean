/-!
# Double precision

A finite double is `mantissa * 2 ^ exponent`. This module takes a double apart
into these two integers and finds the double nearest to a fraction, a tie going
to the even mantissa, so that reading and writing decimals is exact arithmetic.
-/

namespace LockAudit.Number

/-- A double taken apart: not a number, an infinity, or a sign with a mantissa
and a power of two. -/
inductive Binary where
  | nan
  | infinite (negative : Bool)
  | finite (negative : Bool) (mantissa : Nat) (exponent : Int)
  deriving DecidableEq

/-- The parts of the double with the given bits. -/
def Binary.ofBits (bits : Nat) : Binary :=
  let negative := bits / Nat.pow 2 63 % 2 == 1
  let field : Nat := bits / Nat.pow 2 52 % Nat.pow 2 11
  let fraction : Nat := bits % Nat.pow 2 52
  if field = 2047 then if fraction = 0 then .infinite negative else .nan
  else if field = 0 then .finite negative fraction (-1074)
  else .finite negative (fraction + Nat.pow 2 52) ((field : Int) - 1075)

/-- The parts of a double. -/
def Binary.ofFloat (x : Float) : Binary := .ofBits x.toBits.toNat

/-- The double is zero or less; what is not a number is neither that nor more. -/
def Binary.isAtMostZero : Binary → Bool
  | .nan => false
  | .infinite negative => negative
  | .finite negative mantissa _ => negative || mantissa == 0

/-- A fraction rounded to an integer, a tie to the even one. -/
def roundHalfEven (num den : Nat) : Nat :=
  let q := num / den
  let r := num % den
  if 2 * r < den then q
  else if den < 2 * r then q + 1
  else if q % 2 = 0 then q else q + 1

/-- The fraction `num / den` in units of `2 ^ exponent`. -/
def scaleDown (num den : Nat) (exponent : Int) : Nat × Nat :=
  if 0 ≤ exponent then (num, den * Nat.pow 2 exponent.toNat)
  else (num * Nat.pow 2 (-exponent).toNat, den)

/-- The exponent at which the fraction's integer part has 53 bits, but no lower
than that of the smallest doubles. The logarithms leave it open by one. -/
def unitExponent (num den : Nat) : Int :=
  let guess : Int := (num.log2 : Int) - den.log2 - 52
  let (n, d) := scaleDown num den guess
  let exact := if n / d < Nat.pow 2 52 then guess - 1 else guess
  max exact (-1074)

/-- The bits of the double nearest to the positive fraction `num / den`. -/
def nearestBits (num den : Nat) : Nat :=
  if num = 0 then 0
  else
    let exponent := unitExponent num den
    let (n, d) := scaleDown num den exponent
    let mantissa := roundHalfEven n d
    if mantissa < Nat.pow 2 52 then mantissa
    else
      -- A mantissa that was rounded up to 54 bits carries into the exponent.
      let bits := (exponent + 1075).toNat * Nat.pow 2 52 + (mantissa - Nat.pow 2 52)
      if 2047 * Nat.pow 2 52 ≤ bits then 2047 * Nat.pow 2 52 else bits

/-- The double nearest to `num / den`, with a sign. -/
def nearest (negative : Bool) (num den : Nat) : Float :=
  Float.ofBits (UInt64.ofNat (nearestBits num den + if negative then Nat.pow 2 63 else 0))

/-- The double nearest to an integer. -/
def ofInt (n : Int) : Float := nearest (n < 0) n.natAbs 1

/-- Positive infinity. -/
def infinity : Float := Float.ofBits 0x7ff0000000000000

/-- The value that is not a number. -/
def notANumber : Float := Float.ofBits 0x7ff8000000000000

/-- The value that is not a number, whatever its payload. -/
def isNaN (x : Float) : Bool := Binary.ofFloat x == .nan

/-- The integer part of a finite double, cut toward zero, and whether anything
was cut off. -/
def truncate : Binary → Option (Int × Bool)
  | .finite negative mantissa exponent =>
    let (n, d) := if 0 ≤ exponent then (mantissa * Nat.pow 2 exponent.toNat, 1)
      else (mantissa, Nat.pow 2 (-exponent).toNat)
    let whole : Int := (n / d : Nat)
    some (if negative then -whole else whole, n % d ≠ 0)
  | _ => none

end LockAudit.Number
