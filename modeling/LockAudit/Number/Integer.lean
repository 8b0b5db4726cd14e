import LockAudit.Text.Digit

/-!
# Integers in decimal text

Integers have no bound, but their decimal texts do: a text of more than 4300
digits is neither read nor written. Everything that reads a number out of a
version, a lock file, a feed or a setting obeys this one limit, and so does
everything that writes one.
-/

namespace LockAudit.Number

/-- The most digits that a decimal text may have. -/
def digitLimit : Nat := 4300

/-- A decimal text over the limit: one that was to be read, with its number of
digits, or one that was to be written. -/
inductive Oversized where
  | read (digits : Nat)
  | written
  deriving DecidableEq, Repr

/-- What is said about a decimal text over the limit. -/
def Oversized.message : Oversized → String
  | .read digits =>
    "Exceeds the limit (" ++ toString digitLimit ++ " digits) for integer string conversion: value has "
      ++ toString digits ++ " digits; use sys.set_int_max_str_digits() to increase the limit"
  | .written =>
    "Exceeds the limit (" ++ toString digitLimit ++ " digits) for integer string conversion; " ++
      "use sys.set_int_max_str_digits() to increase the limit"

/-- The number that a run of digits spells. -/
def ofDigits (cs : List Char) : Except Oversized Nat :=
  if cs.length ≤ digitLimit then .ok (Text.digitsValue cs) else .error (.read cs.length)

/-- The number can be written: it has no more digits than the limit. -/
def isWritable (n : Nat) : Bool := n < Nat.pow 10 digitLimit

/-- The decimal text of an integer. -/
def write (n : Int) : Except Oversized String :=
  if isWritable n.natAbs then .ok (toString n) else .error .written

/-- White space around a number: all of it but the information separators. -/
def isBlank (c : Char) : Bool := Text.isBlank c && !(0x1c ≤ c.toNat && c.toNat ≤ 0x1f)

/-- A text without the white space around the number in it. -/
def strip (cs : List Char) : List Char :=
  ((cs.dropWhile isBlank).reverse.dropWhile isBlank).reverse

/-- A sign and what follows it; the sign is negative only for a minus. -/
def takeSign : List Char → Bool × List Char
  | '-' :: cs => (true, cs)
  | '+' :: cs => (false, cs)
  | cs => (false, cs)

/-- A text with the single underscores between digits taken out; none if an
underscore stands anywhere else. -/
def dropUnderscores (previous : Char) : List Char → Option (List Char)
  | [] => if previous = '_' then none else some []
  | c :: cs =>
    if c = '_' then
      if Text.isDigit previous then dropUnderscores c cs else none
    else if previous = '_' && !Text.isDigit c then none
    else (dropUnderscores c cs).map (c :: ·)

/-- The integer that a text spells, with an optional sign, white space around it
and underscores between its digits; none if it spells no integer. -/
def readInt (s : String) : Option (Except Oversized Int) := do
  let (negative, digits) := takeSign (strip s.toList)
  let digits ← dropUnderscores ' ' digits
  if digits.isEmpty || !digits.all Text.isDigit then none
  else some ((ofDigits digits).map fun n => if negative then -(n : Int) else n)

end LockAudit.Number
