import LockAudit.Value
import LockAudit.Text.Lines

/-!
# Reading JSON

The reader works on the characters that are left: every step gives back what it
has not used up, so the place of a fault is the suffix at which it was found, and
a line number is a matter of counting line feeds in front of it.

Beyond the standard, the names of the infinities and of the value that is not a
number are read, and of fields with one name the last counts.
-/

namespace LockAudit.Json

/-- What is wrong with a text that is no JSON. -/
inductive Defect where
  | expectedValue
  | expectedName
  | expectedColon
  | expectedComma
  | extraData
  | unterminatedString
  | controlCharacter
  | badEscape
  | badUnicodeEscape
  | byteOrderMark
  deriving DecidableEq, Repr

/-- What is said about a text that is no JSON. -/
def Defect.message : Defect → String
  | .expectedValue => "Expecting value"
  | .expectedName => "Expecting property name enclosed in double quotes"
  | .expectedColon => "Expecting ':' delimiter"
  | .expectedComma => "Expecting ',' delimiter"
  | .extraData => "Extra data"
  | .unterminatedString => "Unterminated string starting at"
  | .controlCharacter => "Invalid control character at"
  | .badEscape => "Invalid \\escape"
  | .badUnicodeEscape => "Invalid \\uXXXX escape"
  | .byteOrderMark => "Unexpected UTF-8 BOM (decode using utf-8-sig)"

/-- Why a text cannot be read: a defect at a suffix of it, or a number that is
too long. -/
inductive Fault where
  | malformed (defect : Defect) (rest : List Char)
  | oversized (cause : Number.Oversized)
  deriving DecidableEq

/-- White space between tokens. -/
def isSpace (c : Char) : Bool := c = ' ' || c = '\t' || c = '\r' || c = '\n'

/-- The text from its first character that is not white space. -/
def skip (cs : List Char) : List Char := cs.dropWhile isSpace

/-! ## Strings -/

/-- The character that a one-letter escape stands for. -/
def escape? : Char → Option Char
  | '"' => some '"'
  | '\\' => some '\\'
  | '/' => some '/'
  | 'b' => some '\x08'
  | 'f' => some '\x0c'
  | 'n' => some '\n'
  | 'r' => some '\r'
  | 't' => some '\t'
  | _ => none

/-- The code unit that four hexadecimal digits spell. -/
def unit? (a b c d : Char) : Option Nat :=
  if [a, b, c, d].all Text.isHexDigit then
    some (((Text.hexValue a * 16 + Text.hexValue b) * 16 + Text.hexValue c) * 16 + Text.hexValue d)
  else none

/-- The unit is the first half of a pair. -/
def isHighUnit (n : Nat) : Bool := 0xd800 ≤ n && n < 0xdc00

/-- The unit is the second half of a pair. -/
def isLowUnit (n : Nat) : Bool := 0xdc00 ≤ n && n < 0xe000

/-- The character of a unit that is not part of a pair. Half a pair alone is no character,
and U+FFFD stands for it; an output may refuse a text on its account. -/
def unitChar (n : Nat) : Char :=
  if isHighUnit n || isLowUnit n then '\ufffd' else Char.ofNat n

/-- The character of a pair of units. -/
def pairChar (high low : Nat) : Char :=
  Char.ofNat (0x10000 + (high - 0xd800) * 0x400 + (low - 0xdc00))

/-- The characters read so far in reverse, with a first half of a pair that found
no second half. -/
def flush (pending : Option Nat) (read : List Char) : List Char :=
  match pending with
  | some n => unitChar n :: read
  | none => read

/-- One more unit: it completes a pair, starts one, or stands alone. -/
def addUnit (pending : Option Nat) (read : List Char) (n : Nat) : Option Nat × List Char :=
  match pending with
  | some high =>
    if isLowUnit n then (none, pairChar high n :: read)
    else if isHighUnit n then (some n, unitChar high :: read)
    else (none, unitChar n :: unitChar high :: read)
  | none => if isHighUnit n then (some n, read) else (none, unitChar n :: read)

/-- The characters of a string up to its closing quote, after those already read
in reverse and perhaps the first half of a pair. `start` is the text from the
opening quote on. -/
def readChars (start : List Char) (pending : Option Nat) (read : List Char) :
    List Char → Except Fault (List Char × List Char)
  | [] => .error (.malformed .unterminatedString start)
  | '"' :: rest => .ok ((flush pending read).reverse, rest)
  | '\\' :: [] => .error (.malformed .unterminatedString start)
  | '\\' :: 'u' :: a :: b :: c :: d :: rest =>
    -- Four digits at the very end of the text are refused before they are read.
    if rest.isEmpty then .error (.malformed .badUnicodeEscape [a, b, c, d])
    else match unit? a b c d with
      | none => .error (.malformed .badUnicodeEscape ('u' :: a :: b :: c :: d :: rest))
      | some n =>
        let (pending, read) := addUnit pending read n
        readChars start pending read rest
  | '\\' :: c :: rest =>
    if c = 'u' then .error (.malformed .badUnicodeEscape rest)
    else match escape? c with
      | some e => readChars start none (e :: flush pending read) rest
      | none => .error (.malformed .badEscape ('\\' :: c :: rest))
  | c :: rest =>
    if c.toNat < 0x20 then .error (.malformed .controlCharacter (c :: rest))
    else readChars start none (c :: flush pending read) rest

/-- A string after its opening quote. -/
def readString (rest : List Char) : Except Fault (String × List Char) := do
  let (cs, rest) ← readChars ('"' :: rest) none [] rest
  pure (String.ofList cs, rest)

/-! ## Numbers -/

/-- The integer part of a number: a zero, or digits without a leading zero. -/
def takeWhole : List Char → Option (List Char × List Char)
  | '0' :: rest => some (['0'], rest)
  | cs =>
    let digits := cs.takeWhile Text.isAsciiDigit
    if digits.isEmpty then none else some (digits, cs.drop digits.length)

/-- A decimal point and the digits after it, if there are any. -/
def takeFraction : List Char → List Char × List Char
  | '.' :: rest =>
    let digits := rest.takeWhile Text.isAsciiDigit
    if digits.isEmpty then ([], '.' :: rest) else (digits, rest.drop digits.length)
  | cs => ([], cs)

/-- An exponent with its sign, if there is one with a digit. -/
def takeExponent : List Char → Option (Bool × List Char) × List Char
  | c :: rest =>
    if c = 'e' || c = 'E' then
      let (negative, after) := Number.takeSign rest
      let digits := after.takeWhile Text.isAsciiDigit
      if digits.isEmpty then (none, c :: rest)
      else (some (negative, digits), after.drop digits.length)
    else (none, c :: rest)
  | [] => (none, [])

/-- A number: a double if it has a fraction or an exponent, an integer if not. -/
def readNumber (cs : List Char) : Except Fault (Value × List Char) :=
  let (negative, body) := match cs with
    | '-' :: rest => (true, rest)
    | _ => (false, cs)
  match takeWhole body with
  | none => .error (.malformed .expectedValue cs)
  | some (whole, rest) =>
    let (fraction, rest) := takeFraction rest
    let (exponent, rest) := takeExponent rest
    if fraction.isEmpty && exponent.isNone then
      match Number.ofDigits whole with
      | .ok n => .ok (.int (if negative then -n else n), rest)
      | .error e => .error (.oversized e)
    else
      let power : Int := match exponent with
        | some (minus, digits) =>
          if minus then -(Text.digitsValue digits : Int) else Text.digitsValue digits
        | none => 0
      .ok (.float (Number.Scientific.toFloat negative ⟨whole, fraction, power⟩), rest)

/-! ## Values -/

/-- The literals and their values. -/
def literals : List (String × Value) := [
  ("null", .null), ("true", .bool true), ("false", .bool false), ("NaN", .float Number.notANumber),
  ("Infinity", .float Number.infinity), ("-Infinity", .float (-Number.infinity))]

/-- A literal or a number. -/
def readScalar (cs : List Char) : Except Fault (Value × List Char) :=
  match literals.find? fun l => l.1.toList.isPrefixOf cs with
  | some (name, value) => .ok (value, cs.drop name.length)
  | none => readNumber cs

mutual

/-- A value. The first argument bounds the nesting and the number of items; twice
the length of the text is enough. -/
def readValue : Nat → List Char → Except Fault (Value × List Char)
  | 0, cs => .error (.malformed .expectedValue cs)
  | fuel + 1, cs =>
    match cs with
    | '"' :: rest => do
      let (s, rest) ← readString rest
      pure (.text s, rest)
    | '\x7b' :: rest =>
      match skip rest with
      | '\x7d' :: rest => .ok (.table [], rest)
      | rest => readFields fuel [] rest
    | '[' :: rest =>
      match skip rest with
      | ']' :: rest => .ok (.list [], rest)
      | rest => readItems fuel [] rest
    | cs => readScalar cs

/-- The items of a list from one item on, after those already read in reverse. -/
def readItems : Nat → List Value → List Char → Except Fault (Value × List Char)
  | 0, _, cs => .error (.malformed .expectedValue cs)
  | fuel + 1, read, cs => do
    let (item, rest) ← readValue fuel cs
    match skip rest with
    | ']' :: rest => pure (.list (item :: read).reverse, rest)
    | ',' :: rest => readItems fuel (item :: read) (skip rest)
    | rest => throw (.malformed .expectedComma rest)

/-- The fields of a table from one field on, after those already read. -/
def readFields : Nat → List (String × Value) → List Char → Except Fault (Value × List Char)
  | 0, _, cs => .error (.malformed .expectedName cs)
  | fuel + 1, read, cs =>
    match cs with
    | '"' :: rest => do
      let (name, rest) ← readString rest
      match skip rest with
      | ':' :: rest => do
        let (value, rest) ← readValue fuel (skip rest)
        let read := Value.setField name value read
        match skip rest with
        | '\x7d' :: rest => pure (.table read, rest)
        | ',' :: rest => readFields fuel read (skip rest)
        | rest => throw (.malformed .expectedComma rest)
      | rest => throw (.malformed .expectedColon rest)
    | cs => .error (.malformed .expectedName cs)

end

/-- A value at the start of a text, and what is left of the text. -/
def readFirst (cs : List Char) : Except Fault (Value × List Char) := readValue (2 * cs.length + 2) cs

/-- The value that a text spells, with nothing but white space around it. -/
def decode (cs : List Char) : Except Fault Value :=
  if cs.head? = some '\ufeff' then .error (.malformed .byteOrderMark cs)
  else do
    let (value, rest) ← readFirst (skip cs)
    match skip rest with
    | [] => pure value
    | rest => throw (.malformed .extraData rest)

end LockAudit.Json
