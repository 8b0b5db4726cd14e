import LockAudit.Calendar.Iso
import LockAudit.Toml.Fault

/-!
# TOML strings, numbers, dates and times

Each reader takes the text from the value's first character on and gives back
what it has not used up. Carriage returns before line feeds are gone by then.
-/

namespace LockAudit.Toml

/-- White space within a line. -/
def isSpace (c : Char) : Bool := c = ' ' || c = '\t'

/-- White space within a line, or a line end. -/
def isSpaceOrNewline (c : Char) : Bool := isSpace c || c = '\n'

/-- The text from its first character that is no white space within a line. -/
def skip (cs : List Char) : List Char := cs.dropWhile isSpace

/-- A control character that stands in no comment and no string on one line. -/
def isIllegal (c : Char) : Bool := (c.toNat < 32 || c.toNat = 127) && c ≠ '\t'

/-- A control character that stands in no string over several lines. -/
def isIllegalMultiline (c : Char) : Bool := isIllegal c && c ≠ '\n'

/-- The text between here and the first occurrence of a closing quote, and what
follows the quote. A missing quote is complained about before a character that
must not stand in between. -/
def takeUntil (quote : List Char) (illegal : Char → Bool) (cs : List Char) :
    Except Fault (List Char × List Char) :=
  match Text.splitFirst? quote cs with
  | none => .error (.malformed (.expectedQuote (String.ofList quote)) [])
  | some (inside, rest) =>
    match inside.find? illegal with
    | some c => .error (.malformed (.invalidCharacter c) (cs.dropWhile (!illegal ·)))
    | none => .ok (inside, rest)

/-- The text after a comment, from the line end on. -/
def skipComment (cs : List Char) : Except Fault (List Char) :=
  match cs with
  | '#' :: rest =>
    match (rest.takeWhile (· ≠ '\n')).find? isIllegal with
    | some c => .error (.malformed (.invalidCharacter c) (rest.dropWhile (!isIllegal ·)))
    | none => .ok (rest.dropWhile (· ≠ '\n'))
  | cs => .ok cs

/-- White space, line ends and comments, as often as they alternate. The first
argument bounds the number of comments; the length of the text is enough. -/
def skipLinesWithin : Nat → List Char → Except Fault (List Char)
  | 0, cs => .ok cs
  | fuel + 1, cs => do
    match cs.dropWhile isSpaceOrNewline with
    | '#' :: rest => skipLinesWithin fuel (← skipComment ('#' :: rest))
    | rest => pure rest

/-- The text from its first character that is no white space, line end or
comment. -/
def skipLines (cs : List Char) : Except Fault (List Char) := skipLinesWithin cs.length cs

/-! ## Strings -/

/-- The character that a one-letter escape stands for. -/
def escape? : Char → Option Char
  | 'b' => some '\x08'
  | 't' => some '\t'
  | 'n' => some '\n'
  | 'f' => some '\x0c'
  | 'r' => some '\r'
  | '"' => some '"'
  | '\\' => some '\\'
  | _ => none

/-- A character given by a number of hexadecimal digits. -/
def readHexChar (width : Nat) (cs : List Char) : Except Fault (Char × List Char) :=
  let digits := cs.take width
  if digits.length = width ∧ digits.all Text.isHexDigit then
    let n := digits.foldl (fun n c => 16 * n + Text.hexValue c) 0
    let rest := cs.drop width
    if n < 0xd800 ∨ (0xe000 ≤ n ∧ n < 0x110000) then .ok (Char.ofNat n, rest)
    else .error (.malformed .notAScalarValue rest)
  else .error (.malformed .invalidHex cs)

/-- The text after a backslash that ends a line inside a string. -/
def skipLineEnd (c : Char) (rest : List Char) : Except Fault (List Char) :=
  if c = '\n' then .ok (rest.dropWhile isSpaceOrNewline)
  else match skip rest with
    | [] => .ok []
    | '\n' :: rest => .ok (rest.dropWhile isSpaceOrNewline)
    | rest => .error (.malformed .unescapedBackslash rest)

/-- What an escape stands for, after its backslash, and the text after it. -/
def readEscape (multiline : Bool) (cs : List Char) : Except Fault (List Char × List Char) :=
  match cs with
  | [] => .error (.malformed .unescapedBackslash [])
  | c :: rest =>
    if multiline && isSpaceOrNewline c then do pure ([], ← skipLineEnd c rest)
    else if c = 'u' then do
      let (c, rest) ← readHexChar 4 rest
      pure ([c], rest)
    else if c = 'U' then do
      let (c, rest) ← readHexChar 8 rest
      pure ([c], rest)
    else match escape? c with
      | some e => .ok ([e], rest)
      | none => .error (.malformed .unescapedBackslash rest)

/-- The characters of a double-quoted string up to its closing quote or quotes,
after those already read in reverse. The first argument bounds the number of
steps; the length of the text and one more are enough. -/
def readBasicWithin (multiline : Bool) :
    Nat → List Char → List Char → Except Fault (List Char × List Char)
  | 0, _, cs => .error (.malformed .unterminatedString cs)
  | fuel + 1, read, cs =>
    match cs with
    | [] => .error (.malformed .unterminatedString [])
    | '"' :: rest =>
      if !multiline then .ok (read.reverse, rest)
      else match rest with
        | '"' :: '"' :: rest => .ok (read.reverse, rest)
        | rest => readBasicWithin multiline fuel ('"' :: read) rest
    | '\\' :: rest => do
      let (cs, rest) ← readEscape multiline rest
      readBasicWithin multiline fuel (cs.reverse ++ read) rest
    | c :: rest =>
      if (if multiline then isIllegalMultiline c else isIllegal c) then
        .error (.malformed (.illegalCharacter c) (c :: rest))
      else readBasicWithin multiline fuel (c :: read) rest

/-- A double-quoted string after its opening quote or quotes. -/
def readBasic (multiline : Bool) (cs : List Char) : Except Fault (List Char × List Char) :=
  readBasicWithin multiline (cs.length + 1) [] cs

/-- Up to two more quotes before the closing ones belong to the string. -/
def takeExtraQuotes (quote : Char) (inside rest : List Char) : List Char × List Char :=
  match rest with
  | a :: b :: rest' =>
    if a = quote then
      if b = quote then (inside ++ [quote, quote], rest') else (inside ++ [quote], b :: rest')
    else (inside, rest)
  | [a] => if a = quote then (inside ++ [quote], []) else (inside, rest)
  | [] => (inside, rest)

/-- The text after a line end that follows the opening quotes at once. -/
def dropFirstNewline : List Char → List Char
  | '\n' :: rest => rest
  | cs => cs

/-- A string from its opening quote on; none if there is no quote. Keys use the
forms on one line only. -/
def readString? (forKey : Bool) (cs : List Char) : Option (Except Fault (String × List Char)) :=
  match cs with
  | '"' :: rest =>
    match forKey, rest with
    | false, '"' :: '"' :: rest => some do
      let (inside, rest) ← readBasic true (dropFirstNewline rest)
      let (inside, rest) := takeExtraQuotes '"' inside rest
      pure (String.ofList inside, rest)
    | _, rest => some do
      let (inside, rest) ← readBasic false rest
      pure (String.ofList inside, rest)
  | '\'' :: rest =>
    match forKey, rest with
    | false, '\'' :: '\'' :: rest => some do
      let (inside, rest) ← takeUntil ['\'', '\'', '\''] isIllegalMultiline (dropFirstNewline rest)
      let (inside, rest) := takeExtraQuotes '\'' inside rest
      pure (String.ofList inside, rest)
    | _, rest => some do
      let (inside, rest) ← takeUntil ['\''] isIllegal rest
      pure (String.ofList inside, rest)
  | _ => none

/-! ## Numbers -/

/-- Digits of some kind with single underscores between them, and the rest. A
first digit is required. -/
def takeGrouped (isDigit : Char → Bool) : List Char → List Char × List Char
  | [] => ([], [])
  | c :: rest => if isDigit c then go [c] rest else ([], c :: rest)
where
  /-- The digits after those already taken in reverse. -/
  go (taken : List Char) : List Char → List Char × List Char
    | '_' :: c :: rest => if isDigit c then go (c :: taken) rest else (taken.reverse, '_' :: c :: rest)
    | c :: rest => if isDigit c then go (c :: taken) rest else (taken.reverse, c :: rest)
    | [] => (taken.reverse, [])

/-- An integer in base sixteen, two or eight after its mark, and the rest. -/
def takeBased (base : Nat) (isDigit : Char → Bool) (cs : List Char) : Option (Value × List Char) :=
  let (digits, rest) := takeGrouped isDigit cs
  if digits.isEmpty then none
  else some (.int (digits.foldl (fun n c => base * n + Text.hexValue c) 0 : Nat), rest)

/-- The digits of a decimal integer: a zero alone, or no leading zero. -/
def takeWhole : List Char → Option (List Char × List Char)
  | '0' :: rest => some (['0'], rest)
  | cs =>
    let (digits, rest) := takeGrouped Text.isAsciiDigit cs
    if digits.isEmpty then none else some (digits, rest)

/-- A decimal point and the digits after it, if there are any. -/
def takeFraction : List Char → List Char × List Char
  | '.' :: rest =>
    let (digits, after) := takeGrouped Text.isAsciiDigit rest
    if digits.isEmpty then ([], '.' :: rest) else (digits, after)
  | cs => ([], cs)

/-- An exponent with its sign, if there is one with a digit. -/
def takeExponent : List Char → Option (Bool × List Char) × List Char
  | c :: rest =>
    if c = 'e' || c = 'E' then
      let (negative, after) := Number.takeSign rest
      let (digits, after) := takeGrouped Text.isAsciiDigit after
      if digits.isEmpty then (none, c :: rest) else (some (negative, digits), after)
    else (none, c :: rest)
  | [] => (none, [])

/-- A decimal number; none if the text starts with none. -/
def readDecimal? (cs : List Char) : Option (Except Fault (Value × List Char)) := do
  let (negative, body) := Number.takeSign cs
  let (whole, rest) ← takeWhole body
  let (fraction, rest) := takeFraction rest
  let (exponent, rest) := takeExponent rest
  if fraction.isEmpty && exponent.isNone then
    match Number.ofDigits whole with
    | .ok n => some (.ok (.int (if negative then -n else n), rest))
    | .error e => some (.error (.oversized e))
  else
    let power : Int := match exponent with
      | some (minus, digits) =>
        if minus then -(Text.digitsValue digits : Int) else Text.digitsValue digits
      | none => 0
    some (.ok (.float (Number.Scientific.toFloat negative ⟨whole, fraction, power⟩), rest))

/-- A number; none if the text starts with none. -/
def readNumber? (cs : List Char) : Option (Except Fault (Value × List Char)) :=
  let based := match cs with
    | '0' :: 'x' :: rest => takeBased 16 Text.isHexDigit rest
    | '0' :: 'b' :: rest => takeBased 2 (fun c => c = '0' || c = '1') rest
    | '0' :: 'o' :: rest => takeBased 8 (fun c => '0' ≤ c && c ≤ '7') rest
    | _ => none
  match based with
  | some found => some (.ok found)
  | none => readDecimal? cs

/-- The infinities and the value that is not a number, with their signs. -/
def specialFloats : List (String × Value) := [
  ("inf", .float Number.infinity), ("nan", .float Number.notANumber),
  ("+inf", .float Number.infinity), ("-inf", .float (-Number.infinity)),
  ("+nan", .float Number.notANumber), ("-nan", .float (-Number.notANumber))]

/-! ## Dates and times -/

/-- A number of a given width within bounds, and the rest. -/
def takeField (width low high : Nat) (cs : List Char) : Option (Nat × List Char) := do
  let (n, rest) ← Calendar.Iso.takeDigits width cs
  if low ≤ n ∧ n ≤ high then some (n, rest) else none

/-- The text after an expected character. -/
def takeChar (c : Char) (cs : List Char) : Option (List Char) :=
  if cs.head? = some c then some cs.tail else none

/-- A fraction of a second, cut to microseconds, if there is one. -/
def takeMicros (cs : List Char) : Nat × List Char :=
  match cs with
  | '.' :: rest =>
    let digits := rest.takeWhile Text.isAsciiDigit
    if digits.isEmpty then (0, cs)
    else
      let kept := digits.take 6
      (Text.digitsValue kept * Nat.pow 10 (6 - kept.length), rest.drop digits.length)
  | cs => (0, cs)

/-- A clock time with seconds. -/
def takeTime (cs : List Char) : Option (Calendar.Time × List Char) := do
  let (hour, rest) ← takeField 2 0 23 cs
  let (minute, rest) ← takeField 2 0 59 (← takeChar ':' rest)
  let (second, rest) ← takeField 2 0 59 (← takeChar ':' rest)
  let (micro, rest) := takeMicros rest
  let time ← (Calendar.Time.of hour minute second micro).toOption
  some (time, rest)

/-- An offset in microseconds, if there is one. -/
def takeOffset (cs : List Char) : Option Int × List Char :=
  match cs with
  | [] => (none, [])
  | c :: rest =>
    if c = 'Z' || c = 'z' then (some 0, rest)
    else if c = '+' || c = '-' then
      match (do
        let (hour, rest) ← takeField 2 0 23 rest
        let (minute, rest) ← takeField 2 0 59 (← takeChar ':' rest)
        some (hour, minute, rest) : Option (Nat × Nat × List Char)) with
      | some (hour, minute, rest) =>
        let size : Int := (hour * 60 + minute) * 60000000
        (some (if c = '-' then -size else size), rest)
      | none => (none, cs)
    else (none, cs)

/-- The clock time and offset after a date, if there is a clock time. -/
def takeClock (cs : List Char) : Option (Calendar.Time × Option Int × List Char) :=
  match cs with
  | c :: rest =>
    if c = 'T' || c = 't' || c = ' ' then do
      let (time, rest) ← takeTime rest
      let (offset, rest) := takeOffset rest
      some (time, offset, rest)
    else none
  | [] => none

/-- A date or a timestamp; none if the text starts with none. -/
def readDate? (cs : List Char) : Option (Except Fault (Value × List Char)) := do
  let (year, rest) ← Calendar.Iso.takeDigits 4 cs
  let (month, rest) ← takeField 2 1 12 (← takeChar '-' rest)
  let (day, rest) ← takeField 2 1 31 (← takeChar '-' rest)
  match Calendar.Date.of year month day with
  | .error _ => some (.error (.malformed .invalidDate cs))
  | .ok date =>
    match takeClock rest with
    | some (time, offset, rest) => some (.ok (.dateTime ⟨date, time, offset⟩, rest))
    | none => some (.ok (.date date, rest))

/-- A literal, a date, a time or a number. -/
def readScalar (cs : List Char) : Except Fault (Value × List Char) :=
  if "true".toList.isPrefixOf cs then .ok (.bool true, cs.drop 4)
  else if "false".toList.isPrefixOf cs then .ok (.bool false, cs.drop 5)
  else match readDate? cs with
  | some result => result
  | none => match takeTime cs with
    | some (time, rest) => .ok (.time time, rest)
    | none => match readNumber? cs with
      | some result => result
      | none => match specialFloats.find? fun l => l.1.toList.isPrefixOf cs with
        | some (name, value) => .ok (value, cs.drop name.length)
        | none => .error (.malformed .invalidValue cs)

end LockAudit.Toml
