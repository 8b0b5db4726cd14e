import LockAudit.Version.Basic
import LockAudit.Value

/-!
# Reading versions

`Written` is a version as it was written: one to three numbers, and perhaps a
pre-release and a build part, all still text. Versions proper need all three
numbers; ranges also use the shorter forms.

A number is a zero, or a plain digit from one to nine followed by digits of any
script. What remains to be checked after cutting a text into its parts is that no
identifier is empty, that no numeric identifier has a leading zero, and that no
number is too long.
-/

namespace LockAudit.Version

/-- Why a text is no version. -/
inductive Defect where
  | notSemantic
  | notText
  | badPrerelease (part : String)
  | leadingZero (part : String)
  | badBuild (part : String)
  deriving DecidableEq, Repr

/-- What is said about a text that is no version. -/
def Defect.reason : Defect → String
  | .notSemantic => "not a semantic version"
  | .notText => "expected a string"
  | .badPrerelease part => "invalid pre-release identifier " ++ Text.quote part
  | .leadingZero part => "numeric identifier " ++ Text.quote part ++ " has a leading zero"
  | .badBuild part => "invalid build identifier " ++ Text.quote part

/-- Why a version cannot be read: the text has a defect, or a number in it is too
long. -/
inductive Fault where
  | malformed (text : String) (defect : Defect)
  | oversized (cause : Number.Oversized)
  deriving DecidableEq, Repr

/-- What is said when a version cannot be read. -/
def Fault.message : Fault → String
  | .malformed text defect => "Malformed version " ++ Text.quote text ++ ": " ++ defect.reason
  | .oversized cause => cause.message

/-- A character of identifiers: a plain letter or digit, or a dash. -/
def isIdentifierChar (c : Char) : Bool :=
  Text.isAsciiDigit c || ('A' ≤ c && c ≤ 'Z') || ('a' ≤ c && c ≤ 'z') || c = '-'

/-- A character of a pre-release or build part. -/
def isPartChar (c : Char) : Bool := isIdentifierChar c || c = '.'

/-- A version as written, cut into its parts. -/
structure Written where
  numbers : List (List Char)
  pre : Option (List Char)
  build : Option (List Char)
  deriving DecidableEq

/-- A number at the start of a text. -/
def takeNumber : List Char → Option (List Char × List Char)
  | [] => none
  | c :: rest =>
    if c = '0' then some (['0'], rest)
    else if '1' ≤ c ∧ c ≤ '9' then some (c :: rest.takeWhile Text.isDigit, rest.dropWhile Text.isDigit)
    else none

/-- Up to so many numbers with dots between them. -/
def takeNumbers : Nat → List Char → Option (List (List Char) × List Char)
  | 0, _ => none
  | 1, cs => do
    let (n, rest) ← takeNumber cs
    some ([n], rest)
  | more + 2, cs => do
    let (n, rest) ← takeNumber cs
    match rest with
    | '.' :: after =>
      let (ns, rest) ← takeNumbers (more + 1) after
      some (n :: ns, rest)
    | _ => some ([n], rest)

/-- A part after its mark, if the mark is there; a part is not empty. -/
def takePart (mark : Char) : List Char → Option (Option (List Char) × List Char)
  | [] => some (none, [])
  | c :: rest =>
    if c = mark then
      if (rest.takeWhile isPartChar).isEmpty then none
      else some (some (rest.takeWhile isPartChar), rest.dropWhile isPartChar)
    else some (none, c :: rest)

/-- A version as written, if the whole text has that form. -/
def Written.read? (cs : List Char) : Option Written := do
  let (numbers, rest) ← takeNumbers 3 cs
  let (pre, rest) ← takePart '-' rest
  let (build, rest) ← takePart '+' rest
  if rest.isEmpty then some ⟨numbers, pre, build⟩ else none

/-- One identifier of a pre-release. `whole` is the text that a complaint names. -/
def readIdentifier (whole : String) (part : List Char) : Except Fault Identifier :=
  if part.isEmpty || !part.all isIdentifierChar then
    .error (.malformed whole (.badPrerelease (String.ofList part)))
  else if part.all Text.isAsciiDigit then
    if 1 < part.length ∧ part.head? = some '0' then
      .error (.malformed whole (.leadingZero (String.ofList part)))
    else match Number.ofDigits part with
      | .ok n => .ok (.number n)
      | .error e => .error (.oversized e)
  else .ok (.word (String.ofList part))

/-- The identifiers of a pre-release part. -/
def readPre (whole : String) : Option (List Char) → Except Fault (List Identifier)
  | none => .ok []
  | some cs => (Text.splitOn '.' cs).mapM (readIdentifier whole)

/-- One build identifier. -/
def readBuildPart (whole : String) (part : List Char) : Except Fault String :=
  if part.isEmpty || !part.all isIdentifierChar then
    .error (.malformed whole (.badBuild (String.ofList part)))
  else .ok (String.ofList part)

/-- The identifiers of a build part. -/
def readBuild (whole : String) : Option (List Char) → Except Fault (List String)
  | none => .ok []
  | some cs => (Text.splitOn '.' cs).mapM (readBuildPart whole)

/-- The number that digits spell, a missing number being zero. -/
def readNumber (digits : Option (List Char)) : Except Fault Nat :=
  (Number.ofDigits (digits.getD [])).mapError .oversized

/-- The version that was written; missing numbers are zero. -/
def Written.toVersion (whole : String) (w : Written) : Except Fault Version := do
  let major ← readNumber w.numbers[0]?
  let minor ← readNumber w.numbers[1]?
  let patch ← readNumber w.numbers[2]?
  let pre ← readPre whole w.pre
  let build ← readBuild whole w.build
  pure { major, minor, patch, pre, build }

/-- The version that a text spells, with white space around it allowed. -/
def parse (text : String) : Except Fault Version :=
  match Written.read? (Text.stripList text.toList) with
  | none => .error (.malformed text .notSemantic)
  | some w =>
    if w.numbers.length = 3 then w.toVersion (Text.strip text)
    else .error (.malformed text .notSemantic)

/-- The version that a value spells; only texts do. -/
def ofValue (v : Value) : Except Fault Version :=
  match v with
  | .text s => parse s
  | v => match v.describe with
    | .ok shown => .error (.malformed shown .notText)
    | .error e => .error (.oversized e)

end LockAudit.Version
