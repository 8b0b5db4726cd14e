import LockAudit.Version.Range

/-!
# Range expressions

A range is written as groups with `||` between them, a group as clauses with
commas between them, and a clause is a `*`, or a version with an operator before
it or none. Versions may leave out their minor and patch numbers. The caret and
the tilde stand for two comparators each: the version itself as the lower bound,
and as the strict upper bound the next version that may break what the caret or
the tilde promises.

An expression is first cut into tokens, all of it, and then read; so a character
that belongs to no token is complained about before anything else.
-/

namespace LockAudit

namespace VersionRange

/-- Why a text is no range expression. -/
inductive Defect where
  | notText
  | unknownComparator (op : String)
  | unexpectedCharacter (c : Char)
  | unexpectedEnd
  | empty
  | expectedJoin (token : String)
  | expectedVersion (token : String)
  | invalidVersion (text : String)
  | partOfPartial (text : String)
  | version (cause : Version.Defect)
  deriving DecidableEq, Repr

/-- What is said about a text that is no range expression. -/
def Defect.reason : Defect → String
  | .notText => "expected a string"
  | .unknownComparator op => "unknown comparator " ++ Text.quote op
  | .unexpectedCharacter c => "unexpected character " ++ Text.quote (String.singleton c)
  | .unexpectedEnd => "unexpected end of expression"
  | .empty => "empty expression"
  | .expectedJoin token => "expected ',' or '||' before " ++ Text.quote token
  | .expectedVersion token => "expected a version, found " ++ Text.quote token
  | .invalidVersion text => "invalid version " ++ Text.quote text
  | .partOfPartial text => "pre-release or build on partial version " ++ Text.quote text
  | .version cause => cause.reason

/-- Why a range cannot be read: the text has a defect, or a number in it is too
long. -/
inductive Fault where
  | malformed (text : String) (defect : Defect)
  | oversized (cause : Number.Oversized)
  deriving DecidableEq, Repr

/-- What is said when a range cannot be read. -/
def Fault.message : Fault → String
  | .malformed text defect => "Malformed version range " ++ Text.quote text ++ ": " ++ defect.reason
  | .oversized cause => cause.message

/-! ## Tokens -/

/-- The operators that may stand before a version. -/
inductive Mark where
  | plain (op : Operator)
  | caret
  | tilde
  deriving DecidableEq, Repr

/-- The operators by their written forms. -/
def marks : List (String × Mark) := [
  ("=", .plain .eq), ("==", .plain .eq), ("<", .plain .lt), ("<=", .plain .le), (">", .plain .gt),
  (">=", .plain .ge), ("^", .caret), ("~", .tilde)]

/-- A token of an expression. -/
inductive Token where
  | or
  | and
  | op (text : String) (mark : Mark)
  | star
  | version (text : String)
  deriving DecidableEq, Repr

/-- The written form of a token. -/
def Token.text : Token → String
  | .or => "||"
  | .and => ","
  | .op text _ => text
  | .star => "*"
  | .version text => text

/-- A character of operators. -/
def isMarkChar (c : Char) : Bool :=
  c = '<' || c = '>' || c = '=' || c = '!' || c = '~' || c = '^'

/-- A character of versions. -/
def isVersionChar (c : Char) : Bool := Version.isPartChar c || c = '+'

/-- The tokens of a text. The first argument bounds their number; the length of
the text is enough. -/
def tokensWithin : Nat → List Char → Except Defect (List Token)
  | 0, _ => .ok []
  | fuel + 1, cs =>
    match cs.dropWhile Text.isBlank with
    | [] => .ok []
    | '|' :: '|' :: rest => do pure (.or :: (← tokensWithin fuel rest))
    | ',' :: rest => do pure (.and :: (← tokensWithin fuel rest))
    | '*' :: rest => do pure (.star :: (← tokensWithin fuel rest))
    | c :: rest =>
      if isMarkChar c then do
        let op := String.ofList (c :: rest.takeWhile isMarkChar)
        match marks.lookup op with
        | some mark => pure (.op op mark :: (← tokensWithin fuel (rest.dropWhile isMarkChar)))
        | none => throw (.unknownComparator op)
      else if isVersionChar c then do
        let version := String.ofList (c :: rest.takeWhile isVersionChar)
        pure (.version version :: (← tokensWithin fuel (rest.dropWhile isVersionChar)))
      else .error (.unexpectedCharacter c)

/-- The tokens of a text. -/
def tokens (cs : List Char) : Except Defect (List Token) := tokensWithin cs.length cs

/-! ## Clauses -/

/-- A version that may leave out numbers: which it gives, and the version with
zeros in place of those it does not give. -/
structure Partial where
  major : Nat
  minor : Option Nat
  patch : Option Nat
  version : Version
  deriving DecidableEq, Repr

/-- The partial version that a token spells. -/
def readPartial (whole text : String) : Except Fault Partial :=
  match Version.Written.read? text.toList with
  | none => .error (.malformed whole (.invalidVersion text))
  | some w =>
    if (w.pre.isSome || w.build.isSome) && w.numbers.length < 3 then
      .error (.malformed whole (.partOfPartial text))
    else match w.toVersion text with
      | .error (.malformed _ defect) => .error (.malformed whole (.version defect))
      | .error (.oversized e) => .error (.oversized e)
      | .ok v =>
        .ok ⟨v.major, w.numbers[1]?.map fun _ => v.minor, w.numbers[2]?.map fun _ => v.patch, v⟩

/-- The first version after those that a caret allows: the leftmost number that
is not zero, or the last number given, goes up by one. -/
def Partial.caretEnd (p : Partial) : Version :=
  match p.minor, p.patch with
  | none, _ => .release (p.major + 1) 0 0
  | some minor, patch =>
    if 0 < p.major then .release (p.major + 1) 0 0
    else match patch with
      | none => .release 0 (minor + 1) 0
      | some patch =>
        if 0 < minor then .release 0 (minor + 1) 0 else .release 0 0 (patch + 1)

/-- The first version after those that a tilde allows: the minor number, if it is
given, goes up by one, and else the major number. -/
def Partial.tildeEnd (p : Partial) : Version :=
  match p.minor with
  | none => .release (p.major + 1) 0 0
  | some minor => .release p.major (minor + 1) 0

/-- The comparators of a clause. -/
def Mark.expand (m : Mark) (p : Partial) : List Comparator :=
  match m with
  | .plain op => [⟨op, p.version⟩]
  | .caret => [⟨.ge, p.version⟩, ⟨.lt, p.caretEnd⟩]
  | .tilde => [⟨.ge, p.version⟩, ⟨.lt, p.tildeEnd⟩]

/-- The comparators of a clause at the start of the tokens, and the tokens after
it. -/
def readClause (whole : String) : List Token → Except Fault (List Comparator × List Token)
  | [] => .error (.malformed whole .unexpectedEnd)
  | .star :: rest => .ok ([], rest)
  | .version text :: rest => do pure ((Mark.plain .eq).expand (← readPartial whole text), rest)
  | .op _ mark :: .version text :: rest => do pure (mark.expand (← readPartial whole text), rest)
  | [.op _ _] => .error (.malformed whole .unexpectedEnd)
  | .op _ _ :: token :: _ => .error (.malformed whole (.expectedVersion token.text))
  | token :: _ => .error (.malformed whole (.expectedVersion token.text))

/-- The groups of an expression from a clause on, after the finished groups and
the comparators of the unfinished one. The first argument bounds the number of
clauses; the number of tokens is enough. -/
def readGroups (whole : String) : Nat → List Group → Group → List Token → Except Fault (List Group)
  | 0, _, _, _ => .error (.malformed whole .unexpectedEnd)
  | fuel + 1, done, clauses, tokens => do
    let (comparators, rest) ← readClause whole tokens
    let clauses := clauses ++ comparators
    match rest with
    | [] => pure (done ++ [clauses])
    | .and :: rest => readGroups whole fuel done clauses rest
    | .or :: rest => readGroups whole fuel (done ++ [clauses]) [] rest
    | token :: _ => throw (.malformed whole (.expectedJoin token.text))

/-- The range that an expression spells. -/
def parse (text : String) : Except Fault VersionRange :=
  match tokens text.toList with
  | .error defect => .error (.malformed text defect)
  | .ok [] => .error (.malformed text .empty)
  | .ok ts => do pure ⟨← readGroups text (ts.length + 1) [] [] ts, Text.strip text⟩

/-- The union of the ranges that some expressions spell, after a given range. -/
def parseAllAfter (r : VersionRange) : List String → Except Fault VersionRange
  | [] => .ok r
  | text :: texts => do parseAllAfter (r.union (← parse text)) texts

/-- The union of the ranges that some expressions spell. -/
def parseAll (texts : List String) : Except Fault VersionRange := parseAllAfter .empty texts

/-- The range that a value spells; only texts do. -/
def ofValue (v : Value) : Except Fault VersionRange :=
  match v with
  | .text s => parse s
  | v => match v.describe with
    | .ok shown => .error (.malformed shown .notText)
    | .error e => .error (.oversized e)

end VersionRange

end LockAudit
