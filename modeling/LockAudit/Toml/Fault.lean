import LockAudit.Json.Decode

/-!
# Defects of TOML texts

A defect is shown with the place where it was found: line and column, or the end
of the document. Keys are shown as they were given, part by part.
-/

namespace LockAudit.Toml

/-- A dotted key, part by part. -/
abbrev Key := List String

/-- The written form of a key in messages: its quoted parts between parentheses,
with a comma after a part that stands alone. -/
def Key.shown (k : Key) : String :=
  match k with
  | [part] => "(" ++ Text.quote part ++ ",)"
  | parts => "(" ++ ", ".intercalate (parts.map Text.quote) ++ ")"

/-- What is wrong with a text that is no TOML. -/
inductive Defect where
  | invalidStatement
  | invalidValue
  | invalidDate
  | invalidHex
  | notAScalarValue
  | invalidKeyStart
  | expectedEquals
  | expectedTableEnd
  | expectedArrayTableEnd
  | expectedLineEnd
  | expectedQuote (quote : String)
  | declaredTwice (key : Key)
  | redefined (key : Key)
  | overwritten
  | immutable (key : Key)
  | duplicateInlineKey (name : String)
  | unclosedArray
  | unclosedInlineTable
  | unterminatedString
  | unescapedBackslash
  | illegalCharacter (c : Char)
  | invalidCharacter (c : Char)
  deriving DecidableEq, Repr

/-- What is said about a text that is no TOML. -/
def Defect.message : Defect → String
  | .invalidStatement => "Invalid statement"
  | .invalidValue => "Invalid value"
  | .invalidDate => "Invalid date or datetime"
  | .invalidHex => "Invalid hex value"
  | .notAScalarValue => "Escaped character is not a Unicode scalar value"
  | .invalidKeyStart => "Invalid initial character for a key part"
  | .expectedEquals => "Expected '=' after a key in a key/value pair"
  | .expectedTableEnd => "Expected ']' at the end of a table declaration"
  | .expectedArrayTableEnd => "Expected ']]' at the end of an array declaration"
  | .expectedLineEnd => "Expected newline or end of document after a statement"
  | .expectedQuote quote => "Expected " ++ Text.quote quote
  | .declaredTwice key => "Cannot declare " ++ key.shown ++ " twice"
  | .redefined key => "Cannot redefine namespace " ++ key.shown
  | .overwritten => "Cannot overwrite a value"
  | .immutable key => "Cannot mutate immutable namespace " ++ key.shown
  | .duplicateInlineKey name => "Duplicate inline table key " ++ Text.quote name
  | .unclosedArray => "Unclosed array"
  | .unclosedInlineTable => "Unclosed inline table"
  | .unterminatedString => "Unterminated string"
  | .unescapedBackslash => "Unescaped '\\' in a string"
  | .illegalCharacter c => "Illegal character " ++ Text.quote (String.singleton c)
  | .invalidCharacter c => "Found invalid character " ++ Text.quote (String.singleton c)

/-- Why a text cannot be read: a defect at a suffix of it, or a number that is
too long. -/
inductive Fault where
  | malformed (defect : Defect) (rest : List Char)
  | oversized (cause : Number.Oversized)
  deriving DecidableEq

/-- Where a suffix of a document starts; none if it is empty. -/
def place? (document rest : List Char) : Option (Nat × Nat) :=
  if rest.isEmpty then none else some (Text.lineAt document rest, Text.columnAt document rest)

/-- What is said about a defect at a suffix of a document. -/
def describe (document : List Char) (defect : Defect) (rest : List Char) : String :=
  defect.message ++ " (at " ++
    (match place? document rest with
      | some (line, column) => "line " ++ toString line ++ ", column " ++ toString column
      | none => "end of document") ++ ")"

end LockAudit.Toml
