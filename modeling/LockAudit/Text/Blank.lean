/-!
# White space

Names, versions and references are read with the white space around them
removed, and a reference is cut into words at white space. White space here is
the full Unicode set, with the four information separators of ASCII.
-/

namespace LockAudit.Text

/-- A set of characters, given by the first and last code point of each run. -/
abbrev Ranges := List (Nat × Nat)

/-- The character lies in one of the runs. -/
def Ranges.contains (t : Ranges) (c : Char) : Bool :=
  t.any fun r => r.1 ≤ c.toNat && c.toNat ≤ r.2

/-- The runs of white-space characters. -/
def blankRanges : Ranges := [
  (0x9, 0xd), (0x1c, 0x20), (0x85, 0x85), (0xa0, 0xa0), (0x1680, 0x1680), (0x2000, 0x200a),
  (0x2028, 0x2029), (0x202f, 0x202f), (0x205f, 0x205f), (0x3000, 0x3000)]

/-- The character is white space. -/
def isBlank (c : Char) : Bool := blankRanges.contains c

/-- A text without the white space at either end. -/
def stripList (cs : List Char) : List Char :=
  ((cs.dropWhile isBlank).reverse.dropWhile isBlank).reverse

/-- A text without the white space at either end. -/
def strip (s : String) : String := String.ofList (stripList s.toList)

/-- A text that is empty or holds white space alone. -/
def isBlankText (s : String) : Bool := (stripList s.toList).isEmpty

/-- The words of a text, after the characters of an unfinished word in reverse. -/
def wordsAfter (word : List Char) : List Char → List (List Char)
  | [] => if word.isEmpty then [] else [word.reverse]
  | c :: cs =>
    if isBlank c then
      if word.isEmpty then wordsAfter [] cs else word.reverse :: wordsAfter [] cs
    else wordsAfter (c :: word) cs

/-- The maximal runs of characters that are not white space. -/
def words (s : String) : List String := (wordsAfter [] s.toList).map String.ofList

/-- The pieces of a text between occurrences of a character; one more than there
are occurrences. -/
def splitOn (sep : Char) : List Char → List (List Char)
  | [] => [[]]
  | c :: cs =>
    if c = sep then [] :: splitOn sep cs
    else match splitOn sep cs with
      | [] => [[c]]
      | piece :: pieces => (c :: piece) :: pieces

/-- The text on either side of the first occurrence of a separator. -/
def splitFirst? (sep : List Char) : List Char → Option (List Char × List Char)
  | [] => if sep.isEmpty then some ([], []) else none
  | c :: cs =>
    if sep.isPrefixOf (c :: cs) then some ([], (c :: cs).drop sep.length)
    else (splitFirst? sep cs).map fun (before, after) => (c :: before, after)

/-- Every occurrence of a character replaced by a text. -/
def replaceChar (old : Char) (new : List Char) (cs : List Char) : List Char :=
  cs.flatMap fun c => if c = old then new else [c]

end LockAudit.Text
