import LockAudit.Text.Blank

/-!
# Glob patterns

A star stands for any text, a question mark for any character, slashes and line
ends included. A set in brackets stands for one of its characters, or with an
exclamation mark for any other; a bracket that is not closed is itself.

In a set a hyphen between two characters makes a range, unless the character
before it has already ended one. A range whose ends are in the wrong order counts
for nothing, so that an exclamation mark after it may stand at the front of the
set. A closing bracket at the front of a set belongs to it.
-/

namespace LockAudit.File.Glob

/-- One piece of a pattern. A set is a list of ranges. -/
inductive Piece where
  | star
  | any
  | set (negated : Bool) (ranges : List (Char × Char))
  | char (c : Char)
  deriving DecidableEq, Repr

/-- The ranges of a set, each character a range of its own. -/
def setRanges : List Char → List (Char × Char)
  | a :: '-' :: b :: rest => if a ≤ b then (a, b) :: setRanges rest else setRanges rest
  | c :: rest => (c, c) :: setRanges rest
  | [] => []

/-- What stands between the brackets of a set, after the opening one, and the
pattern after the closing one. -/
def takeSet (cs : List Char) : Option (List Char × List Char) :=
  let (mark, cs) := match cs with
    | '!' :: rest => (['!'], rest)
    | cs => ([], cs)
  let (first, cs) := match cs with
    | ']' :: rest => ([']'], rest)
    | cs => ([], cs)
  match Text.splitFirst? [']'] cs with
  | some (inside, rest) => some (mark ++ first ++ inside, rest)
  | none => none

/-- The inside of a set without the empty ranges at its front. -/
def dropEmptyRanges : List Char → List Char
  | a :: '-' :: b :: rest => if a ≤ b then a :: '-' :: b :: rest else dropEmptyRanges rest
  | cs => cs

/-- The piece for a set whose mark has not been taken off. -/
def markedSet : List Char → Piece
  | '!' :: inside => .set true (setRanges inside)
  | inside => .set false (setRanges inside)

/-- The piece for what stands between brackets. -/
def setPiece : List Char → Piece
  | '!' :: inside => .set true (setRanges inside)
  | inside => markedSet (dropEmptyRanges inside)

/-- The pieces of a pattern. The first argument bounds their number; the length
of the pattern is enough. -/
def piecesWithin : Nat → List Char → List Piece
  | 0, _ => []
  | _, [] => []
  | fuel + 1, c :: rest =>
    if c = '*' then .star :: piecesWithin fuel rest
    else if c = '?' then .any :: piecesWithin fuel rest
    else if c = '[' then
      match takeSet rest with
      | some (inside, rest) => setPiece inside :: piecesWithin fuel rest
      | none => .char c :: piecesWithin fuel rest
    else .char c :: piecesWithin fuel rest

/-- The pieces of a pattern. -/
def pieces (pattern : String) : List Piece := piecesWithin pattern.length pattern.toList

/-- A character stands for a piece other than a star. -/
def Piece.holds (p : Piece) (c : Char) : Bool :=
  match p with
  | .star => false
  | .any => true
  | .set negated ranges => (ranges.any fun r => r.1 ≤ c && c ≤ r.2) != negated
  | .char d => c = d

/-- A text and all that is left of it after dropping characters from its front. -/
def suffixes : List Char → List (List Char)
  | [] => [[]]
  | c :: cs => (c :: cs) :: suffixes cs

/-- The pieces stand for a text. -/
def holdsOf : List Piece → List Char → Bool
  | [], cs => cs.isEmpty
  | .star :: ps, cs => (suffixes cs).any (holdsOf ps)
  | p :: ps, cs =>
    match cs with
    | [] => false
    | c :: cs => p.holds c && holdsOf ps cs

/-- The pattern stands for a text. -/
def holds (pattern text : String) : Bool := holdsOf (pieces pattern) text.toList

end LockAudit.File.Glob
