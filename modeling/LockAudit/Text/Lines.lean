import LockAudit.Text.Blank

/-!
# Lines

Three notions of a line end meet here. A document is located by its line feeds
alone; a text file is read with every carriage return turned into a line feed;
and the headers of a lock file are searched in lines that end at any of the
Unicode line boundaries.
-/

namespace LockAudit.Text

/-- The character ends a line of a document that is split at every boundary. -/
def isLineEnd (c : Char) : Bool :=
  c = '\n' || c = '\r' || c = '\x0b' || c = '\x0c' || c = '\x1c' || c = '\x1d' || c = '\x1e' ||
    c = '\u0085' || c = '\u2028' || c = '\u2029'

/-- The lines of a text after the characters of an unfinished line in reverse. A
carriage return and a line feed together end one line, and nothing follows the
last line end. -/
def linesAfter (line : List Char) : List Char → List (List Char)
  | [] => if line.isEmpty then [] else [line.reverse]
  | '\r' :: '\n' :: cs => line.reverse :: linesAfter [] cs
  | c :: cs => if isLineEnd c then line.reverse :: linesAfter [] cs else linesAfter (c :: line) cs

/-- The lines of a text, cut at every line boundary. -/
def lines (cs : List Char) : List (List Char) := linesAfter [] cs

/-- A text with a carriage return before a line feed dropped. -/
def dropReturns : List Char → List Char
  | [] => []
  | '\r' :: '\n' :: cs => '\n' :: dropReturns cs
  | c :: cs => c :: dropReturns cs

/-- A text with every line end turned into a line feed. -/
def universalNewlines : List Char → List Char
  | [] => []
  | '\r' :: '\n' :: cs => '\n' :: universalNewlines cs
  | c :: cs => (if c = '\r' then '\n' else c) :: universalNewlines cs

/-- How many line feeds a text holds. -/
def newlines (cs : List Char) : Nat := cs.countP (· = '\n')

/-- The number, from one, of the line on which a suffix of a document starts. -/
def lineAt (document rest : List Char) : Nat := newlines document - newlines rest + 1

/-- The number, from one, of the column at which a suffix of a document starts. -/
def columnAt (document rest : List Char) : Nat :=
  ((document.take (document.length - rest.length)).reverse.takeWhile (· ≠ '\n')).length + 1

end LockAudit.Text
