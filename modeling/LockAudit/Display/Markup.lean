import LockAudit.Text.Lower

/-!
# Markup

A text may hold tags in brackets, which give styles to what they enclose and are
not shown. A tag starts with a small letter or one of three marks; any other
bracket is shown. A backslash before a tag makes it plain text, and two stand for
one.

A closing tag must have an opening one, by name or, without a name, whichever was
opened last.

This is the markup of the plain layout. A console may know of more, and what a command
does is not told from this: what its consoles refuse is left open there.
-/

namespace LockAudit.Display.Markup

/-- What is wrong with a closing tag. -/
inductive Defect where
  | unmatched (tag : String) (position : Nat)
  | nothingToClose (position : Nat)
  deriving DecidableEq, Repr

/-- What is said about a closing tag. -/
def Defect.message : Defect → String
  | .unmatched tag position =>
    "closing tag '[" ++ tag ++ "]' at position " ++ toString position ++
      " doesn't match any open tag"
  | .nothingToClose position =>
    "closing tag '[/]' at position " ++ toString position ++ " has nothing to close"

/-- The character may start a tag. -/
def startsTag (c : Char) : Bool := ('a' ≤ c && c ≤ 'z') || c = '#' || c = '/' || c = '@'

/-- The inside of a tag, and what follows it, of a text after its opening bracket. -/
def readTag (cs : List Char) : Option (List Char × List Char) :=
  if (cs.head?.map startsTag).getD false then
    let (inside, rest) := cs.span fun c => c ≠ ']' && c ≠ '['
    if rest.head? = some ']' then some (inside, rest.tail) else none
  else none

/-- The name of a tag; what follows an equals sign is not part of it. -/
def tagName (inside : List Char) : List Char := inside.takeWhile (· ≠ '=')

/-- A style's name as tags are compared. -/
def styleName (cs : List Char) : String := Text.lower (Text.strip (String.ofList cs))

/-- The names of the open tags, latest first, after one more tag. -/
def follow (opened : List String) (inside : List Char) (position : Nat) :
    Except Defect (List String) :=
  match tagName inside with
  | '/' :: name =>
    if (Text.stripList name).isEmpty then
      if opened.isEmpty then .error (.nothingToClose position) else .ok opened.tail
    else if opened.contains (styleName name) then .ok (opened.erase (styleName name))
    else .error (.unmatched (String.ofList inside) position)
  | name => .ok (styleName name :: opened)

/-- The shown characters of a text at a position, where some tags are open. The
first argument bounds the number of steps. -/
def plainWithin : Nat → List String → Nat → List Char → Except Defect (List Char)
  | 0, _, _, _ => .ok []
  | _, _, _, [] => .ok []
  | fuel + 1, opened, position, cs => do
    let (slashes, rest) := cs.span (· = '\\')
    let after := position + slashes.length
    match rest with
    | [] => pure slashes
    | c :: rest =>
      match if c = '[' then readTag rest else none with
      | some (inside, rest) =>
        let shown := List.replicate (slashes.length / 2) '\\'
        let next := after + inside.length + 2
        -- Two backslashes show one; one that is left over makes the tag plain text.
        if slashes.length % 2 = 1 then
          pure (shown ++ '[' :: inside ++ ']' :: (← plainWithin fuel opened next rest))
        else
          let opened ← follow opened inside after
          pure (shown ++ (← plainWithin fuel opened next rest))
      | none =>
        let shown := if c = '[' then slashes.tail else slashes
        pure (shown ++ c :: (← plainWithin fuel opened (after + 1) rest))

/-- The shown characters of a text that may hold tags. -/
def plain (s : String) : Except Defect (List Char) :=
  plainWithin s.toList.length [] 0 s.toList

end LockAudit.Display.Markup
