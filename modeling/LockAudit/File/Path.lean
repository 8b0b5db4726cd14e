import LockAudit.Text.Blank
import LockAudit.Text.Lower

/-!
# Paths

A path is a root and the names after it. Empty names and single dots are dropped
when it is read, double dots are kept. Two slashes at the front are a root of
their own; any other number of them is the usual root.
-/

namespace LockAudit.File

/-- A path: nothing, one slash or two, and then names. -/
structure Path where
  root : String
  names : List String
  deriving DecidableEq, Repr

namespace Path

/-- The path that a text spells. -/
def ofText (s : String) : Path :=
  let cs := s.toList
  let root := match cs with
    | '/' :: '/' :: '/' :: _ => "/"
    | '/' :: '/' :: _ => "//"
    | '/' :: _ => "/"
    | _ => ""
  let names := (Text.splitOn '/' cs).filter fun name => !name.isEmpty && name ≠ ['.']
  ⟨root, names.map String.ofList⟩

/-- The written form of a path; a path without root and names is the dot. -/
def text (p : Path) : String :=
  if p.root.isEmpty && p.names.isEmpty then "." else p.root ++ "/".intercalate p.names

/-- The last name of a path. -/
def name (p : Path) : String := p.names.getLast?.getD ""

/-- The path without its last name. -/
def parent (p : Path) : Path := ⟨p.root, p.names.dropLast⟩

/-- The path as far as its first few names. -/
def upTo (p : Path) (count : Nat) : Path := ⟨p.root, p.names.take count⟩

/-- The path continued by a name. -/
def child (p : Path) (name : String) : Path := ⟨p.root, p.names ++ [name]⟩

/-- The ending of the last name: the last dot that is neither its first nor its
last character, and what follows. -/
def ending (p : Path) : String :=
  let cs := p.name.toList
  let after := cs.reverse.takeWhile (· ≠ '.')
  if after.isEmpty || cs.length ≤ after.length + 1 then ""
  else String.ofList ('.' :: after.reverse)

/-- Paths are in the order of their names, one after the other. -/
def orderNames : List String → List String → Ordering
  | [], [] => .eq
  | [], _ :: _ => .lt
  | _ :: _, [] => .gt
  | a :: as, b :: bs => (compare a b).then (orderNames as bs)

end Path

end LockAudit.File
