import LockAudit.Version.Parse

/-!
# Version ranges

A range is a list of groups, a group a list of comparators; a version is in the
range when all comparators of some group hold of it. The range without groups
holds of no version, the group without comparators of every version.

Whether some version lies in a group can be read off the bounds that its
comparators set. Every version has a next one — after a release the `-0`
pre-release of the next patch, after a pre-release the same with a `.0` more — so
a strict lower bound is the inclusive bound at the next version, and a group is
satisfiable exactly when its greatest lower bound does not exceed its least upper
bound.
-/

namespace LockAudit

/-- How a comparator relates a version to its own. -/
inductive Operator where
  | eq
  | lt
  | le
  | gt
  | ge
  deriving DecidableEq, Repr

/-- The written form of an operator. -/
def Operator.text : Operator → String
  | .eq => "="
  | .lt => "<"
  | .le => "<="
  | .gt => ">"
  | .ge => ">="

/-- One condition on versions. -/
structure Comparator where
  op : Operator
  version : Version
  deriving DecidableEq, Repr

namespace Comparator

/-- The condition holds of a version; build identifiers do not matter. -/
def holds (c : Comparator) (v : Precedence) : Bool :=
  match c.op with
  | .eq => v == c.version.toPrecedence
  | .lt => v.isBefore c.version.toPrecedence
  | .le => v.isUpTo c.version.toPrecedence
  | .gt => c.version.toPrecedence.isBefore v
  | .ge => c.version.toPrecedence.isUpTo v

/-- The comparators hold of the same versions for the same reason: operator and
precedence agree. -/
def agrees (c d : Comparator) : Bool :=
  c.op == d.op && c.version.toPrecedence == d.version.toPrecedence

/-- The written form of a comparator. -/
def text (c : Comparator) : String := c.op.text ++ c.version.text

end Comparator

/-- Comparators that have to hold together. -/
abbrev Group := List Comparator

/-- A set of versions: those for which some group holds. The text it was read
from is kept for display. -/
structure VersionRange where
  groups : List Group := []
  source : String := ""
  deriving DecidableEq, Repr

/-! ## Bounds -/

namespace Precedence

/-- The least version of all. -/
def minimum : Precedence := { major := 0, minor := 0, patch := 0, pre := [.number 0] }

/-- The next version. -/
def successor (v : Precedence) : Precedence :=
  if v.pre.isEmpty then { major := v.major, minor := v.minor, patch := v.patch + 1, pre := [.number 0] }
  else { v with pre := v.pre ++ [.number 0] }

end Precedence

/-- One end of a stretch of versions. -/
structure Bound where
  version : Precedence
  inclusive : Bool
  deriving DecidableEq, Repr

namespace Bound

/-- The higher of two lower bounds; the strict one at the same version. -/
def raise (b : Bound) (version : Precedence) (inclusive : Bool) : Bound :=
  if b.version.isBefore version || (version == b.version && !inclusive) then ⟨version, inclusive⟩
  else b

/-- The lower of two upper bounds, of which the first may be missing; the strict
one at the same version. -/
def lower (b : Option Bound) (version : Precedence) (inclusive : Bool) : Bound :=
  match b with
  | none => ⟨version, inclusive⟩
  | some b =>
    if version.isBefore b.version || (version == b.version && !inclusive) then ⟨version, inclusive⟩
    else b

end Bound

namespace Group

/-- All comparators hold of a version. -/
def holds (g : Group) (v : Precedence) : Bool := g.all (·.holds v)

/-- The lower bound with that of one more comparator. -/
def raiseBy (b : Bound) (c : Comparator) : Bound :=
  match c.op with
  | .gt => b.raise c.version.toPrecedence.successor true
  | .eq | .ge => b.raise c.version.toPrecedence true
  | .lt | .le => b

/-- The upper bound with that of one more comparator. -/
def lowerBy (b : Option Bound) (c : Comparator) : Option Bound :=
  match c.op with
  | .lt => some (Bound.lower b c.version.toPrecedence false)
  | .eq | .le => some (Bound.lower b c.version.toPrecedence true)
  | .gt | .ge => b

/-- Some version lies between the bounds that the comparators set. -/
def isSatisfiable (g : Group) : Bool :=
  let low := g.foldl raiseBy ⟨Precedence.minimum, true⟩
  match g.foldl lowerBy none with
  | none => true
  | some high =>
    low.version.isBefore high.version ||
      (low.version == high.version && low.inclusive && high.inclusive)

/-- The written form of a group. -/
def text (g : Group) : String := if g.isEmpty then "*" else ", ".intercalate (g.map (·.text))

end Group

namespace VersionRange

/-- The range that holds of no version. -/
def empty : VersionRange := {}

/-- The range has no groups. -/
def isEmpty (r : VersionRange) : Bool := r.groups.isEmpty

/-- A version lies in the range. -/
def holds (r : VersionRange) (v : Precedence) : Bool := r.groups.any (Group.holds · v)

/-- Some version lies in the range. -/
def isSatisfiable (r : VersionRange) : Bool := r.groups.any Group.isSatisfiable

/-- Some version lies in both ranges. -/
def intersects (r s : VersionRange) : Bool :=
  r.groups.any fun g => s.groups.any fun h => Group.isSatisfiable (g ++ h)

/-- The versions of either range. -/
def union (r s : VersionRange) : VersionRange :=
  ⟨r.groups ++ s.groups, " || ".intercalate ([r.source, s.source].filter (!·.isEmpty))⟩

/-- The comparators of two groups agree one by one. -/
def groupsAgree : Group → Group → Bool
  | [], [] => true
  | c :: cs, d :: ds => c.agrees d && groupsAgree cs ds
  | _, _ => false

/-- The groups of two ranges agree one by one, whatever text they were read from
and whatever build identifiers they carry. -/
def agrees (r s : VersionRange) : Bool := go r.groups s.groups
where
  /-- Group by group. -/
  go : List Group → List Group → Bool
    | [], [] => true
    | g :: gs, h :: hs => groupsAgree g h && go gs hs
    | _, _ => false

/-- The written form of each group. -/
def groupTexts (r : VersionRange) : List String := r.groups.map Group.text

/-- The written form of a range. -/
def text (r : VersionRange) : String := " || ".intercalate r.groupTexts

/-- Every number in the range can be written. Reading a range keeps to the limit,
but the bound that a caret or a tilde adds may be one digit longer. -/
def isWritable (r : VersionRange) : Bool :=
  r.groups.all fun g => g.all (·.version.isWritable)

/-- The written form of each group, if all its numbers can be written. -/
def groupTexts? (r : VersionRange) : Except Number.Oversized (List String) :=
  if r.isWritable then .ok r.groupTexts else .error .written

/-- The written form of a range, if all its numbers can be written. -/
def text? (r : VersionRange) : Except Number.Oversized String :=
  if r.isWritable then .ok r.text else .error .written

end VersionRange

end LockAudit
