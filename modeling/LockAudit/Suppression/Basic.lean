import LockAudit.Advisory.Record
import LockAudit.Lockfile.Node

/-!
# Suppressions

A suppression accepts findings: those of an advisory, those in a package, or only
those of an advisory in a package; perhaps only for some versions, and perhaps
only until an instant.

Whether it applies to a finding and whether it has expired are two questions.
Reports name a suppression by its label.
-/

namespace LockAudit

/-- An accepted finding, or several. -/
structure Suppression where
  reason : String
  advisory : Option String := none
  package : Option String := none
  version : Option VersionRange := none
  expires : Option Calendar.Instant := none
  /-- A suppression names an advisory or a package. -/
  named : (advisory.isSome || package.isSome) = true
  deriving DecidableEq

namespace Suppression

/-- The parts of a label: the advisory, the package and the versions, as far as
they are given. -/
def labelParts (s : Suppression) : Except Number.Oversized (List String) := do
  let version ← match s.version with
    | some range => pure ["version " ++ (← range.text?)]
    | none => pure []
  pure (s.advisory.toList ++ (s.package.map ("package " ++ ·)).toList ++ version)

/-- What reports call a suppression. -/
def label (s : Suppression) : Except Number.Oversized String := do
  pure (" / ".intercalate (← s.labelParts))

/-- The suppression is over at an instant. -/
def isExpired (s : Suppression) (now : Calendar.Instant) : Bool :=
  s.expires.any fun expires => decide (expires ≤ now)

/-- The suppression is over, as far as the clock can tell. -/
def isExpiredBy (s : Suppression) (now : Calendar.ClockReading) :
    Except Calendar.UnzonedDefect Bool :=
  match now with
  | .zoned now => .ok (s.isExpired now)
  | .unzoned .. => if s.expires.isSome then .error .compare else .ok false

/-- The suppression is about this advisory in this dependency, whether or not it
is over. -/
def applies (s : Suppression) (n : Lockfile.Node) (r : Advisory.Record) : Bool :=
  (s.advisory.all r.hasIdentifier) &&
    (s.package.all fun package => PackageName.agree package n.name) &&
    s.version.all fun range => range.holds n.version.toPrecedence

/-- The suppression as a document. -/
def document (s : Suppression) : Except Number.Oversized Value := do
  let version ← match s.version with
    | some range => pure (.text (← range.text?))
    | none => pure .null
  pure (.table [
    ("id", .ofText? s.advisory),
    ("package", .ofText? s.package),
    ("version", version),
    ("expires", .ofText? (s.expires.map (·.text))),
    ("reason", .text s.reason)])

end Suppression

end LockAudit
