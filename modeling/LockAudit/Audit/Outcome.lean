import LockAudit.Advisory.Index
import LockAudit.Suppression.Basic

/-!
# Outcomes

What a record means for a dependency is decided in a fixed order: a withdrawn
record means nothing, one whose affected range misses the version does not
concern it, and a version in the patched range is safe. What is left is
suppressed by the first suppression that applies and is in force, or else
vulnerable.

The patched range is a set of versions and not a least version, so that patches
on separate branches are each honoured.

The clock matters only where a suppression that applies has an expiry. `outcome`
decides at an instant; `evaluate` asks a clock that may not know its offset.
-/

namespace LockAudit

open Lockfile (Node)
open Advisory (Record Index)

/-- What a record means for a dependency. A suppressed finding comes with the
suppression and its position among all. -/
inductive Outcome where
  | withdrawn
  | notAffected
  | patched
  | suppressed (position : Nat) (cause : Suppression)
  | vulnerable
  deriving DecidableEq

/-- The name of an outcome. -/
def Outcome.name : Outcome → String
  | withdrawn => "withdrawn"
  | notAffected => "not affected"
  | patched => "patched"
  | suppressed .. => "suppressed"
  | vulnerable => "vulnerable"

/-- The record affects the version. -/
def Advisory.Record.affects (r : Record) (v : Precedence) : Bool := r.affected.holds v

/-- The version is one of the patched ones. -/
def Advisory.Record.patches (r : Record) (v : Precedence) : Bool :=
  !r.patched.isEmpty && r.patched.holds v

/-- The record says that the version is vulnerable. -/
def Advisory.Record.concerns (r : Record) (v : Precedence) : Bool :=
  !r.isWithdrawn && r.affects v && !r.patches v

/-- The suppression applies and is not over. -/
def Suppression.isInForce (s : Suppression) (now : Calendar.Instant) (n : Node) (r : Record) :
    Bool :=
  s.applies n r && !s.isExpired now

/-- The first suppression in force, with its position. -/
def firstInForce (now : Calendar.Instant) (suppressions : List Suppression) (n : Node)
    (r : Record) : Option (Suppression × Nat) :=
  suppressions.zipIdx.find? fun s => s.1.isInForce now n r

/-- What a record means for a dependency at an instant. -/
def outcome (now : Calendar.Instant) (suppressions : List Suppression) (n : Node) (r : Record) :
    Outcome :=
  if r.isWithdrawn then .withdrawn
  else if !r.affects n.version.toPrecedence then .notAffected
  else if r.patches n.version.toPrecedence then .patched
  else match firstInForce now suppressions n r with
    | some (s, position) => .suppressed position s
    | none => .vulnerable

/-- Whether a suppression is over decides what a record means for a dependency. -/
def needsClock (suppressions : List Suppression) (n : Node) (r : Record) : Bool :=
  r.concerns n.version.toPrecedence &&
    (suppressions.find? (·.applies n r)).any (·.expires.isSome)

/-- What a record means for a dependency, as far as the clock can tell. -/
def evaluate (now : Calendar.ClockReading) (suppressions : List Suppression) (n : Node)
    (r : Record) : Except Calendar.UnzonedDefect Outcome :=
  match now with
  | .zoned now => .ok (outcome now suppressions n r)
  | .unzoned .. =>
    if needsClock suppressions n r then .error .compare
    else .ok (outcome now.asUtc suppressions n r)

/-- What each record for a package means for a dependency. -/
def explain (now : Calendar.ClockReading) (suppressions : List Suppression) (n : Node)
    (index : Index) : Except Calendar.UnzonedDefect (List (Record × Outcome)) :=
  (index.query n.name).mapM fun r => do pure (r, ← evaluate now suppressions n r)

end LockAudit
