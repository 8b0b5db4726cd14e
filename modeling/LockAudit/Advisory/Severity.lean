import LockAudit.Failure
import LockAudit.Text.Lower

/-!
# Severities

There are four severities, from low to critical. Escalation raises a severity by
one level and leaves the highest as it is.
-/

namespace LockAudit

/-- How bad a vulnerability is. -/
inductive Severity where
  | low
  | medium
  | high
  | critical
  deriving DecidableEq, Repr

namespace Severity

/-- All severities, lowest first. -/
def all : List Severity := [low, medium, high, critical]

/-- The level of a severity. -/
def rank : Severity → Nat
  | low => 0
  | medium => 1
  | high => 2
  | critical => 3

instance : LE Severity := ⟨fun a b => a.rank ≤ b.rank⟩

instance (a b : Severity) : Decidable (a ≤ b) := inferInstanceAs (Decidable (a.rank ≤ b.rank))

instance : LT Severity := ⟨fun a b => a.rank < b.rank⟩

instance (a b : Severity) : Decidable (a < b) := inferInstanceAs (Decidable (a.rank < b.rank))

/-- One level higher, as far as there is one. -/
def escalate : Severity → Severity
  | low => medium
  | medium => high
  | high => critical
  | critical => critical

/-- The name of a severity. -/
def name : Severity → String
  | low => "low"
  | medium => "medium"
  | high => "high"
  | critical => "critical"

/-- The severity that a word names, in any case and with white space around it. -/
def ofText (s : String) : Except ValueDefect Severity :=
  let word := Text.lower (Text.strip s)
  let word := if word = "moderate" then "medium" else word
  match all.find? (·.name == word) with
  | some severity => .ok severity
  | none => .error (.unknownSeverity s)

/-- The severity that a value names; only texts do. -/
def ofValue (v : Value) : Except Failure Severity :=
  match v with
  | .text s => (ofText s).mapError .value
  | v => match v.describe with
    | .ok shown => .error (.value (.severityNotText shown))
    | .error cause => .error (.oversized cause)

end Severity

end LockAudit
