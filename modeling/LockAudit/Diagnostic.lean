import LockAudit.Value

/-!
# Diagnostics

A diagnostic is something the user must see that did not stop the audit.
-/

namespace LockAudit

/-- What a diagnostic is about. -/
inductive DiagnosticKind where
  | malformedAdvisory
  | withdrawnDropped
  | rangeOverlap
  | staleCache
  | cacheWriteFailed
  | packageError
  | suppressionExpired
  | suppressionUnused
  deriving DecidableEq, Repr

/-- The name of a kind of diagnostics. -/
def DiagnosticKind.name : DiagnosticKind → String
  | .malformedAdvisory => "malformed-advisory"
  | .withdrawnDropped => "withdrawn-dropped"
  | .rangeOverlap => "range-overlap"
  | .staleCache => "stale-cache"
  | .cacheWriteFailed => "cache-write-failed"
  | .packageError => "package-error"
  | .suppressionExpired => "suppression-expired"
  | .suppressionUnused => "suppression-unused"

/-- Something the user must see. Diagnostics from elsewhere may bear other names
than those of the known kinds. -/
structure Diagnostic where
  kind : String
  message : String
  subject : Option String := none
  deriving DecidableEq, Repr

/-- A diagnostic of a known kind. -/
def Diagnostic.of (kind : DiagnosticKind) (message : String) (subject : Option String := none) :
    Diagnostic :=
  ⟨kind.name, message, subject⟩

/-- The diagnostic on one line. -/
def Diagnostic.text (d : Diagnostic) : String := "[" ++ d.kind ++ "] " ++ d.message

/-- A text, or `null` without one. -/
def Value.ofText? : Option String → Value
  | some s => .text s
  | none => .null

/-- The diagnostic as a document. -/
def Diagnostic.document (d : Diagnostic) : Value :=
  .table [("kind", .text d.kind), ("message", .text d.message), ("subject", .ofText? d.subject)]

end LockAudit
