import LockAudit.Audit.Matching
import LockAudit.File.Tree

/-!
# Reports

A report lists the findings of an audit, worst first, and gives a verdict: the
audit fails if a finding is at or above the threshold. Findings in packages that
the workspace asks for directly may count one level higher.

The order of entries depends only on what they are, not on the order in which
they were found.
-/

namespace LockAudit

open Lockfile (Node Graph)
open Advisory (Record Provenance)

namespace Report

/-- A finding as it stands in a report: with the severity it counts as, and a
chain of dependencies that leads to it. -/
structure Entry where
  finding : Finding
  severity : Severity
  path : List Node := []
  deriving DecidableEq

/-- What the report is to be based on besides findings. -/
structure Setting where
  threshold : Severity := .low
  /-- Findings in direct dependencies count one level higher. -/
  escalateDirect : Bool := false
  database : Option Provenance := none
  graph : Option Graph := none

/-- The severity that a finding counts as. -/
def effectiveSeverity (escalateDirect : Bool) (f : Finding) : Severity :=
  if escalateDirect && f.node.direct then f.record.severity.escalate else f.record.severity

/-- The chain that is shown for a finding; a direct dependency needs none. -/
def findingPath (graph : Option Graph) (f : Finding) : List Node :=
  match graph with
  | some g => if f.node.direct then [] else g.pathTo f.node
  | none => []

namespace Entry

/-- A finding as it stands in a report. -/
def of (s : Setting) (f : Finding) : Entry :=
  ⟨f, effectiveSeverity s.escalateDirect f, findingPath s.graph f⟩

/-- The finding counts higher than the record says. -/
def isEscalated (e : Entry) : Bool := e.severity != e.finding.record.severity

/-- The order of findings: by package, record, version and source. -/
def orderFindings (a b : Finding) : Ordering :=
  (compare a.node.group b.node.group).then <|
    (compare a.record.id b.record.id).then <|
      (a.node.version.order b.node.version.toPrecedence).then
        (compare a.node.source b.node.source)

/-- The order of entries: the worst first, then by finding. -/
def order (a b : Entry) : Ordering :=
  (compare b.severity.rank a.severity.rank).then (orderFindings a.finding b.finding)

/-- The entry as a document. -/
def document (e : Entry) : Except Number.Oversized Value := do
  let n := e.finding.node
  let r := e.finding.record
  let affected ← r.affected.groupTexts?
  let patched ← r.patched.groupTexts?
  pure (.table [
    ("package", .text n.name),
    ("version", .text n.version.text),
    ("source", .text n.source),
    ("direct", .bool n.direct),
    ("id", .text r.id),
    ("aliases", .list (r.aliases.map .text)),
    ("severity", .text e.severity.name),
    ("advisory_severity", .text r.severity.name),
    ("title", .text r.title),
    ("url", .ofText? r.url),
    ("affected", .list (affected.map .text)),
    ("patched", .list (patched.map .text)),
    ("path", .list (e.path.map fun n => .text n.text))])

end Entry

end Report

/-- What an audit has found. -/
structure Report where
  entries : List Report.Entry
  suppressed : List SuppressedFinding
  diagnostics : List Diagnostic
  threshold : Severity
  escalateDirect : Bool
  database : Option Provenance
  /-- The number of dependencies that were audited. -/
  dependencies : Nat
  deriving DecidableEq

/-- Whether an audit found something to fail for. -/
inductive Verdict where
  | pass
  | fail
  deriving DecidableEq, Repr

/-- The name of a verdict. -/
def Verdict.name : Verdict → String
  | pass => "pass"
  | fail => "fail"

/-- The exit status for a verdict. -/
def Verdict.exitCode : Verdict → Nat
  | pass => 0
  | fail => 1

/-- The finding as a document. -/
def Finding.document (f : Finding) : Except Number.Oversized Value := do
  pure (.table [
    ("package", .text f.node.name),
    ("version", .text f.node.version.text),
    ("source", .text f.node.source),
    ("direct", .bool f.node.direct),
    ("advisory", ← f.record.document)])

/-- The suppressed finding as a document. -/
def SuppressedFinding.document (s : SuppressedFinding) : Except Number.Oversized Value := do
  let n := s.finding.node
  pure (.table [
    ("package", .text n.name),
    ("version", .text n.version.text),
    ("source", .text n.source),
    ("id", .text s.finding.record.id),
    ("severity", .text s.finding.record.severity.name),
    ("suppression", ← s.suppression.document)])

namespace Report

/-- The report on some findings. -/
def of (s : Setting) (findings : List Finding) (suppressed : List SuppressedFinding)
    (diagnostics : List Diagnostic) : Report where
  entries := (findings.map (Entry.of s)).mergeSort fun a b => (a.order b).isLE
  suppressed := suppressed.mergeSort fun a b => (Entry.orderFindings a.finding b.finding).isLE
  diagnostics := diagnostics
  threshold := s.threshold
  escalateDirect := s.escalateDirect
  database := s.database
  dependencies := (s.graph.map (·.nodes.length)).getD 0

/-- The number of entries of a severity. -/
def count (r : Report) (severity : Severity) : Nat := r.entries.countP (·.severity == severity)

/-- The entries at or above the threshold. -/
def failing (r : Report) : List Entry := r.entries.filter fun e => decide (r.threshold ≤ e.severity)

/-- The audit fails if an entry is at or above the threshold. -/
def verdict (r : Report) : Verdict := if r.failing.isEmpty then .pass else .fail

/-- The exit status for a report. -/
def exitCode (r : Report) : Nat := r.verdict.exitCode

/-- The severities with the numbers of their entries, worst first. -/
def counts (r : Report) : List (Severity × Nat) := Severity.all.reverse.map fun s => (s, r.count s)

/-- The report as a document. -/
def document (r : Report) : Except Number.Oversized Value := do
  let entries ← r.entries.mapM (·.document)
  let suppressed ← r.suppressed.mapM (·.document)
  pure (.table [
    ("verdict", .text r.verdict.name),
    ("threshold", .text r.threshold.name),
    ("escalate_direct", .bool r.escalateDirect),
    ("dependency_count", .int r.dependencies),
    ("counts", .table (r.counts.map fun c => (c.1.name, .int c.2))),
    ("findings", .list entries),
    ("suppressed", .list suppressed),
    ("diagnostics", .list (r.diagnostics.map (·.document))),
    ("database", (r.database.map (·.document)).getD .null)])

/-- The report as JSON text. -/
def dump (r : Report) : Except Number.Oversized String := do
  pure (String.ofList (Json.encode Json.Style.report (← r.document) ++ ['\n']))

/-- The files with the report as JSON in one of them. -/
def save (r : Report) (files : File.Tree) (path : Option File.Path) :
    Except Failure File.Tree := do
  match path with
  | none => throw (.value .noOutputFile)
  | some path => pure (← files.write path (Text.Utf8.encode (← r.dump).toList))

end Report

end LockAudit
