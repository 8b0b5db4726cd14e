import LockAudit.Audit.Outcome
import LockAudit.Lockfile.Graph

/-!
# Matching a graph with an index

Every dependency is judged against every record for its package. Packages are
judged one by one and do not affect each other: when judging one fails, the
others still count, and the failure becomes a diagnostic.

What is found comes in the order of the packages' names, then of the
dependencies, then of the records. Suppressions that are over or were not used
become diagnostics too.
-/

namespace LockAudit

open Lockfile (Node Graph)
open Advisory (Record Index)

/-- A dependency and a record about it. -/
structure Finding where
  node : Node
  record : Record
  deriving DecidableEq

/-- A finding that is accepted, and the suppression that accepts it. -/
structure SuppressedFinding where
  finding : Finding
  suppression : Suppression
  deriving DecidableEq

/-- A finding with what it comes to. -/
structure Judgement where
  finding : Finding
  outcome : Outcome
  deriving DecidableEq

namespace Judgement

/-- The finding, if it is a vulnerability. -/
def vulnerable? (j : Judgement) : Option Finding :=
  match j.outcome with
  | .vulnerable => some j.finding
  | _ => none

/-- The finding with its suppression, if it is suppressed. -/
def suppressed? (j : Judgement) : Option SuppressedFinding :=
  match j.outcome with
  | .suppressed _ cause => some ⟨j.finding, cause⟩
  | _ => none

/-- The position of the suppression, if the finding is suppressed. -/
def used? (j : Judgement) : Option Nat :=
  match j.outcome with
  | .suppressed position _ => some position
  | _ => none

end Judgement

/-- What a graph and an index come to. -/
structure Matching where
  findings : List Finding
  suppressed : List SuppressedFinding
  diagnostics : List Diagnostic
  deriving DecidableEq

/-- A way to judge a dependency against a record. -/
abbrev Judge := Node → Record → Except Failure Outcome

/-- The judge that goes by the clock and the suppressions. A match is logged with
the dependency's version, which cannot be done if a number in it is too long. -/
def Judge.standard (now : Calendar.ClockReading) (suppressions : List Suppression) : Judge :=
  fun n r => do
    let found ← evaluate now suppressions n r
    if found = .vulnerable && !n.version.isWritable then throw (.oversized .written)
    pure found

/-- The name by which a dependency's package is looked up. -/
def Lockfile.Node.group (n : Node) : String := PackageName.canonical n.name

/-- The packages of a graph, sorted, each once. -/
def packageNames (g : Graph) : List String :=
  (g.nodes.map Node.group).eraseDups.mergeSort fun a b => (compare a b).isLE

/-- All dependencies on a package with all records for it. -/
def packageFindings (g : Graph) (index : Index) (package : String) : List Finding :=
  (g.nodes.filter (·.group == package)).flatMap fun n =>
    (index.query package).map fun r => ⟨n, r⟩

/-- What the findings in a package come to. -/
def judgePackage (judge : Judge) (g : Graph) (index : Index) (package : String) :
    Except Failure (List Judgement) :=
  (packageFindings g index package).mapM fun f => do pure ⟨f, ← judge f.node f.record⟩

/-- The diagnostic about a package that could not be judged. -/
def packageDiagnostic (package : String) (cause : Failure) : Diagnostic :=
  .of .packageError
    ("could not audit " ++ package ++ ": " ++ cause.className ++ ": " ++ cause.message)
    (some package)

/-- What judging a package leaves: judgements, or a diagnostic. -/
def packageResult (judge : Judge) (g : Graph) (index : Index) (package : String) :
    List Judgement × List Diagnostic :=
  match judgePackage judge g index package with
  | .ok judgements => (judgements, [])
  | .error cause => ([], [packageDiagnostic package cause])

/-- The diagnostic about a suppression that is over, or that was not used. -/
def suppressionDiagnostic (now : Calendar.ClockReading) (used : List Nat)
    (s : Suppression × Nat) : Except Failure (List Diagnostic) := do
  if ← s.1.isExpiredBy now then
    let label ← s.1.label
    let expiry := (s.1.expires.map (·.text)).getD ""
    pure [.of .suppressionExpired
      ("suppression " ++ label ++ " expired on " ++ expiry ++ " and no longer applies")
      (some label)]
  else if used.contains s.2 then pure []
  else
    let label ← s.1.label
    pure [.of .suppressionUnused ("suppression " ++ label ++ " did not match any finding")
      (some label)]

/-- The diagnostics about all suppressions. -/
def suppressionDiagnostics (now : Calendar.ClockReading) (suppressions : List Suppression)
    (used : List Nat) : Except Failure (List Diagnostic) := do
  pure (← suppressions.zipIdx.mapM (suppressionDiagnostic now used)).flatten

/-- What a graph and an index come to, by a given judge. -/
def matchWith (judge : Judge) (now : Calendar.ClockReading) (suppressions : List Suppression)
    (g : Graph) (index : Index) : Except Failure Matching := do
  let results := (packageNames g).map (packageResult judge g index)
  let judgements := results.flatMap (·.1)
  let about ← suppressionDiagnostics now suppressions (judgements.filterMap (·.used?))
  pure {
    findings := judgements.filterMap (·.vulnerable?)
    suppressed := judgements.filterMap (·.suppressed?)
    diagnostics := results.flatMap (·.2) ++ about }

/-- What a graph and an index come to. -/
def matchGraph (now : Calendar.ClockReading) (suppressions : List Suppression) (g : Graph)
    (index : Index) : Except Failure Matching :=
  matchWith (.standard now suppressions) now suppressions g index

end LockAudit
