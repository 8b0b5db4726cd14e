import LockAudit.Display.Block
import LockAudit.Report.Basic

/-!
# Showing reports

A report is shown as a summary, its findings, what is suppressed, the diagnostics
and the verdict, each only if there is something to show. Blocks are shown one
after the other, so a failure to write a range, or to show a block, leaves the blocks
before it shown: that is what a `Showing` records.

How a console lays out a block is left open. It is not for the program to say, and a
console may refuse a block.
-/

namespace LockAudit

open Display
open Lockfile (Node)
open Advisory (Record)

/-- What has been shown, and the failure that ended it, if one did. -/
structure Showing where
  blocks : List Block := []
  stopped : Option Failure := none

namespace Showing

/-- The showing followed by a further block. -/
def andThen (s : Showing) (block : Except Failure Block) : Showing :=
  if s.stopped.isSome then s
  else match block with
    | .ok block => { s with blocks := s.blocks ++ [block] }
    | .error cause => { s with stopped := some cause }

/-- The showing of blocks one after the other. -/
def ofBlocks (blocks : List (Except Failure Block)) : Showing := blocks.foldl andThen {}

end Showing

/-- The style of a severity. -/
def Severity.style : Severity → String
  | critical => "red bold"
  | high => "red"
  | medium => "yellow"
  | low => "blue"

/-- The style of an outcome. -/
def Outcome.style : Outcome → String
  | vulnerable => "red bold"
  | suppressed .. => "yellow"
  | patched => "green"
  | notAffected => "green"
  | withdrawn => "dim"

/-- The cell of a severity, marked if it was escalated. -/
def Severity.cell (s : Severity) (escalated : Bool := false) : Cell :=
  .styled ⟨s.name.toUpper ++ (if escalated then " (direct)" else ""), s.style⟩

/-- The versions that a record can be fixed with. -/
def Advisory.Record.fixText (r : Record) : Except Number.Oversized String :=
  if r.patched.isEmpty then .ok "no fix" else r.patched.text?

namespace Report

/-- The lines about the advisories' origin. -/
def databaseLines (r : Report) : List String :=
  match r.database with
  | none => []
  | some p => [
      "Advisory database: " ++ p.origin ++ " (" ++ toString p.size ++ " advisories)",
      "Fetched at: " ++ p.fetchedAt.text ++ (if p.isStale then " [STALE]" else "")]

/-- The panel with numbers and settings. -/
def summaryPanel (r : Report) : Block :=
  let counts := ", ".intercalate (r.counts.map fun c => toString c.2 ++ " " ++ c.1.name)
  let lines := [
    "Dependencies audited: " ++ toString r.dependencies,
    "Findings: " ++ toString r.entries.length ++ " (" ++ counts ++ ")",
    "Suppressed: " ++ toString r.suppressed.length,
    "Fail threshold: " ++ r.threshold.name ++
      (if r.escalateDirect then " (direct dependencies escalated)" else "")] ++ r.databaseLines
  let style := match r.verdict with
    | .pass => "green"
    | .fail => "red"
  .panel (some "dep-audit") style (.styled ⟨"\n".intercalate lines, ""⟩)

/-- The row of an entry. -/
def Entry.row (e : Entry) : Except Number.Oversized (List Cell) := do
  let n := e.finding.node
  let r := e.finding.record
  let fix ← r.fixText
  pure [
    e.severity.cell e.isEscalated,
    .plain (n.name ++ (if n.direct then " (direct)" else "")),
    .plain n.version.text, .plain r.id, .plain r.title, .plain fix]

/-- The table of findings. -/
def findingsTable (r : Report) : Except Failure Block := do
  let rows ← r.entries.mapM fun e => e.row
  pure (.table "Vulnerabilities Found"
    ["Severity", "Package", "Version", "Advisory", "Title", "Fix"] rows)

/-- The chains that lead to dependencies with findings, one for each. -/
def chains (r : Report) : List (List Node) :=
  let long := r.entries.filter fun e => 2 ≤ e.path.length
  (long.foldl (fun (seen : List Entry) e =>
    if seen.any fun f => f.finding.node.key == e.finding.node.key then seen else seen ++ [e])
    []).map (·.path)

/-- The panel of chains. -/
def chainsPanel (chains : List (List Node)) : Block :=
  let lines := chains.map fun chain => " -> ".intercalate (chain.map (·.text))
  .panel (some "Dependency paths") "dim" (.styled ⟨"\n".intercalate lines, ""⟩)

/-- The row of a suppressed finding. -/
def suppressedRow (s : SuppressedFinding) : List Cell :=
  let n := s.finding.node
  let r := s.finding.record
  [.plain n.name, .plain n.version.text, .plain r.id, r.severity.cell,
    .plain s.suppression.reason,
    .plain ((s.suppression.expires.map (·.date.text)).getD "never")]

/-- The table of suppressed findings. -/
def suppressedTable (r : Report) : Block :=
  .table "Suppressed Findings"
    ["Package", "Version", "Advisory", "Severity", "Reason", "Expires"]
    (r.suppressed.map suppressedRow)

/-- The panel of diagnostics. -/
def diagnosticsPanel (r : Report) : Block :=
  .panel (some ("Diagnostics (" ++ toString r.diagnostics.length ++ ")")) "yellow"
    (.group (r.diagnostics.map fun d => ⟨d.text, ""⟩))

/-- The line with the verdict. -/
def verdictLine (r : Report) : Styled :=
  match r.verdict with
  | .pass => ⟨"Verdict: PASS (threshold " ++ r.threshold.name ++ ")", "green bold"⟩
  | .fail =>
    ⟨"Verdict: FAIL (" ++ toString r.failing.length ++ " findings at or above " ++
      r.threshold.name ++ ")", "red bold"⟩

/-- The blocks about the findings. -/
def findingsBlocks (r : Report) : List (Except Failure Block) :=
  if r.entries.isEmpty then [.ok (.styled ⟨"No vulnerable dependencies found.", ""⟩)]
  else r.findingsTable :: if r.chains.isEmpty then [] else [.ok (chainsPanel r.chains)]

/-- The blocks of the report. -/
def blocks (r : Report) : List (Except Failure Block) :=
  [.ok r.summaryPanel] ++ r.findingsBlocks ++
    (if r.suppressed.isEmpty then [] else [.ok r.suppressedTable]) ++
    (if r.diagnostics.isEmpty then [] else [.ok r.diagnosticsPanel]) ++
    [.ok (.styled r.verdictLine)]

/-- The report as plain text, with the blocks laid out one after the other. -/
def text (r : Report) (layout : Block → Except Failure String) : Except Failure String := do
  pure (String.join (← r.blocks.mapM (· >>= layout)))

end Report

/-- The row of a record and its outcome. -/
def explanationRow (row : Record × Outcome) : Except Number.Oversized (List Cell) := do
  let affected ← row.1.affected.text?
  let fix ← row.1.fixText
  pure [.plain row.1.id, row.1.severity.cell, .plain affected, .plain fix,
    .styled ⟨row.2.name, row.2.style⟩]

/-- What the records for a package mean for a dependency, as it is shown. -/
def explanationBlock (n : Node) (rows : List (Record × Outcome)) : Except Failure Block := do
  if rows.isEmpty then
    pure (.styled ⟨"No advisories known for " ++ n.name, "green"⟩)
  else
    let rows ← rows.mapM fun row => explanationRow row
    pure (.table ("Advisories for " ++ n.text)
      ["Advisory", "Severity", "Affected", "Patched", "Outcome"] rows)

/-- The panel of an error, perhaps with details. -/
def errorPanel (message : String) (details : Option String := none) : Block :=
  let more := match details with
    | some details => if details.isEmpty then "" else "\n\n" ++ details
    | none => ""
  .panel none "red" (.styled ⟨"Error: " ++ message ++ more, "bold red"⟩)

end LockAudit
