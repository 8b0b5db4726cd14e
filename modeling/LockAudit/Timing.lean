import LockAudit.Display.Block
import LockAudit.Number.Decimal

/-!
# Phase timings

A monitor records how long each phase of a run took. A phase that was timed
several times counts with the sum, in the place where it was first timed.
-/

namespace LockAudit

/-- The time that one phase took, in seconds. -/
structure Timing where
  phase : String
  seconds : Float

namespace Timing

/-- The phases of an audit. -/
def auditPhases : List String := ["load_advisories", "match", "parse_lockfile"]

/-- The totals by phase with one more time added. -/
def add (totals : List (String × Float)) (t : Timing) : List (String × Float) :=
  if totals.any (·.1 == t.phase) then
    totals.map fun p => if p.1 == t.phase then (p.1, p.2 + t.seconds) else p
  else totals ++ [(t.phase, 0 + t.seconds)]

/-- The total times by phase. -/
def totals (timings : List Timing) : List (String × Float) := timings.foldl add []

/-- The time of all phases together. -/
def total (totals : List (String × Float)) : Float := totals.foldl (fun sum p => sum + p.2) 0

/-- A time as it is shown. -/
def shown (seconds : Float) : String := Number.fixedText 4 seconds ++ "s"

/-- The rows of a summary: the phases, and their sum. -/
def rows (timings : List Timing) : List (String × String) :=
  let totals := totals timings
  totals.map (fun p => (p.1, shown p.2)) ++ [("total", shown (total totals))]

/-- The table of all phases, if any was timed. -/
def summary (timings : List Timing) : Option Display.Block :=
  if timings.isEmpty then none
  else some (.table "Performance Summary" ["Phase", "Time"]
    ((rows timings).map fun r => [.plain r.1, .plain r.2]))

end Timing

end LockAudit
