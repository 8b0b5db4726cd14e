import LockAudit.Config
import LockAudit.Lockfile.Registry
import LockAudit.Report.Basic

/-!
# Audit runs

A run reads a lock file and loads advisories, matches the two and reports. Reading
and loading go on side by side. If both fail, the failure that comes first counts. A
source that is not slow, or need not be asked, is done before the lock file. A slow one
races with it, and which of the two comes in first is left open: a run whose lock file
fails before the source has answered leaves the cache alone.
-/

namespace LockAudit

/-- What a run is about. -/
structure Run where
  config : Config
  files : File.Tree
  lockfile : File.Path
  source : Advisory.Source
  suppressions : List Suppression
  now : Calendar.ClockReading
  limits : Limits := .unlimited
  /-- How far replacing the cache gets, if the system refuses a part of it. -/
  refusal : Option Advisory.Cache.Refusal := none
  /-- The lock file wins the race against a slow source. -/
  lockfileFirst : Bool := true

/-- What comes of a run, and the files afterwards. -/
structure RunResult where
  files : File.Tree
  report : Except Failure Report

namespace Run

/-- The graph of the lock file. -/
def graph (r : Run) : Except Failure Lockfile.Graph :=
  Lockfile.Registry.standard.parseFile r.files r.lockfile r.config.lockFormat r.limits

/-- The index of the source. -/
def loaded (r : Run) : Advisory.Loaded :=
  Advisory.loadIndex r.config.withdrawn r.config.cacheUse r.files r.source r.now r.refusal r.limits

/-- The lock file has been read before the index is there. -/
def readsFirst (r : Run) : Bool :=
  r.lockfileFirst && r.source.isSlow &&
    Advisory.asksSource r.config.cacheUse r.files r.source r.now r.limits

/-- The report on a graph and an index. -/
def report (r : Run) (g : Lockfile.Graph) (index : Advisory.Index) : Except Failure Report := do
  let m ← matchGraph r.now r.suppressions g index
  let setting : Report.Setting := {
    threshold := r.config.failSeverity
    escalateDirect := r.config.escalateDirect
    database := some index.provenance
    graph := some g }
  pure (Report.of setting m.findings m.suppressed (index.diagnostics ++ m.diagnostics))

/-- The report after reading and loading have come to an end. -/
def finish (r : Run) (graph : Except Failure Lockfile.Graph)
    (index : Except Failure Advisory.Index) : Except Failure Report := do
  if r.readsFirst then
    let g ← graph
    r.report g (← index)
  else
    let index ← index
    r.report (← graph) index

/-- What comes of the run. -/
def result (r : Run) : RunResult :=
  let graph := r.graph
  if r.readsFirst && graph matches .error _ then ⟨r.files, r.finish graph r.loaded.index⟩
  else
    let loaded := r.loaded
    ⟨loaded.files, r.finish graph loaded.index⟩

end Run

end LockAudit
