import LockAudit.Audit.Matching

/-!
# Packages side by side

Packages can be spread over a pool of workers. All of them are handed in at the start;
a worker that is free takes the first that waits, and workers finish in any order. What
they leave is gathered once all are done, in the order in which the packages were handed
in. Without a second worker or a second package there is no pool.
-/

namespace LockAudit

open Lockfile (Graph)
open Advisory (Index)

namespace Pool

/-- How far a task is. -/
inductive Progress (β : Type) where
  | waiting
  | running
  | done (result : β)

/-- Something that was handed in, and how far it is. -/
structure Task (α β : Type) where
  input : α
  progress : Progress β

variable {α β : Type}

namespace Task

/-- No worker has taken the task yet. -/
def isWaiting (t : Task α β) : Bool :=
  match t.progress with
  | .waiting => true
  | _ => false

/-- A worker is at the task. -/
def isRunning (t : Task α β) : Bool :=
  match t.progress with
  | .running => true
  | _ => false

/-- What the task left, if it is done. -/
def result? (t : Task α β) : Option β :=
  match t.progress with
  | .done result => some result
  | _ => none

end Task

/-- The tasks at the start. -/
def handIn (inputs : List α) : List (Task α β) := inputs.map (⟨·, .waiting⟩)

/-- What the tasks left, in the order in which they were handed in, if all are done. -/
def gather? (tasks : List (Task α β)) : Option (List β) := tasks.mapM (·.result?)

/-- The number of workers that are at some task. -/
def busy (tasks : List (Task α β)) : Nat := tasks.countP (·.isRunning)

/-- What can happen next: a free worker takes the first task that waits, or some worker
finishes. -/
inductive Step (work : α → β) (workers : Nat) : List (Task α β) → List (Task α β) → Prop
  | start {before after : List (Task α β)} {input : α}
      (first : ∀ t ∈ before, t.isWaiting = false) (free : busy (before ++ after) < workers) :
      Step work workers (before ++ ⟨input, .waiting⟩ :: after) (before ++ ⟨input, .running⟩ :: after)
  | finish {before after : List (Task α β)} {input : α} :
      Step work workers (before ++ ⟨input, .running⟩ :: after)
        (before ++ ⟨input, .done (work input)⟩ :: after)

/-- What can happen after any number of steps. -/
inductive Run (work : α → β) (workers : Nat) : List (Task α β) → List (Task α β) → Prop
  | refl (tasks : List (Task α β)) : Run work workers tasks tasks
  | step {first next last : List (Task α β)} (step : Step work workers first next)
      (run : Run work workers next last) : Run work workers first last

/-- The number of workers that a pool has when it was asked for this many. -/
def size (maxWorkers : Int) : Nat := (max 1 maxWorkers).toNat

end Pool

/-- What the packages left, joined. -/
def joinResults (now : Calendar.ClockReading) (suppressions : List Suppression)
    (results : List (List Judgement × List Diagnostic)) : Except Failure Matching := do
  let judgements := results.flatMap (·.1)
  let about ← suppressionDiagnostics now suppressions (judgements.filterMap (·.used?))
  pure {
    findings := judgements.filterMap (·.vulnerable?)
    suppressed := judgements.filterMap (·.suppressed?)
    diagnostics := results.flatMap (·.2) ++ about }

/-- What a match can come to when its packages may be spread over so many workers. -/
inductive SpreadMatch (maxWorkers : Int) (judge : Judge) (now : Calendar.ClockReading)
    (suppressions : List Suppression) (g : Graph) (index : Index) : Except Failure Matching → Prop
  | inline (few : Pool.size maxWorkers ≤ 1 ∨ (packageNames g).length ≤ 1) :
      SpreadMatch maxWorkers judge now suppressions g index
        (joinResults now suppressions ((packageNames g).map (packageResult judge g index)))
  | pooled {tasks : List (Pool.Task String (List Judgement × List Diagnostic))}
      {results : List (List Judgement × List Diagnostic)}
      (many : 1 < Pool.size maxWorkers ∧ 1 < (packageNames g).length)
      (run : Pool.Run (packageResult judge g index) (Pool.size maxWorkers)
        (Pool.handIn (packageNames g)) tasks)
      (all : Pool.gather? tasks = some results) :
      SpreadMatch maxWorkers judge now suppressions g index (joinResults now suppressions results)

end LockAudit
