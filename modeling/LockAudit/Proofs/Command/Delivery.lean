import LockAudit.Command.Execute
import LockAudit.Proofs.Handling
import LockAudit.Proofs.Report.Display

/-!
# Delivering a report

A report that is there may still not reach anyone. A range in it cannot be written, or
what it is written to refuses it. Of these failures only those of files are shown as
errors, and only while a file is written; all others crash the audit.

Nothing is said here about what an output refuses: an output is any function.
-/

namespace LockAudit.Command

open Display (Block)

variable {env : Environment} {o : AuditOptions} {files : File.Tree} {report : Report}
  {out : Outputs} {r : Result} {x : Except Halt Result}

/-! ## What a command leaves at its end -/

/-- The command is broken off by a crash. -/
def Breaks (x : Except Halt Result) : Prop := ∃ left c, x = .error ⟨left, .crashed c⟩

theorem Breaks.bind (h : Breaks x) {f : Result → Except Halt Result} : Breaks (x >>= f) := by
  obtain ⟨left, c, rfl⟩ := h
  exact ⟨left, c, rfl⟩

/-! ## Outputs -/

namespace IsDelivered

variable {path : File.Path}

end IsDelivered

/-! ## The text of a file -/

end LockAudit.Command
