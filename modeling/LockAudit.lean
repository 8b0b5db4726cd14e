import LockAudit.Main
import LockAudit.Proofs.Advisory.Accounting
import LockAudit.Proofs.Advisory.History
import LockAudit.Proofs.Advisory.Index
import LockAudit.Proofs.Advisory.Overlap
import LockAudit.Proofs.Advisory.Reading
import LockAudit.Proofs.Advisory.Replacing
import LockAudit.Proofs.Audit.Explaining
import LockAudit.Proofs.Audit.Reordering
import LockAudit.Proofs.Audit.Spelling
import LockAudit.Proofs.Audit.Suppressing
import LockAudit.Proofs.Audit.Uniqueness
import LockAudit.Proofs.Audit.Withdrawing
import LockAudit.Proofs.Command.Status
import LockAudit.Proofs.Environment
import LockAudit.Proofs.Lockfile.Chain
import LockAudit.Proofs.Lockfile.Direct
import LockAudit.Proofs.Lockfile.Discovery
import LockAudit.Proofs.Lockfile.EntryLines
import LockAudit.Proofs.Lockfile.HeaderLines
import LockAudit.Proofs.Lockfile.Locating
import LockAudit.Proofs.Lockfile.Session
import LockAudit.Proofs.Report.Order
import LockAudit.Proofs.Report.Ranking
import LockAudit.Proofs.Report.Verdict
import LockAudit.Proofs.Suppression.Expiry
import LockAudit.Proofs.Suppression.Honouring
import LockAudit.Proofs.Suppression.Refusing
import LockAudit.Proofs.Version.Acceptance
import LockAudit.Proofs.Version.Compatible
import LockAudit.Proofs.Version.Precedence
import LockAudit.Proofs.Version.Printing
import LockAudit.Proofs.Version.Satisfiable
