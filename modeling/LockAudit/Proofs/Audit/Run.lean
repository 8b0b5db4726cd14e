import LockAudit.Audit.Run
import LockAudit.Proofs.Advisory.Database
import LockAudit.Proofs.Audit.Matching
import LockAudit.Proofs.Lockfile.Handling

/-!
# Runs and their failures

A run lets a failure through exactly when its lock file or its advisories do; matching only
has failures that are reported. Which of the two comes first matters. Where the lock file is
read first and fails, the run ends in that, whatever becomes of the advisories, and the
other way round.
-/

namespace LockAudit

variable {now : Calendar.Instant} {suppressions : List Suppression} {g : Lockfile.Graph}
  {index : Advisory.Index}

namespace Run

variable {r : Run}

/-- A run ends in a failure that is not reported: the lock file or the advisories let one
through, and nothing that comes before them has failed. -/
inductive IsTrapped (r : Run) : Prop
  | lockfile (first : r.readsFirst = true ∨ ∃ index, r.loaded.index = .ok index)
      (trap : Lockfile.Registry.standard.IsTrapped r.files r.lockfile r.config.lockFormat r.limits) :
      r.IsTrapped
  | advisories (first : r.readsFirst = false ∨ ∃ g, r.graph = .ok g)
      (trap : Advisory.IsTrapped r.config.withdrawn r.files r.source r.now r.limits
        r.config.cacheUse) : r.IsTrapped

end Run

end LockAudit
