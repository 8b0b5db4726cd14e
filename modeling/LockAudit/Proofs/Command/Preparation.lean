import LockAudit.Command.Execute
import LockAudit.Proofs.Audit.Run
import LockAudit.Proofs.Config
import LockAudit.Proofs.Suppression.Entry

/-!
# What stops an audit before its run

A command that stops either shows an error or crashes. Before there is a run, an audit
crashes in three ways, and all come from a failure that nobody foresaw where it arises:
reading the configuration handles the failures of values alone, finding the lock file
handles none, and reading the suppressions handles those that are reported.
-/

namespace LockAudit.Command

variable {α β : Type} {env : Environment} {o : AuditOptions}

/-! ## Stops -/

/-- The operation ends in a crash. -/
def Crashes (x : Except Stop α) : Prop := ∃ c, x = .error (.crashed c)

namespace Crashes

@[simp]
theorem not_ok {a : α} : ¬ Crashes (.ok a) := by
  intro h
  obtain ⟨c, h⟩ := h
  exact absurd h (by simp)

theorem bind_iff {x : Except Stop α} {f : α → Except Stop β} :
    Crashes (x >>= f) ↔ Crashes x ∨ ∃ a, x = .ok a ∧ Crashes (f a) := by
  cases x with
  | error stop => simp [Crashes]
  | ok a => simp

end Crashes

/-! ## The configuration -/

/-- The configuration of an audit crashes it: by a setting of the environment, or by
the age given as an option once the environment has been read. -/
inductive ConfigurationTrap (env : Environment) (o : AuditOptions) : Prop
  | settings (trap : Config.IsTrapped env.users env.settings)
  | option {c : Config} {s : String}
      (settings : Config.ofEnvironment env.users env.settings = .ok c)
      (severity : Config.IsSeverity (given? o.failSeverity))
      (given : given? o.cacheMaxAge = some s) (trap : Calendar.Duration.IsTrap s)

/-- Finding the lock file crashes the audit: the system does not say what stands at its
path, or looking for one below a directory fails. -/
inductive LocationTrap (env : Environment) (path : File.Path) : Prop
  | refused {fault : File.Fault} (refused : env.limits.status path = some fault) :
      LocationTrap env path
  | search {cause : Failure} (stated : env.limits.status path = none)
      (directory : env.files.isDirectory path = true) (fails : env.search path = some cause) :
      LocationTrap env path

variable {config : Config} {lockfile : File.Path} {run : Run}

/-- The audit crashes before there is a run: the configuration does it, or finding the lock
file once the configuration is settled, or the suppressions once both are. -/
inductive PreparationTrap (env : Environment) (o : AuditOptions) : Prop
  | configuration (format : o.format ∈ reportFormats) (trap : ConfigurationTrap env o)
  | location {config : Config} (format : o.format ∈ reportFormats)
      (configured : buildConfig env o = .ok config) (trap : LocationTrap env o.lockfile)
  | suppressions {config : Config} {lockfile path : File.Path} (format : o.format ∈ reportFormats)
      (configured : buildConfig env o = .ok config)
      (located : resolveLockfile env o.lockfile = .ok lockfile)
      (given : o.suppressions = some path)
      (trap : Suppression.IsTrapped env.files path env.limits)

theorem PreparationTrap.format (h : PreparationTrap env o) : o.format ∈ reportFormats := by
  cases h with
  | configuration format => exact format
  | location format => exact format
  | suppressions format => exact format

end LockAudit.Command
