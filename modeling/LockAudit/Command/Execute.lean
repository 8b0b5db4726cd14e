import LockAudit.Command.Outputs
import LockAudit.Command.Request
import LockAudit.Suppression.Entry
import LockAudit.Timing

/-!
# Carrying out commands

A command shows blocks on the console and on the console for errors, writes text,
changes files and ends with an exit status: 0 if the audit passes, 1 if it fails,
2 if there is no verdict. Failures of the inputs, of files and of values are shown
as errors; any other failure ends the command where it occurs, with status 1.
-/

namespace LockAudit.Command

open Display (Block)

/-! ## Audits -/

/-- The formats of a report. -/
def reportFormats : List String := ["text", "json"]

/-- A text, unless it is empty. -/
def given? (s : Option String) : Option String := s.filter (!·.isEmpty)

/-- A flag counts only where it is set. -/
def set? (b : Bool) : Option Bool := if b then some true else none

/-- The settings that the options of an audit override. -/
def overrides (o : AuditOptions) : Except Failure Config.Changes := do
  let failSeverity ← (given? o.failSeverity).mapM fun s => (Severity.ofText s).mapError .value
  let age ← (given? o.cacheMaxAge).mapM fun s => (Calendar.Duration.read s).mapError .ofDuration
  pure {
    failSeverity
    cachePath := o.cache
    cacheMaxAge := age.map some
    allowStale := set? o.allowStale
    forceRefresh := set? o.refresh
    timeout := o.timeout.map .real
    escalateDirect := set? o.escalateDirect
    withdrawn := if o.dropWithdrawn then some .drop else none
    maxWorkers := o.workers
    lockFormat := o.lockFormat }

/-- The configuration of the environment with the options of an audit. -/
def readConfig (env : Environment) (o : AuditOptions) : Except Failure Config := do
  let config ← Config.ofEnvironment env.users env.settings
  pure (← config.change (← overrides o))

/-- The options that are of no use without a cache, as far as they are given. -/
def cacheFlags (o : AuditOptions) : List String :=
  (if (given? o.cacheMaxAge).isSome then ["--cache-max-age"] else []) ++
    (if o.allowStale then ["--allow-stale"] else []) ++
    (if o.refresh then ["--refresh"] else [])

/-- The configuration, unless an option is given that is of no use with it. -/
def checkCacheFlags (o : AuditOptions) (config : Config) : Except Stop Config :=
  let flags := cacheFlags o
  if config.cachePath.isNone && !flags.isEmpty then
    .error (.shown (", ".intercalate flags ++ " requires an advisory cache")
      (some "Pass --cache PATH or set DEP_AUDIT_CACHE (and drop --no-cache)."))
  else .ok config

/-- The configuration of an audit. -/
def buildConfig (env : Environment) (o : AuditOptions) : Except Stop Config := do
  let config ← (readConfig env o).mapError fun cause =>
    if cause.isValueError then .shown ("Invalid configuration: " ++ cause.message) none
    else .crashed cause
  checkCacheFlags o (if o.noCache then { config with cachePath := none } else config)

/-- The only lock file below a directory. -/
def findLockfile (files : File.Tree) (directory : File.Path) : Except Stop File.Path :=
  match Lockfile.discover files directory none with
  | .error defect => .error (.crashed (.value defect))
  | .ok [candidate] => .ok candidate.path
  | .ok [] =>
    .error (.shown ("No lock file found in " ++ directory.text)
      (some ("Looked for: " ++ ", ".intercalate Lockfile.Registry.standard.fileNames)))
  | .ok candidates =>
    .error (.shown
      ("Several lock files found in " ++ directory.text ++ "; pass one with --lockfile")
      (some ("\n".intercalate (candidates.map (·.path.text)))))

/-- The lock file that a path means: itself, or the only one in a directory. -/
def resolveLockfile (env : Environment) (path : File.Path) : Except Stop File.Path := do
  (env.limits.checkStatus path).mapError .crashed
  if !env.files.isDirectory path then pure path
  else match env.search path with
    | some cause => throw (.crashed cause)
    | none => findLockfile env.files path

/-- The suppressions in a file, if one is given. -/
def readSuppressions (env : Environment) (path : Option File.Path) :
    Except Failure (List Suppression) :=
  match path with
  | some path => Suppression.load env.files path env.limits
  | none => .ok []

/-- The source at a location. -/
def sourceAt (env : Environment) (location : String) (limit : Number.Amount)
    (tokenName : String) : Advisory.Source :=
  match Advisory.Location.ofText location with
  | .file path => .ofFile env.files path
  | .web address =>
    let feed : Advisory.WebFeed := ⟨address, some limit, tokenName⟩
    feed.source (env.web feed) env.now

/-- The run that the options of an audit ask for. -/
def auditRun (env : Environment) (o : AuditOptions) (config : Config) (lockfile : File.Path) :
    Except Failure Run := do
  let accepted ← readSuppressions env o.suppressions
  pure {
    config, lockfile
    files := env.files
    source := sourceAt env o.advisories config.timeout config.tokenName
    suppressions := accepted ++ Suppression.ofIds o.ignore
    now := env.now
    limits := env.limits
    refusal := env.refusal
    lockfileFirst := env.lockfileFirst }

/-- The report as the text of a file. -/
def reportText (out : Outputs) (format : String) (r : Report) : Except Failure String :=
  if format = "json" then do pure (← r.dump) else r.text out.layout

/-- The line that is shown after a report was written to a file. -/
def writtenLine (path : File.Path) (r : Report) : Block :=
  .plain ("Report written to " ++ path.text ++ " (verdict: " ++ r.verdict.name ++ ")")

/-- An audit stops because its report is not written to a file; only failures of files are
shown. -/
def writeStop (path : File.Path) (cause : Failure) : Stop :=
  if cause.isFileError then
    .shown ("Cannot write report to " ++ path.text ++ ": " ++ cause.message) none
  else .crashed cause

/-- What writing a report to a file leaves. -/
def writeReport (env : Environment) (o : AuditOptions) (files : File.Tree) (path : File.Path)
    (r : Report) : Except Halt Result := do
  let text ← (reportText env.outputs o.format r).mapError fun cause =>
    (writeStop path cause).halt files
  let files ← (env.save files path text).mapError fun left => (writeStop path left.2).halt left.1
  Result.onErrors { status := r.exitCode, files } env.outputs [writtenLine path r]

/-- What delivering a report leaves. -/
def deliver (env : Environment) (o : AuditOptions) (files : File.Tree) (r : Report) :
    Except Halt Result :=
  let start : Result := { status := r.exitCode, files }
  match o.output with
  | some path => writeReport env o files path r
  | none =>
    if o.format = "json" then do
      let text ← (reportText env.outputs o.format r).mapError fun cause => ⟨start, .crashed cause⟩
      start.onOutput env.outputs text
    else start.onConsole env.outputs r.blocks

/-- The times of an audit's phases. -/
def timings (env : Environment) : List Timing :=
  Timing.auditPhases.map fun phase => ⟨phase, env.seconds phase⟩

/-- The run of an audit, unless something stops the audit before it. -/
def prepare (env : Environment) (o : AuditOptions) : Except Stop Run := do
  if !reportFormats.contains o.format then
    throw (.shown ("Unknown format " ++ Text.quote o.format ++ "; use 'text' or 'json'") none)
  let config ← buildConfig env o
  let lockfile ← resolveLockfile env o.lockfile
  (auditRun env o config lockfile).mapError .ofFailure

/-- What is left by an audit whose run has come to an end. The times of the phases are
shown last. -/
def conclude (env : Environment) (o : AuditOptions) (outcome : RunResult) : Except Halt Result := do
  let report ← outcome.report.mapError fun cause => (Stop.ofFailure cause).halt outcome.files
  let delivered ← deliver env o outcome.files report
  if o.performance then
    delivered.onErrors env.outputs (Timing.summary (timings env)).toList
  else pure delivered

/-- What an audit leaves, unless it stops before its end. -/
def attempt (env : Environment) (o : AuditOptions) : Except Halt Result := do
  let run ← (prepare env o).mapError (Stop.halt env.files)
  conclude env o run.result

/-- Carries out an audit. -/
def audit (env : Environment) (o : AuditOptions) : Result := settle env.outputs (attempt env o)

/-! ## The other commands -/

/-- What an explanation needs: the dependency, the suppressions and the index. -/
def explainInputs (env : Environment) (o : ExplainOptions) :
    Except Failure (Lockfile.Node × List Suppression × Advisory.Index) := do
  let version ← Version.parse o.version
  let node ← Lockfile.Node.of o.package version Lockfile.pathSource false
  let accepted ← readSuppressions env o.suppressions
  let config ← ({ timeout := .real o.timeout } : Config).check
  let source := sourceAt env o.advisories config.timeout config.tokenName
  let loaded := Advisory.loadIndex config.withdrawn none env.files source env.now none env.limits
  pure (node, accepted, ← loaded.index)

/-- Carries out an explanation. -/
def explain (env : Environment) (o : ExplainOptions) : Result := settle env.outputs do
  let (node, accepted, index) ← (explainInputs env o).mapError fun cause =>
    (Stop.ofFailure cause).halt env.files
  let block : Except Failure Block := do
    explanationBlock node (← LockAudit.explain env.now accepted node index)
  let start : Result := { status := 0, files := env.files }
  let shown ← start.onConsole env.outputs [block]
  shown.onErrors env.outputs (index.diagnostics.map fun d => .plain d.text)

/-- Carries out a conversion. -/
def convert (env : Environment) (o : ExportOptions) : Result := settle env.outputs do
  let graph ← (Lockfile.Registry.standard.parseFile env.files o.lockfile o.lockFormat
    env.limits).mapError fun cause => (Stop.ofFailure cause).halt env.files
  match o.output with
  | none => Result.onOutput { status := 0, files := env.files } env.outputs graph.dump
  | some path =>
    let files ← (env.save env.files path graph.dump).mapError fun left =>
      (Stop.crashed left.2).halt left.1
    Result.onErrors { status := 0, files } env.outputs
      [.plain ("Wrote " ++ toString graph.nodes.length ++ " packages to " ++ path.text)]

/-- The version of the program. -/
def programVersion : String := "0.1.0"

/-- The blocks about what is supported. -/
def infoBlocks : List Block := [
  .panel (some "Information") "none" (.plain
    ("[bold blue]dep-audit[/bold blue] " ++ programVersion ++
      "\nAudits resolved dependency lock files against\na vulnerability advisory database")),
  .plain ("\n[bold]Lock file formats:[/bold] " ++
    ", ".intercalate Lockfile.Registry.standard.names),
  .plain ("[bold]Lock file names:[/bold] " ++
    ", ".intercalate Lockfile.Registry.standard.fileNames),
  .plain ("[bold]Severities:[/bold] " ++ ", ".intercalate (Severity.all.map (·.name)))]

/-- Shows what is supported. -/
def info (env : Environment) : Result :=
  settle env.outputs (Result.onConsole { status := 0, files := env.files } env.outputs
    (infoBlocks.map .ok))

/-- Carries out what a command line asks for; none if it is rejected or asks for
help, for which nothing is done. -/
def execute (env : Environment) : Request → Option Result
  | .audit o => some (audit env o)
  | .explain o => some (explain env o)
  | .convert o => some (convert env o)
  | .info => some (info env)
  | .help | .rejected => none

end LockAudit.Command
