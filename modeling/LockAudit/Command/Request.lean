import LockAudit.Command.Arguments
import LockAudit.File.Path
import LockAudit.Number.Decimal

/-!
# Commands

There are four commands: to audit a lock file, to explain what advisories say
about one version, to convert a lock file, and to show what is supported. A
command line that names none of them, or does not fit its options, is rejected.
-/

namespace LockAudit.Command

/-- The options of an audit. -/
structure AuditOptions where
  advisories : String
  lockfile : File.Path := .ofText "Cargo.lock"
  lockFormat : Option String := none
  cache : Option File.Path := none
  noCache : Bool := false
  cacheMaxAge : Option String := none
  allowStale : Bool := false
  refresh : Bool := false
  suppressions : Option File.Path := none
  ignore : List String := []
  failSeverity : Option String := none
  escalateDirect : Bool := false
  dropWithdrawn : Bool := false
  format : String := "text"
  output : Option File.Path := none
  timeout : Option Float := none
  workers : Option Int := none
  performance : Bool := false

/-- The options of an explanation. -/
structure ExplainOptions where
  package : String
  version : String
  advisories : String
  suppressions : Option File.Path := none
  timeout : Float := 30.0

/-- The options of a conversion. -/
structure ExportOptions where
  lockfile : File.Path := .ofText "Cargo.lock"
  lockFormat : Option String := none
  output : Option File.Path := none

/-- What a command line asks for. -/
inductive Request where
  | audit (o : AuditOptions)
  | explain (o : ExplainOptions)
  | convert (o : ExportOptions)
  | info
  | help
  | rejected

/-- The option that asks for help, which every command has. -/
def helpSpec : OptionSpec := { name := "--help" }

/-- An option with a value. -/
def valued (name : String) (letter : Option Char := none) : OptionSpec := ⟨name, letter, true⟩

/-- An option without a value. -/
def flag (name : String) (letter : Option Char := none) : OptionSpec := ⟨name, letter, false⟩

/-- The options that an audit may have. -/
def auditSpecs : List OptionSpec := [
  valued "--lockfile" 'l', valued "--advisories" 'a', valued "--lock-format", valued "--cache",
  flag "--no-cache", valued "--cache-max-age", flag "--allow-stale", flag "--refresh",
  valued "--suppressions" 's', valued "--ignore" 'i', valued "--fail-severity",
  flag "--escalate-direct", flag "--drop-withdrawn", valued "--format" 'f',
  valued "--output" 'o', valued "--timeout", valued "--workers", flag "--performance",
  flag "--verbose" 'v', helpSpec]

/-- The options that an explanation may have. -/
def explainSpecs : List OptionSpec := [
  valued "--advisories" 'a', valued "--suppressions" 's', valued "--timeout",
  flag "--verbose" 'v', helpSpec]

/-- The options that a conversion may have. -/
def exportSpecs : List OptionSpec := [valued "--lock-format", valued "--output" 'o', helpSpec]

/-- The path given for an option. -/
def Arguments.path? (a : Arguments) (name : String) : Option File.Path :=
  (a.value? name).map .ofText

/-- The number given for an option: none if there is none; it has to be one. -/
def Arguments.real? (a : Arguments) (name : String) : Option (Option Float) :=
  match a.value? name with
  | some s => (Number.readFloat? s).map some
  | none => some none

/-- The integer given for an option: none if there is none; it has to be one. -/
def Arguments.integer? (a : Arguments) (name : String) : Option (Option Int) :=
  match a.value? name with
  | some s => match Number.readInt s with
    | some (.ok n) => some (some n)
    | _ => none
  | none => some none

/-- The audit that arguments ask for. -/
def readAudit (a : Arguments) : Option AuditOptions := do
  let advisories ← a.value? "--advisories"
  let timeout ← a.real? "--timeout"
  let workers ← a.integer? "--workers"
  if !a.operands.isEmpty then none
  else some {
    advisories, timeout, workers
    lockfile := (a.path? "--lockfile").getD (.ofText "Cargo.lock")
    lockFormat := a.value? "--lock-format"
    cache := a.path? "--cache"
    noCache := a.has "--no-cache"
    cacheMaxAge := a.value? "--cache-max-age"
    allowStale := a.has "--allow-stale"
    refresh := a.has "--refresh"
    suppressions := a.path? "--suppressions"
    ignore := a.values "--ignore"
    failSeverity := a.value? "--fail-severity"
    escalateDirect := a.has "--escalate-direct"
    dropWithdrawn := a.has "--drop-withdrawn"
    format := (a.value? "--format").getD "text"
    output := a.path? "--output"
    performance := a.has "--performance" }

/-- The explanation that arguments ask for. -/
def readExplain (a : Arguments) : Option ExplainOptions := do
  let advisories ← a.value? "--advisories"
  let timeout ← a.real? "--timeout"
  match a.operands with
  | [package, version] =>
    some {
      package, version, advisories
      suppressions := a.path? "--suppressions"
      timeout := timeout.getD 30.0 }
  | _ => none

/-- The conversion that arguments ask for. -/
def readExport (a : Arguments) : Option ExportOptions :=
  match a.operands with
  | _ :: _ :: _ => none
  | operands => some {
      lockfile := (operands.head?.map .ofText).getD (.ofText "Cargo.lock")
      lockFormat := a.value? "--lock-format"
      output := a.path? "--output" }

/-- What the arguments after a command's name ask for. -/
def readWith {α : Type} (specs : List OptionSpec) (read : Arguments → Option α) (make : α → Request)
    (args : List String) : Request :=
  match Arguments.read specs args with
  | none => .rejected
  | some a =>
    if a.has helpSpec.name then .help
    else match read a with
      | some options => make options
      | none => .rejected

/-- What a command line asks for, from the name of the command on. -/
def readCommand : List String → Request
  | "audit" :: args => readWith auditSpecs readAudit .audit args
  | "advisories" :: args => readWith explainSpecs readExplain .explain args
  | "export" :: args => readWith exportSpecs readExport .convert args
  | "info" :: args =>
    readWith [helpSpec] (fun a => if a.operands.isEmpty then some () else none) (fun _ => .info)
      args
  | _ => .rejected

/-- What a command line asks for when its own options have been read up to some
point; whether help was asked for so far is given. -/
def readGroup (helpAsked : Bool) : List String → Request
  | [] => if helpAsked then .help else .rejected
  | arg :: args =>
    if arg = helpSpec.name then readGroup true args
    else if arg = "--" then if helpAsked then .help else readCommand args
    else if holdsOptions arg then .rejected
    else if helpAsked then .help
    else readCommand (arg :: args)

/-- What a command line asks for. -/
def Request.read (args : List String) : Request := readGroup false args

end LockAudit.Command
