import LockAudit.Advisory.Database
import LockAudit.File.Users

/-!
# Configuration

A configuration starts from defaults, takes settings from the environment or from
a table, and can be overridden. It is checked as a whole each time it changes:
ages are not negative, the time limit is positive, there is at least one worker,
and the token's variable has a name.

Settings are read first and checked afterwards. `Changes` holds what was read.
-/

namespace LockAudit

/-- The settings of a run. -/
structure Config where
  failSeverity : Severity := .low
  cachePath : Option File.Path := none
  /-- The oldest age at which the cache is fresh; without one it never is. -/
  cacheMaxAge : Option Calendar.Duration := some .day
  allowStale : Bool := false
  forceRefresh : Bool := false
  /-- How many seconds fetching may take. -/
  timeout : Number.Amount := .real 30.0
  tokenName : String := Advisory.standardTokenName
  withdrawn : Advisory.WithdrawnPolicy := .retain
  escalateDirect : Bool := false
  /-- How many packages are matched at a time; what is found does not depend on it. -/
  maxWorkers : Int := 1
  lockFormat : Option String := none

namespace Config

/-- New values for some settings. -/
structure Changes where
  failSeverity : Option Severity := none
  cachePath : Option File.Path := none
  cacheMaxAge : Option (Option Calendar.Duration) := none
  allowStale : Option Bool := none
  forceRefresh : Option Bool := none
  timeout : Option Number.Amount := none
  tokenName : Option String := none
  withdrawn : Option Advisory.WithdrawnPolicy := none
  escalateDirect : Option Bool := none
  maxWorkers : Option Int := none
  lockFormat : Option String := none

/-- The configuration with new values, before it is checked. -/
def update (c : Config) (new : Changes) : Config where
  failSeverity := new.failSeverity.getD c.failSeverity
  cachePath := new.cachePath.or c.cachePath
  cacheMaxAge := new.cacheMaxAge.getD c.cacheMaxAge
  allowStale := new.allowStale.getD c.allowStale
  forceRefresh := new.forceRefresh.getD c.forceRefresh
  timeout := new.timeout.getD c.timeout
  tokenName := new.tokenName.getD c.tokenName
  withdrawn := new.withdrawn.getD c.withdrawn
  escalateDirect := new.escalateDirect.getD c.escalateDirect
  maxWorkers := new.maxWorkers.getD c.maxWorkers
  lockFormat := new.lockFormat.or c.lockFormat

/-- The configuration, if it is valid. -/
def check (c : Config) : Except ValueDefect Config := do
  match c.cacheMaxAge with
  | some age => if age.micros < 0 then throw (.negativeAge age)
  | none => pure ()
  if c.timeout.isAtMostZero then throw (.timeoutNotPositive c.timeout.text)
  if c.maxWorkers < 1 then throw (.tooFewWorkers c.maxWorkers)
  if c.tokenName.isEmpty then throw .noTokenName
  pure c

/-- The configuration with new values, if it is valid. -/
def change (c : Config) (new : Changes) : Except ValueDefect Config := (c.update new).check

/-! ## Settings in a table -/

/-- The names of settings in a table. -/
def settingNames : List String := [
  "fail_severity", "cache_path", "cache_max_age", "allow_stale", "force_refresh", "timeout",
  "token_env", "withdrawn_policy", "escalate_direct", "max_workers", "lock_format"]

/-- The number of seconds that a value states, if it is a number. -/
def readSeconds? : Value → Except Failure (Option Calendar.Duration)
  | .int n => do pure (some (← (Calendar.Duration.ofSeconds n).checked))
  | .float x => do pure (some (← Calendar.Duration.ofReal Calendar.Duration.secondUnit x))
  | _ => pure none

/-- The age that a setting states: seconds, a text, or no age at all. -/
def readAge (seconds : Option Calendar.Duration) : Value → Except Failure (Option Calendar.Duration)
  | .text s => do pure (some (← Calendar.Duration.read s))
  | _ => pure seconds

/-- The amount that a setting states. -/
def readAmount : Value → Except KindDefect Number.Amount
  | .int n => .ok (.whole n)
  | .float x => .ok (.real x)
  | .bool b => .ok (.whole (if b then 1 else 0))
  | v => .error (.comparison "<=" v.kindName "int")

/-- The count that a setting states. -/
def readCount : Value → Except KindDefect Int
  | .int n => .ok n
  | .bool b => .ok (if b then 1 else 0)
  | v => .error (.comparison "<" v.kindName "int")

/-- The policy that a word names, in any case. -/
def readPolicy (s : String) : Except ValueDefect Advisory.WithdrawnPolicy :=
  Advisory.WithdrawnPolicy.ofText (Text.lower s)

/-- The severity that a setting states. -/
def readSeverity? (fields : List (String × Value)) : Except Failure (Option Severity) :=
  (Value.lookup? "fail_severity" fields).mapM Severity.ofValue

/-- The policy that a setting states. -/
def readPolicy? (fields : List (String × Value)) :
    Except ValueDefect (Option Advisory.WithdrawnPolicy) :=
  ((Value.lookup? "withdrawn_policy" fields).bind (·.text?)).mapM readPolicy

/-- The settings that a table states. -/
def Changes.ofFields (fields : List (String × Value)) : Except Failure Changes := do
  let seconds ← readSeconds? (Value.field "cache_max_age" fields)
  match fields.find? fun f => !settingNames.contains f.1 with
  | some (name, _) => throw (.kind (.unknownSetting name))
  | none => pure ()
  let failSeverity ← readSeverity? fields
  let withdrawn ← readPolicy? fields
  let cacheMaxAge ← (Value.lookup? "cache_max_age" fields).mapM (readAge seconds)
  let timeout ← (Value.lookup? "timeout" fields).mapM fun v => (readAmount v).mapError .kind
  let maxWorkers ← (Value.lookup? "max_workers" fields).mapM fun v => (readCount v).mapError .kind
  pure {
    failSeverity, withdrawn, cacheMaxAge, timeout, maxWorkers
    cachePath := ((Value.field "cache_path" fields).text?).map .ofText
    allowStale := (Value.lookup? "allow_stale" fields).map (·.isGiven)
    forceRefresh := (Value.lookup? "force_refresh" fields).map (·.isGiven)
    tokenName := (Value.lookup? "token_env" fields).map fun v => v.text?.getD ""
    escalateDirect := (Value.lookup? "escalate_direct" fields).map (·.isGiven)
    lockFormat := (Value.field "lock_format" fields).text? }

/-- The configuration that a table of settings states. -/
def ofFields (fields : List (String × Value)) : Except Failure Config := do
  pure (← change {} (← Changes.ofFields fields))

/-- The configuration with the settings of a table; `null` leaves a setting as it
is. -/
def override (c : Config) (fields : List (String × Value)) : Except Failure Config := do
  let given := fields.filter fun f => match f.2 with
    | .null => false
    | _ => true
  pure (← c.change (← Changes.ofFields given))

/-! ## The environment -/

/-- A setting in the environment; an empty text is no setting. -/
def fromEnvironment? (environment : List (String × String)) (name : String) : Option String :=
  (environment.lookup ("DEP_AUDIT_" ++ name)).filter (!·.isEmpty)

/-- The truth value that a word stands for. -/
def readFlag (s : String) : Except ValueDefect Bool :=
  let word := Text.lower (Text.strip s)
  if ["1", "true", "yes", "on"].contains word then .ok true
  else if ["0", "false", "no", "off", ""].contains word then .ok false
  else .error (.notABoolean s)

/-- The double that a text spells. -/
def readReal (s : String) : Except ValueDefect Number.Amount :=
  match Number.readFloat? s with
  | some x => .ok (.real x)
  | none => .error (.notAFloat s)

/-- The integer that a text spells. -/
def readInteger (s : String) : Except Failure Int :=
  match Number.readInt s with
  | some (.ok n) => .ok n
  | some (.error cause) => .error (.oversized cause)
  | none => .error (.value (.notAnInteger s))

/-- A path in which a tilde stands for a home directory. -/
def readPath (users : File.Users) (s : String) : Except Failure File.Path :=
  match users.expand? (.ofText s) with
  | some path => .ok path
  | none => .error (.broken "Could not determine home directory.")

/-- The settings in the environment. -/
def Changes.ofEnvironment (users : File.Users) (environment : List (String × String)) :
    Except Failure Changes := do
  let get := fromEnvironment? environment
  let failSeverity ← (get "FAIL_SEVERITY").mapM fun s => (Severity.ofText s).mapError .value
  let cachePath ← (get "CACHE").mapM (readPath users)
  let age ← (get "CACHE_MAX_AGE").mapM fun s => (Calendar.Duration.read s).mapError .ofDuration
  let allowStale ← (get "ALLOW_STALE").mapM fun s => (readFlag s).mapError .value
  let timeout ← (get "TIMEOUT").mapM fun s => (readReal s).mapError .value
  let withdrawn ← (get "WITHDRAWN").mapM fun s => (readPolicy s).mapError .value
  let escalateDirect ← (get "ESCALATE_DIRECT").mapM fun s => (readFlag s).mapError .value
  let maxWorkers ← (get "WORKERS").mapM readInteger
  pure {
    failSeverity, cachePath, allowStale, timeout, withdrawn, escalateDirect, maxWorkers
    cacheMaxAge := age.map some }

/-- The configuration that the environment states. -/
def ofEnvironment (users : File.Users) (environment : List (String × String)) :
    Except Failure Config := do
  pure (← change {} (← Changes.ofEnvironment users environment))

/-- How a run with this configuration uses the cache, if it uses one. -/
def cacheUse (c : Config) : Option Advisory.CacheUse :=
  c.cachePath.map fun path => ⟨path, c.cacheMaxAge, c.allowStale, c.forceRefresh⟩

end Config

end LockAudit
