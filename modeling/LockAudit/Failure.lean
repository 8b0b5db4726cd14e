import LockAudit.Advisory.Defect
import LockAudit.Calendar.Iso
import LockAudit.File.Fault
import LockAudit.Lockfile.Defect
import LockAudit.Suppression.Defect

/-!
# Failures

Everything that can stop an operation is a `Failure`: one constructor per cause,
with what its message needs. Who handles a failure depends on its class, not on
its cause, so there are three predicates: failures of the audit's own inputs,
file faults, and values that are not allowed where they stand. A command reports
those three to its user; any other failure ends it.
-/

namespace LockAudit

/-- Why a value is not allowed where it stands. -/
inductive ValueDefect where
  | emptyName
  | unknownEdge (parent child : String)
  | unknownFormat (name : String) (known : List String)
  | noReader (file : String)
  | notAFile (path : String)
  | noRoot (path : String)
  | severityNotText (shown : String)
  | unknownSeverity (text : String)
  | unknownPolicy (text : String)
  | notABoolean (text : String)
  | notAnInteger (text : String)
  | notAFloat (text : String)
  | notANumber
  | notATimestamp (shown : String)
  | iso (cause : Calendar.Iso.Fault)
  | calendar (cause : Calendar.Defect)
  | notADuration (shown : String)
  | negativeAge (age : Calendar.Duration)
  | timeoutNotPositive (shown : String)
  | tooFewWorkers (given : Int)
  | noTokenName
  | noOutputFile
  deriving DecidableEq

/-- What is said about a value that is not allowed. -/
def ValueDefect.message : ValueDefect → String
  | .emptyName => "Dependency name cannot be empty"
  | .unknownEdge parent child => "Edge references unknown node: " ++ parent ++ " -> " ++ child
  | .unknownFormat name known =>
    "Unknown lock file format " ++ Text.quote name ++ " (supported: " ++ ", ".intercalate known ++ ")"
  | .noReader file => "No parser for lock file " ++ Text.quote file ++ "; pass --lock-format"
  | .notAFile path => "Path is not a file: " ++ path
  | .noRoot path => "Root path does not exist: " ++ path
  | .severityNotText shown => "severity must be a string, got " ++ shown
  | .unknownSeverity text => "unknown severity " ++ Text.quote text
  | .unknownPolicy text => Text.quote text ++ " is not a valid WithdrawnPolicy"
  | .notABoolean text => "expected a boolean, got " ++ Text.quote text
  | .notAnInteger text => "invalid literal for int() with base 10: " ++ Text.quote text
  | .notAFloat text => "could not convert string to float: " ++ Text.quote text
  | .notANumber => "cannot convert float NaN to integer"
  | .notATimestamp shown => "invalid timestamp " ++ shown
  | .iso cause => cause.message
  | .calendar cause => cause.message
  | .notADuration shown => "invalid duration " ++ shown ++ " (expected e.g. 3600, 30m, 24h, 7d)"
  | .negativeAge age => "Cache max age must not be negative: " ++ age.clockText
  | .timeoutNotPositive shown => "Timeout must be positive: " ++ shown
  | .tooFewWorkers given => "max_workers must be at least 1: " ++ toString given
  | .noTokenName => "token_env must name an environment variable"
  | .noOutputFile => "No output file specified"

/-- What lies outside a range that nothing can be said about. -/
inductive RangeOverflow where
  | date
  | duration (cause : Calendar.Duration.Overflow)
  | infiniteDuration
  deriving DecidableEq

/-- What is said about a value out of range. -/
def RangeOverflow.message : RangeOverflow → String
  | .date => "date value out of range"
  | .duration cause => cause.message
  | .infiniteDuration => "cannot convert float infinity to integer"

/-- What a value was used for that values of its kind cannot be used for. -/
inductive KindDefect where
  | unzoned (cause : Calendar.UnzonedDefect)
  | notAText (kind : String)
  | unknownSetting (name : String)
  | comparison (operator left right : String)
  deriving DecidableEq

/-- What is said about a value of the wrong kind. -/
def KindDefect.message : KindDefect → String
  | .unzoned cause => cause.message
  | .notAText kind => "expected string or bytes-like object, got '" ++ kind ++ "'"
  | .unknownSetting name =>
    "AuditConfig.__init__() got an unexpected keyword argument " ++ Text.quote name
  | .comparison operator left right =>
    "'" ++ operator ++ "' not supported between instances of '" ++ left ++ "' and '" ++ right ++ "'"

/-- Why an operation stops. -/
inductive Failure where
  | version (text : String) (defect : Version.Defect)
  | range (text : String) (defect : VersionRange.Defect)
  | lockfile (defect : Lockfile.Defect) (place : Lockfile.Place)
  | advisories (defect : Advisory.LoadDefect) (origin : String)
  | suppression (defect : Suppression.Defect) (place : Suppression.Place)
  | oversized (cause : Number.Oversized)
  | value (defect : ValueDefect)
  | overflow (cause : RangeOverflow)
  | kind (defect : KindDefect)
  | missingKey (key : String)
  | noFields (owner : String)
  | file (fault : File.Fault)
  | fileMissing (path : String)
  /-- A document takes more of the stack than is left. -/
  | tooDeep (said : String)
  | broken (message : String)
  /-- A failure of something that the program uses, of a class that no handler asks for. -/
  | foreign (className message : String)
  deriving DecidableEq

namespace Failure

/-- What is said about a failure. -/
def message : Failure → String
  | version text defect => (Version.Fault.malformed text defect).message
  | range text defect => (VersionRange.Fault.malformed text defect).message
  | lockfile defect place => place.text ++ ": " ++ defect.reason
  | advisories defect origin =>
    if origin.isEmpty then defect.reason else origin ++ ": " ++ defect.reason
  | suppression defect place => place.text ++ ": " ++ defect.reason
  | oversized cause => cause.message
  | value defect => defect.message
  | overflow cause => cause.message
  | kind defect => defect.message
  | missingKey key => Text.quote key
  | noFields owner => "'" ++ owner ++ "' object has no attribute 'get'"
  | file fault => fault.message
  | fileMissing path => "File not found: " ++ path
  | tooDeep said => said
  | broken message => message
  | foreign _ message => message

/-- What diagnostics call the class of a failure. -/
def className : Failure → String
  | version .. => "MalformedVersion"
  | range .. => "MalformedRange"
  | lockfile (.unresolvedVersion ..) _ => "UnresolvedVersionError"
  | lockfile .. => "LockfileFormatError"
  | advisories defect _ => if defect.isTimeout then "AdvisoryTimeoutError" else "AdvisoryLoadError"
  | suppression .. => "SuppressionConfigError"
  | oversized _ | value _ => "ValueError"
  | overflow _ => "OverflowError"
  | kind _ => "TypeError"
  | missingKey _ => "KeyError"
  | noFields _ => "AttributeError"
  | fileMissing _ => "FileNotFoundError"
  | file fault => match fault.cause with
    | .notFound => "FileNotFoundError"
    | .exists => "FileExistsError"
    | .notDirectory => "NotADirectoryError"
    | .isDirectory => "IsADirectoryError"
    | .busy => "OSError"
    | .other number _ => if number = 1 ∨ number = 13 then "PermissionError" else "OSError"
  | tooDeep _ => "RecursionError"
  | broken _ => "RuntimeError"
  | foreign name _ => name

/-- The failure is one of the audit's own inputs. -/
def isAuditError : Failure → Bool
  | version .. | range .. | lockfile .. | advisories .. | suppression .. => true
  | _ => false

/-- The failure is that of a file. -/
def isFileError : Failure → Bool
  | file _ | fileMissing _ => true
  | _ => false

/-- The failure is that of a value that is not allowed. -/
def isValueError : Failure → Bool
  | version .. | range .. | oversized _ | value _ => true
  | _ => false

/-- A command reports the failure to its user instead of ending in it. -/
def isReported (f : Failure) : Bool := f.isAuditError || f.isFileError || f.isValueError

/-- The failure of a version that cannot be read. -/
def ofVersion : Version.Fault → Failure
  | .malformed text defect => .version text defect
  | .oversized cause => .oversized cause

/-- The failure of a range that cannot be read. -/
def ofRange : VersionRange.Fault → Failure
  | .malformed text defect => .range text defect
  | .oversized cause => .oversized cause

/-- The failure of a duration that cannot be read. -/
def ofDuration : Calendar.Duration.ReadDefect → Failure
  | .notADuration text => .value (.notADuration (Text.quote text))
  | .oversized cause => .oversized cause
  | .unknownUnit unit => .missingKey unit
  | .overflow cause => .overflow (.duration cause)

/-- The failure of a double that is no number of units of time. -/
def ofReal : Calendar.Duration.RealDefect → Failure
  | .notANumber => .value .notANumber
  | .infinite => .overflow .infiniteDuration
  | .overflow cause => .overflow (.duration cause)

end Failure

instance : MonadLift (Except Number.Oversized) (Except Failure) := ⟨(·.mapError .oversized)⟩

instance : MonadLift (Except Version.Fault) (Except Failure) := ⟨(·.mapError .ofVersion)⟩

instance : MonadLift (Except VersionRange.Fault) (Except Failure) := ⟨(·.mapError .ofRange)⟩

instance : MonadLift (Except Calendar.Duration.ReadDefect) (Except Failure) :=
  ⟨(·.mapError .ofDuration)⟩

instance : MonadLift (Except Calendar.Duration.RealDefect) (Except Failure) :=
  ⟨(·.mapError .ofReal)⟩

instance : MonadLift (Except Calendar.Duration.Overflow) (Except Failure) :=
  ⟨(·.mapError fun e => .overflow (.duration e))⟩

instance : MonadLift (Except ValueDefect) (Except Failure) := ⟨(·.mapError .value)⟩

instance : MonadLift (Except Calendar.UnzonedDefect) (Except Failure) :=
  ⟨(·.mapError fun e => .kind (.unzoned e))⟩

instance : MonadLift (Except File.Fault) (Except Failure) := ⟨(·.mapError .file)⟩

end LockAudit
