import LockAudit.Text.Quoted

/-!
# File faults

Five things can go wrong with a file by what stands where. Besides, the system may
refuse anything for a reason of its own, such as a full disk. Each has its number
and wording. A fault names the path it happened at, and for a renaming both paths;
one in a file that is already open names none.
-/

namespace LockAudit.File

/-- What went wrong. -/
inductive Cause where
  | notFound
  | exists
  | notDirectory
  | isDirectory
  | busy
  /-- The system has a reason of its own. -/
  | other (number : Nat) (reason : String)
  deriving DecidableEq, Repr

/-- The number of a cause. -/
def Cause.number : Cause → Nat
  | .notFound => 2
  | .exists => 17
  | .notDirectory => 20
  | .isDirectory => 21
  | .busy => 16
  | .other number _ => number

/-- The wording of a cause. -/
def Cause.reason : Cause → String
  | .notFound => "No such file or directory"
  | .exists => "File exists"
  | .notDirectory => "Not a directory"
  | .isDirectory => "Is a directory"
  | .busy => "Device or resource busy"
  | .other _ reason => reason

/-- Something went wrong at a path, or between two paths; the path is empty when the
fault names none. -/
structure Fault where
  cause : Cause
  path : String
  target : Option String := none
  deriving DecidableEq, Repr

/-- What is said about a fault. -/
def Fault.message (f : Fault) : String :=
  "[Errno " ++ toString f.cause.number ++ "] " ++ f.cause.reason ++
    (if f.path.isEmpty then "" else ": " ++ Text.quote f.path) ++
    match f.target with
    | some target => " -> " ++ Text.quote target
    | none => ""

end LockAudit.File
