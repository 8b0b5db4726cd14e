import LockAudit.Json.Decode
import LockAudit.Text.Utf8
import LockAudit.File.Fault

/-!
# Defects of advisory feeds

A load fails when the feed cannot be had, or when it is not a list of advisories.
Single advisories never make a load fail; what is wrong with them is reported
beside the index.
-/

namespace LockAudit.Advisory

/-- Why a load fails. -/
inductive LoadDefect where
  | notUtf8 (cause : Text.Utf8.Defect)
  | invalidJson (line : Nat) (cause : Json.Defect)
  | notAList
  | unreadable (cause : File.Cause)
  | timedOut (limit : String)
  | requestFailed (name : String)
  | badStatus (status : Int)
  | reported (timeout : Bool) (message : String)
  deriving DecidableEq, Repr

/-- The load took longer than allowed. -/
def LoadDefect.isTimeout : LoadDefect → Bool
  | .timedOut _ => true
  | .reported timeout _ => timeout
  | _ => false

/-- What is said about a failed load. -/
def LoadDefect.reason : LoadDefect → String
  | .notUtf8 cause => "feed is not valid UTF-8: " ++ cause.reason
  | .invalidJson line cause => "invalid JSON at line " ++ toString line ++ ": " ++ cause.message
  | .notAList => "expected a list of advisories or an object with 'advisories'"
  | .unreadable cause => "cannot read advisory file: " ++ cause.reason
  | .timedOut limit => "timed out after " ++ limit ++ "s"
  | .requestFailed name => "request failed: " ++ name
  | .badStatus status => "HTTP " ++ toString status
  | .reported _ message => message

end LockAudit.Advisory
