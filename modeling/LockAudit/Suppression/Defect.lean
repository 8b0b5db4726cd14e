import LockAudit.Json.Decode
import LockAudit.Version.Expression

/-!
# Defects of suppressions

A suppression that cannot be honoured exactly as written is refused, and with it
the file it stands in.
-/

namespace LockAudit.Suppression

/-- Why a suppression or a suppression file is refused. -/
inductive Defect where
  | notATable
  | unknownKeys (keys : List String)
  | notText (key : String)
  | reasonMissing
  | invalidVersion (cause : VersionRange.Defect)
  | invalidExpiry (shown : String)
  | noTarget
  | unreadable (message : String)
  | invalidJson (line : Nat) (cause : Json.Defect)
  | invalidToml (message : String)
  | notAList
  deriving DecidableEq, Repr

/-- What is said about a refused suppression. -/
def Defect.reason : Defect → String
  | .notATable => "entry must be a table/object"
  | .unknownKeys keys => "unknown keys: " ++ ", ".intercalate keys
  | .notText key => "'" ++ key ++ "' must be a string"
  | .reasonMissing => "'reason' is required"
  | .invalidVersion cause => "invalid 'version': " ++ cause.reason
  | .invalidExpiry shown => "invalid 'expires': " ++ shown
  | .noTarget => "a suppression needs an 'id' or a 'package'"
  | .unreadable message => "cannot read file: " ++ message
  | .invalidJson line cause => "invalid JSON at line " ++ toString line ++ ": " ++ cause.message
  | .invalidToml message => "invalid TOML: " ++ message
  | .notAList => "expected a list of suppressions"

/-- Which entry of which file is meant, as far as it is known. -/
structure Place where
  entry : Option Nat := none
  path : Option String := none
  deriving DecidableEq, Repr

/-- The written form of a place. -/
def Place.text (p : Place) : String :=
  (match p.path with
    | some path => if path.isEmpty then "suppressions" else path
    | none => "suppressions") ++
  match p.entry with
  | some entry => " (entry " ++ toString entry ++ ")"
  | none => ""

end LockAudit.Suppression
