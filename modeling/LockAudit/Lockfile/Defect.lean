import LockAudit.Json.Decode
import LockAudit.Text.Utf8

/-!
# Defects of lock files

A lock file is refused for what its bytes, its document, one of its entries or
one of its references is. An entry is named by the format it came from: by its
package in the table format, by its position in the object format.
-/

namespace LockAudit.Lockfile

/-- How an entry is named in complaints. -/
inductive EntryLabel where
  | table
  | object (index : Nat)
  deriving DecidableEq, Repr

/-- What is wrong with an entry. -/
inductive EntryDefect where
  | notATable
  | nameMissing
  | versionMissing (name : String)
  | sourceNotText (name : String)
  | directNotBool (name : String)
  | dependenciesNotTexts (name : String)
  deriving DecidableEq, Repr

/-- The package that a complaint about an entry names. -/
def EntryLabel.subject (l : EntryLabel) (name : String) : String :=
  match l with
  | .table => "package " ++ Text.quote name
  | .object index => "packages[" ++ toString index ++ "] (" ++ name ++ ")"

/-- What is said about an entry. -/
def EntryDefect.reason (l : EntryLabel) : EntryDefect → String
  | .notATable =>
    match l with
    | .table => "package entry must be a table"
    | .object index => "packages[" ++ toString index ++ "] must be an object"
  | .nameMissing =>
    match l with
    | .table => "package entry is missing 'name'"
    | .object index => "packages[" ++ toString index ++ "] is missing 'name'"
  | .versionMissing name => l.subject name ++ " is missing 'version'"
  | .sourceNotText name => l.subject name ++ " has a non-string 'source'"
  | .directNotBool name => l.subject name ++ " 'direct' must be a boolean"
  | .dependenciesNotTexts name => l.subject name ++ " 'dependencies' must be an array of strings"

/-- Why a lock file is refused. -/
inductive Defect where
  | notUtf8 (cause : Text.Utf8.Defect)
  | invalidToml (message : String)
  | invalidJson (cause : Json.Defect)
  | notAnObject
  | packageNotTables
  | packagesNotList
  | entry (label : EntryLabel) (cause : EntryDefect)
  | unresolvedVersion (package version : String)
  | emptyName
  | badReference (reference : String)
  | badReferenceVersion (reference : String)
  | unknownReference (reference : String)
  | ambiguousReference (reference : String)
  deriving DecidableEq, Repr

/-- What is said about a refused lock file. -/
def Defect.reason : Defect → String
  | .notUtf8 cause => "not valid UTF-8: " ++ cause.reason
  | .invalidToml message => "invalid TOML: " ++ message
  | .invalidJson cause => "invalid JSON: " ++ cause.message
  | .notAnObject => "top level must be an object"
  | .packageNotTables => "'package' must be an array of tables"
  | .packagesNotList => "'packages' must be an array"
  | .entry label cause => cause.reason label
  | .unresolvedVersion package version =>
    "package " ++ Text.quote package ++ " has unresolvable version " ++ Text.quote version
  | .emptyName => "Dependency name cannot be empty"
  | .badReference reference => "invalid dependency reference " ++ Text.quote reference
  | .badReferenceVersion reference =>
    "invalid version in dependency reference " ++ Text.quote reference
  | .unknownReference reference => "dependency " ++ Text.quote reference ++ " is not in the lock file"
  | .ambiguousReference reference =>
    "dependency reference " ++ Text.quote reference ++ " is ambiguous"

/-- Where a defect is: a line and a file, as far as they are known. -/
structure Place where
  line : Option Nat := none
  path : Option String := none
  deriving DecidableEq, Repr

/-- The written form of a place. -/
def Place.text (p : Place) : String :=
  (match p.path with
    | some path => if path.isEmpty then "lockfile" else path
    | none => "lockfile") ++
  match p.line with
  | some line => ":" ++ toString line
  | none => ""

end LockAudit.Lockfile
