import LockAudit.Lockfile.Builder
import LockAudit.Toml.Decode

/-!
# Lock files with package tables

A lock file of this format is a TOML document with one `[[package]]` table per
package. Packages without a source belong to the workspace.

Defects are located by line. For an entry that is the line of its header, taken
from the lines that consist of the header alone; for a text that is no TOML it is
read off the message about it, at the first place in the message that looks like
a location.
-/

namespace LockAudit.Lockfile.Cargo

/-- The digits of a line number between two texts at the front of a message. -/
def locationAt (cs : List Char) : Option (List Char) :=
  let before := "(at line ".toList
  let between := ", column ".toList
  if before.isPrefixOf cs then
    let rest := cs.drop before.length
    let line := rest.takeWhile Text.isDigit
    let rest := rest.drop line.length
    if !line.isEmpty && between.isPrefixOf rest then
      let rest := rest.drop between.length
      let column := rest.takeWhile Text.isDigit
      if !column.isEmpty && (rest.drop column.length).head? = some ')' then some line else none
    else none
  else none

/-- The digits of the first line number in a message. -/
def firstLocation : List Char → Option (List Char)
  | [] => none
  | c :: cs =>
    match locationAt (c :: cs) with
    | some line => some line
    | none => firstLocation cs

/-- The failure of a text that is no TOML. -/
def malformed (path : Option String) (message : String) : Failure :=
  match firstLocation message.toList with
  | none => .lockfile (.invalidToml message) ⟨none, path⟩
  | some digits =>
    match Number.ofDigits digits with
    | .ok line => .lockfile (.invalidToml message) ⟨some line, path⟩
    | .error cause => .oversized cause

/-- The numbers of the lines that hold a package header and nothing else. -/
def headerLines (cs : List Char) : List Nat :=
  ((Text.lines cs).zipIdx 1).filterMap fun (line, number) =>
    if Text.stripList line = "[[package]]".toList then some number else none

/-- A defect of an entry. -/
def refuse {α : Type} (b : Builder) (line : Option Nat) (d : EntryDefect) : Except Failure α :=
  b.fail line (.entry .table d)

/-- The builder with the entry of one package added. -/
def addEntry (b : Builder) (entry : Value) (line : Option Nat) : Except Failure Builder := do
  match entry with
  | .table fields =>
    match Value.field "name" fields with
    | .text name =>
      if Text.isBlankText name then refuse b line .nameMissing
      else match Value.field "version" fields with
      | .text version =>
        let source ← b.readSource line .table name fields
        let references ← b.readReferences line .table name fields
        pure (← b.add name version source references false line).1
      | _ => refuse b line (.versionMissing name)
    | _ => refuse b line .nameMissing
  | _ => refuse b line .notATable

/-- The builder with the entries of packages added, each with the line of its
header as far as headers were found. -/
def addEntries (b : Builder) : List Value → List Nat → Except Failure Builder
  | [], _ => .ok b
  | entry :: entries, [] => do addEntries (← addEntry b entry none) entries []
  | entry :: entries, line :: lines => do
    addEntries (← addEntry b entry (some line)) entries lines

/-- The graph of a lock file's text. -/
def parseText (cs : List Char) (path : Option String) : Except Failure Graph := do
  match Toml.decode cs with
  | .error (.oversized cause) => throw (.oversized cause)
  | .error (.malformed defect rest) =>
    throw (malformed path (Toml.describe (Toml.source cs) defect rest))
  | .ok fields =>
    match (Value.lookup? "package" fields).getD (.list []) with
    | .list packages => (← addEntries { path } packages (headerLines cs)).build
    | _ => throw (.lockfile .packageNotTables ⟨none, path⟩)

end LockAudit.Lockfile.Cargo
