import LockAudit.Advisory.Severity
import LockAudit.Calendar.Iso
import LockAudit.Diagnostic

/-!
# Advisory records

A record says that some versions of a package are vulnerable: those in its
affected range, except those in its patched range. It has an id and perhaps
aliases, by which suppressions find it. A withdrawn record says nothing any more
but is kept.

Reading an entry of a feed gives a record, or a defect for which the entry is
dropped, or a failure that no single entry accounts for: a number that is too
long, or a timestamp that leaves the calendar.
-/

namespace LockAudit.Advisory

/-- A published vulnerability. -/
structure Record where
  id : String
  package : String
  affected : VersionRange
  patched : VersionRange
  severity : Severity
  /-- Sorted, each once. -/
  aliases : List String := []
  withdrawn : Option Calendar.Instant := none
  title : String := ""
  url : Option String := none
  deriving DecidableEq

namespace Record

/-- The record has been withdrawn. -/
def isWithdrawn (r : Record) : Bool := r.withdrawn.isSome

/-- The record bears an identifier, as its id or as an alias. -/
def hasIdentifier (r : Record) (id : String) : Bool := id == r.id || r.aliases.contains id

/-- The record as a document. -/
def document (r : Record) : Except Number.Oversized Value := do
  let affected ← r.affected.groupTexts?
  let patched ← r.patched.groupTexts?
  pure (.table [
    ("id", .text r.id),
    ("package", .text r.package),
    ("affected", .list (affected.map .text)),
    ("patched", .list (patched.map .text)),
    ("severity", .text r.severity.name),
    ("aliases", .list (r.aliases.map .text)),
    ("withdrawn", .ofText? (r.withdrawn.map (·.text))),
    ("title", .text r.title),
    ("url", .ofText? r.url)])

end Record

/-- Why an entry of a feed is dropped. -/
inductive RecordDefect where
  | notATable
  | missing (field : String)
  | notARange (field : String)
  | invalidRange (field : String) (cause : VersionRange.Defect) (text : String)
  | neverMatches (field : String) (range : String)
  | severity (cause : ValueDefect)
  | aliasesNotTexts
  | invalidWithdrawn (message : String)
  | titleOrUrlNotText
  deriving DecidableEq

/-- What is said about a dropped entry. -/
def RecordDefect.message : RecordDefect → String
  | .notATable => "record is not an object"
  | .missing field => "missing '" ++ field ++ "'"
  | .notARange field => "'" ++ field ++ "' must be a range string or a list of them"
  | .invalidRange field cause text =>
    "invalid '" ++ field ++ "' range: " ++ cause.reason ++ " in " ++ Text.quote text
  | .neverMatches field range => field ++ " range " ++ range ++ " can never match"
  | .severity cause => cause.message
  | .aliasesNotTexts => "'aliases' must be a list of strings"
  | .invalidWithdrawn message => "invalid 'withdrawn' timestamp: " ++ message
  | .titleOrUrlNotText => "'title' and 'url' must be strings"

/-- What keeps an entry from being read. -/
inductive RecordFault where
  | dropped (defect : RecordDefect)
  | failed (cause : Failure)
  deriving DecidableEq

/-- The entry is dropped. -/
def drop {α : Type} (d : RecordDefect) : Except RecordFault α := .error (.dropped d)

/-- A text that is not blank, without the white space around it. -/
def readRequired (fields : List (String × Value)) (name : String) : Except RecordFault String :=
  match Value.field name fields with
  | .text s => if Text.isBlankText s then drop (.missing name) else .ok (Text.strip s)
  | _ => drop (.missing name)

/-- The value stands for no range at all. -/
def isNoRange : Value → Bool
  | .null | .text "" | .list [] => true
  | _ => false

/-- The expressions by which a value states a range. -/
def rangeTexts? : Value → Option (List String)
  | .text s => some [s]
  | value => value.texts?

/-- The range that a field states, by one expression or by several. -/
def readRange (fields : List (String × Value)) (name : String) :
    Except RecordFault VersionRange :=
  let value := Value.field name fields
  if isNoRange value then .ok .empty
  else
    match rangeTexts? value with
    | none => drop (.notARange name)
    | some texts => match VersionRange.parseAll texts with
      | .ok range => .ok range
      | .error (.malformed text cause) => drop (.invalidRange name cause text)
      | .error (.oversized cause) => .error (.failed (.oversized cause))

/-- Drops an entry for a range that no version lies in. -/
def refuseRange {α : Type} (name : String) (range : VersionRange) : Except RecordFault α :=
  match range.text? with
  | .ok text => drop (.neverMatches name text)
  | .error cause => .error (.failed (.oversized cause))

/-- The affected range. It has to be given, and some version has to lie in it. -/
def readAffected (fields : List (String × Value)) : Except RecordFault VersionRange :=
  if isNoRange (Value.field "affected" fields) then drop (.missing "affected")
  else do
    let affected ← readRange fields "affected"
    if affected.isSatisfiable then pure affected else refuseRange "affected" affected

/-- The patched range. If it is given, some version has to lie in it. -/
def readPatched (fields : List (String × Value)) : Except RecordFault VersionRange := do
  let patched ← readRange fields "patched"
  if patched.isEmpty || patched.isSatisfiable then pure patched else refuseRange "patched" patched

/-- The text of a timestamp without white space around it, and with no offset spelled
in place of the letter Z, wherever that occurs. -/
def plainTimestamp (s : String) : String :=
  String.ofList (Text.replaceChar 'Z' "+00:00".toList (Text.stripList s.toList))

/-- The instant that a text stands for. A missing offset is UTC. -/
def readInstant (s : String) : Except Failure Calendar.Instant := do
  let t ← (Calendar.Iso.readDateTime (plainTimestamp s)).mapError fun e => .value (.iso e)
  match t.toUtc with
  | some instant => pure instant
  | none => throw (.overflow .date)

/-- The instant that a value stands for. -/
def readTimestamp (v : Value) : Except Failure Calendar.Instant :=
  match v with
  | .dateTime t => match t.toUtc with
    | some instant => .ok instant
    | none => .error (.overflow .date)
  | .date d => .ok (.startOf d)
  | v => match v with
    | .text s =>
      if Text.isBlankText s then .error (.value (.notATimestamp (Text.quote s)))
      else readInstant s
    | v => match v.describe with
      | .ok shown => .error (.value (.notATimestamp shown))
      | .error cause => .error (.oversized cause)

/-- When the record was withdrawn, if it was. -/
def readWithdrawn (v : Value) : Except RecordFault (Option Calendar.Instant) :=
  if !v.isGiven then .ok none
  else match readTimestamp v with
    | .ok t => .ok (some t)
    | .error cause =>
      if cause.isValueError then drop (.invalidWithdrawn cause.message) else .error (.failed cause)

/-- The aliases that a value lists, without white space and sorted, each once. -/
def readAliases (v : Value) : Except RecordFault (List String) :=
  if !v.isGiven then .ok []
  else match v.texts? with
    | some texts =>
      let names := (texts.map Text.strip).filter (!·.isEmpty)
      .ok (names.eraseDups.mergeSort fun a b => (compare a b).isLE)
    | none => drop .aliasesNotTexts

/-- The title and the address of a record. -/
def readTitleAndUrl (fields : List (String × Value)) :
    Except RecordFault (String × Option String) :=
  let title := Value.field "title" fields
  match (if title.isGiven then title else .text ""), Value.field "url" fields with
  | .text title, .null => .ok (title, none)
  | .text title, .text url => .ok (title, some url)
  | _, _ => drop .titleOrUrlNotText

/-- The severity of a record. -/
def readSeverity (v : Value) : Except RecordFault Severity :=
  match Severity.ofValue v with
  | .ok severity => .ok severity
  | .error (.value cause) => drop (.severity cause)
  | .error cause => .error (.failed cause)

/-- The record that an entry of a feed states. -/
def readRecord (entry : Value) : Except RecordFault Record := do
  match entry with
  | .table fields =>
    let id ← readRequired fields "id"
    let package ← readRequired fields "package"
    let affected ← readAffected fields
    let patched ← readPatched fields
    let severity ← readSeverity (Value.field "severity" fields)
    let aliases ← readAliases (Value.field "aliases" fields)
    let withdrawn ← readWithdrawn (Value.field "withdrawn" fields)
    let (title, url) ← readTitleAndUrl fields
    pure { id, package, affected, patched, severity, aliases, withdrawn, title, url }
  | _ => drop .notATable

end LockAudit.Advisory
