import LockAudit.File.Tree
import LockAudit.Limits
import LockAudit.Suppression.Basic
import LockAudit.Toml.Decode

/-!
# Suppression files

A suppression file is a list of entries, as TOML or as JSON. An entry that cannot
be honoured exactly as written makes the whole file invalid.

An expiry that is a date alone lasts through that day, so it is read as midnight
at the start of the next.
-/

namespace LockAudit.Suppression

/-- Midnight at the end of a day. -/
def endOfDay (d : Calendar.Date) : Except Failure Calendar.Instant :=
  match d.tomorrow? with
  | some next => .ok (.startOf next)
  | none => .error (.overflow .date)

/-- The text is a date alone, in the form with dashes and two digits each. -/
def isDateForm (cs : List Char) : Bool :=
  cs.length = 10 && (cs.take 4).all Text.isDigit && cs[4]? = some '-' &&
    ((cs.drop 5).take 2).all Text.isDigit && cs[7]? = some '-' && (cs.drop 8).all Text.isDigit

/-- The instant from which on something is over. -/
def readExpiry (v : Value) : Except Failure Calendar.Instant :=
  match v with
  | .date d => endOfDay d
  | .text s =>
    if isDateForm (Text.stripList s.toList) then do
      endOfDay (← (Calendar.Iso.readDate (Text.strip s)).mapError fun e => .value (.iso e))
    else Advisory.readTimestamp (.text s)
  | v => Advisory.readTimestamp v

/-- The keys that an entry may have. -/
def knownKeys : List String := ["id", "package", "version", "expires", "reason"]

/-- The keys of an entry that it may not have, sorted. -/
def unknownKeys (fields : List (String × Value)) : List String :=
  ((fields.map (·.1)).filter (!knownKeys.contains ·)).mergeSort fun a b => (compare a b).isLE

/-- The first key of an entry whose value is not a text although it has to be. -/
def keyNotText? (fields : List (String × Value)) : Option String :=
  ["id", "package", "version", "reason"].find? fun key =>
    match Value.lookup? key fields with
    | none | some (.text _) => false
    | some _ => true

/-- The entry is refused. -/
def refuse {α : Type} (place : Place) (d : Defect) : Except Failure α :=
  .error (.suppression d place)

/-- The text of a field without white space around it; none if nothing is left. -/
def readName (fields : List (String × Value)) (key : String) : Option String :=
  (Value.field key fields).text?.bind fun s => if Text.isBlankText s then none else some (Text.strip s)

/-- The versions that an entry is limited to. -/
def readVersion (place : Place) (fields : List (String × Value)) :
    Except Failure (Option VersionRange) :=
  match Value.field "version" fields with
  | .text "" => .ok none
  | .text s => match VersionRange.parse s with
    | .ok range => .ok (some range)
    | .error (.malformed _ cause) => refuse place (.invalidVersion cause)
    | .error (.oversized cause) => .error (.oversized cause)
  | _ => .ok none

/-- When an entry expires, if it does. -/
def readExpires (place : Place) (fields : List (String × Value)) :
    Except Failure (Option Calendar.Instant) :=
  let value := Value.field "expires" fields
  if !value.isGiven then .ok none
  else match readExpiry value with
    | .ok expires => .ok (some expires)
    | .error cause =>
      if cause.isValueError then do refuse place (.invalidExpiry (← value.describe))
      else .error cause

/-- The suppression that an entry states. -/
def ofValue (place : Place) : Value → Except Failure Suppression
  | .table fields =>
    let unknown := unknownKeys fields
    if !unknown.isEmpty then refuse place (.unknownKeys unknown)
    else match keyNotText? fields with
    | some key => refuse place (.notText key)
    | none =>
      match readName fields "reason" with
      | none => refuse place .reasonMissing
      | some reason => do
        let version ← readVersion place fields
        let expires ← readExpires place fields
        let advisory := readName fields "id"
        let package := readName fields "package"
        if named : (advisory.isSome || package.isSome) = true then
          pure { reason, advisory, package, version, expires, named }
        else refuse place .noTarget
  | _ => refuse place .notATable

/-- The reason of suppressions for which none is given. -/
def standardReason : String := "ignored on the command line"

/-- The suppressions of the advisories with the given ids. -/
def ofIds (ids : List String) (reason : String := standardReason) : List Suppression :=
  ids.filterMap fun id =>
    if Text.isBlankText id then none
    else some { reason, advisory := some (Text.strip id), named := rfl }

/-- The suppressions that the entries from a position on state. -/
def ofEntries (path : Option String) : Nat → List Value → Except Failure (List Suppression)
  | _, [] => .ok []
  | position, entry :: entries => do
    let first ← ofValue ⟨some position, path⟩ entry
    pure (first :: (← ofEntries path (position + 1) entries))

/-! ## Files -/

/-- What is said about bytes that are no text. -/
def undecodable (f : Text.Utf8.Fault) : String :=
  "'utf-8' codec can't decode " ++
    (if f.count = 1 then
      "byte 0x" ++ String.ofList (Text.hexDigits 2 f.first.toNat) ++ " in position " ++
        toString f.position
    else "bytes in position " ++ toString f.position ++ "-" ++
      toString (f.position + f.count - 1)) ++
    ": " ++ f.defect.reason

/-- The text in a suppression file. -/
def readText (files : File.Tree) (path : File.Path) : Except Failure (List Char) :=
  let place : Place := ⟨none, some path.text⟩
  match files.read path with
  | .error fault => refuse place (.unreadable fault.message)
  | .ok (bytes, _) =>
    match Text.Utf8.decode bytes with
    | .error fault => refuse place (.unreadable (undecodable fault))
    | .ok cs => .ok (Text.universalNewlines cs)

/-- What a suppression file in JSON has for its entries. -/
def jsonEntries (place : Place) (cs : List Char) : Except Failure Value :=
  match Json.decode cs with
  | .error (.oversized cause) => .error (.oversized cause)
  | .error (.malformed defect rest) =>
    refuse place (.invalidJson (Text.lineAt cs rest) defect)
  | .ok (.table fields) => .ok (Value.field "suppression" fields)
  | .ok document => .ok document

/-- What a suppression file in TOML has for its entries. -/
def tomlEntries (place : Place) (cs : List Char) : Except Failure Value :=
  match Toml.decode cs with
  | .error (.oversized cause) => .error (.oversized cause)
  | .error (.malformed defect rest) =>
    refuse place (.invalidToml (Toml.describe (Toml.source cs) defect rest))
  | .ok fields => .ok ((Value.lookup? "suppression" fields).getD (.list []))

/-- What a suppression file, which is JSON or TOML by its ending, has for its
entries. -/
def readDocument (files : File.Tree) (path : File.Path) (limits : Limits := .unlimited) :
    Except Failure Value := do
  let place : Place := ⟨none, some path.text⟩
  let cs ← readText files path
  limits.checkText .suppressions cs
  if Text.lower path.ending = ".json" then jsonEntries place cs else tomlEntries place cs

/-- The suppressions in a file. -/
def load (files : File.Tree) (path : File.Path) (limits : Limits := .unlimited) :
    Except Failure (List Suppression) := do
  match ← readDocument files path limits with
  | .list entries => ofEntries (some path.text) 0 entries
  | _ => refuse ⟨none, some path.text⟩ .notAList

end LockAudit.Suppression
