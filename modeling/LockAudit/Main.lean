import LockAudit.Command.Execute
import LockAudit.Display.Layout
import Std.Time.DateTime.Timestamp

/-!
# The program

Everything a command decides is decided by `Command.execute`. Here the files below
the working directory, the environment, the users and the clock are read, and what the
command leaves is written and printed. Feeds on the web are not fetched: without a
network every request ends in a connection error.
-/

namespace LockAudit.Main

open Display (Block)

/-- What stands at a directory entry and below it; what cannot be read is passed
over. -/
partial def readEntry (at_ : File.Place) (entry : IO.FS.DirEntry) :
    IO (List (File.Place × File.Entry)) := do
  try
    if ← entry.path.isDir then
      let children ← entry.path.readDir
      let below ← children.toList.mapM fun child => readEntry (at_ ++ [child.fileName]) child
      pure ((at_, .directory) :: below.flatten)
    else
      let bytes ← IO.FS.readBinFile entry.path
      let facts ← entry.path.metadata
      pure [(at_, .file bytes.toList facts.modified.sec)]
  catch _ => pure []

/-- The files below the working directory. -/
def readFiles : IO File.Tree := do
  let here ← IO.currentDir
  let entries ← here.readDir
  let found ← entries.toList.mapM fun entry => readEntry [entry.fileName] entry
  pure ⟨found.flatten⟩

/-- Writes what has changed. -/
def writeFiles (before after : File.Tree) : IO Unit := do
  for (place, entry) in after.entries do
    if before.entries.lookup place != some entry then
      let path := "/".intercalate place
      match entry with
      | .directory => IO.FS.createDirAll path
      | .file bytes _ => IO.FS.writeBinFile path ⟨bytes.toArray⟩

/-- The environment variables that a command may ask for. -/
def variableNames : List String := [
  "DEP_AUDIT_FAIL_SEVERITY", "DEP_AUDIT_CACHE", "DEP_AUDIT_CACHE_MAX_AGE",
  "DEP_AUDIT_ALLOW_STALE", "DEP_AUDIT_TIMEOUT", "DEP_AUDIT_WITHDRAWN",
  "DEP_AUDIT_ESCALATE_DIRECT", "DEP_AUDIT_WORKERS", Advisory.standardTokenName]

/-- The environment variables that are set. -/
def readVariables : IO (List (String × String)) := do
  let found ← variableNames.mapM fun name => do
    pure ((← IO.getEnv name).map fun value => (name, value))
  pure (found.filterMap id)

/-- The present instant. -/
def readClock : IO Calendar.ClockReading := do
  let stamp ← Std.Time.Timestamp.now
  match Calendar.Instant.ofUnix? stamp.toSecondsSinceUnixEpoch.val with
  | some now => pure (.zoned now)
  | none => throw (IO.userError "the clock is out of range")

/-- The users that the database of users in a text knows, and their home directories. -/
def knownUsers (database : String) : List (String × String) :=
  (Text.splitOn '\n' database.toList).filterMap fun line =>
    match Text.splitOn ':' line with
    | name :: _ :: _ :: _ :: _ :: home :: _ => some (String.ofList name, String.ofList home)
    | _ => none

/-- What is known of the users. -/
def readUsers : IO File.Users := do
  let known ← try pure (knownUsers (← IO.FS.readFile "/etc/passwd")) catch _ => pure []
  let own ← IO.getEnv "USER"
  let named : String → Option String := fun name => List.lookup name known
  pure { home := ← IO.getEnv "HOME", own := own.bind named, named }

/-- The failure of laying out a block. -/
def layoutFailure (block : Block) : Option Failure :=
  match Display.Layout.text block with
  | .ok _ => none
  | .error cause => some cause

/-- Outputs that lay out what they are shown. -/
def outputs : Command.Outputs where
  console := layoutFailure
  errors := layoutFailure
  layout := Display.Layout.text

/-- Prints a block as text. -/
def printBlock (output : IO.FS.Stream) (block : Block) : IO Unit :=
  match Display.Layout.text block with
  | .ok text => output.putStr text
  | .error cause => throw (IO.userError cause.message)

/-- Carries out a request and prints what it leaves; gives the exit status. -/
def run (request : Command.Request) : IO UInt32 := do
  let files ← readFiles
  let environment : Command.Environment := {
    files, outputs
    settings := ← readVariables
    users := ← readUsers
    now := ← readClock
    web := fun _ => .interrupted (.clientError "ClientConnectorError") }
  match Command.execute environment request with
  | none => pure (match request with
    | .help => 0
    | _ => 2)
  | some result =>
    let output ← IO.getStdout
    let errors ← IO.getStderr
    result.console.forM (printBlock output)
    output.putStr result.output
    result.errors.forM (printBlock errors)
    writeFiles files result.files
    if let some cause := result.crash then errors.putStrLn cause.message
    pure (UInt32.ofNat result.status)

end LockAudit.Main

/-- The program: audits lock files against advisories. -/
def main (args : List String) : IO UInt32 := LockAudit.Main.run (LockAudit.Command.Request.read args)
