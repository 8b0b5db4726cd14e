import LockAudit.Advisory.Feed
import LockAudit.File.Tree
import LockAudit.Json.Encode
import LockAudit.Limits
import LockAudit.Text.Base64

/-!
# The advisory cache

The cache is one file that holds a feed as it was fetched: its bytes, when and
from where. It is replaced as a whole, by a file that is written beside it first
and then renamed, so that a fault leaves the old cache as it was. A fault comes of
what stands where, or of the system, which may refuse any part of this.

A cache that cannot be read counts as no cache. There are four failures beside: the
system does not say what stands at the cache's path, and the cache's document nests too
deeply, is no table, or bears a time outside the calendar.
-/

namespace LockAudit.Advisory

/-- A feed out of the cache. Whatever its origin is, it was not checked. -/
structure CachedFeed where
  bytes : List UInt8
  fetchedAt : Calendar.Instant
  origin : Value

/-- The feed, if it comes from the given origin. -/
def CachedFeed.feedFrom? (c : CachedFeed) (origin : String) : Option Feed :=
  match c.origin with
  | .text s => if s = origin then some ⟨c.bytes, c.fetchedAt, s⟩ else none
  | _ => none

namespace Cache

/-- The version of the cache's document. -/
def currentFormat : Int := 1

/-- The value is the current format; other spellings of the number count. -/
def isCurrent : Value → Bool
  | .int n => n = currentFormat
  | .float x => x == 1
  | .bool b => b
  | _ => false

/-- The bytes, the time and the origin that a cache's document states. -/
def readFields (fields : List (String × Value)) :
    Option (List UInt8 × Calendar.DateTime × Value) := do
  let bytes ← Text.Base64.decode? (← (Value.field "data" fields).text?).toList
  let stamp ← (Calendar.Iso.readDateTime (← (Value.field "fetched_at" fields).text?)).toOption
  some (bytes, stamp, ← Value.lookup? "origin" fields)

/-- The feed that a cache's document states. -/
def readDocument : Value → Except Failure (Option CachedFeed)
  | .table fields =>
    if isCurrent (Value.field "format" fields) then
      match readFields fields with
      | none => .ok none
      | some (bytes, stamp, origin) =>
        match stamp.toUtc with
        | some fetchedAt => .ok (some ⟨bytes, fetchedAt, origin⟩)
        | none => .error (.overflow .date)
    else .ok none
  | v => .error (.noFields v.kindName)

/-- The document that some bytes spell. -/
def document? (bytes : List UInt8) : Option Value := do
  (Json.decode (← (Text.Utf8.decode bytes).toOption)).toOption

/-- The feed that the bytes of a cache state, if they do state one. -/
def readBytes (bytes : List UInt8) : Except Failure (Option CachedFeed) :=
  match document? bytes with
  | none => .ok none
  | some document => readDocument document

/-- The feed in the cache at a path, if there is a usable one. -/
def read (files : File.Tree) (path : File.Path) (limits : Limits := .unlimited) :
    Except Failure (Option CachedFeed) := do
  limits.checkStatus path
  match files.read path with
  | .error _ => pure none
  | .ok (bytes, _) =>
    limits.checkBytes .cache bytes
    readBytes bytes

/-- The document of a cache that holds a feed. -/
def document (f : Feed) : Value :=
  .table [
    ("format", .int currentFormat),
    ("origin", .text f.origin),
    ("fetched_at", .text f.fetchedAt.text),
    ("data", .text (String.ofList (Text.Base64.encode f.bytes)))]

/-- The bytes of a cache that holds a feed. -/
def bytes (f : Feed) : List UInt8 :=
  Text.Utf8.encode (Json.encode Json.Style.line (document f))

/-- What the file that is written first is called in messages. -/
def stagedName (path : File.Path) : String := "." ++ path.name ++ ".TMP"

/-- A place in a directory for the file that is written first, at which nothing
stands. -/
def stagedPlace (files : File.Tree) (directory : File.Place) (name : String) : File.Place :=
  let places := (List.range (files.entries.length + 1)).map fun n =>
    directory ++ [name ++ String.ofList (List.replicate n '~')]
  (places.find? fun place => (files.entry? place).isNone).getD (directory ++ [name])

/-- How far replacing the cache gets before the system refuses to go on. -/
inductive Refusal where
  /-- Of the directory's names, only so many are made. -/
  | directory (made : Nat) (fault : File.Fault)
  /-- No file can be put beside the cache. -/
  | staging (fault : File.Fault)
  /-- The file beside the cache is not written or not renamed. It is removed, unless that
  is refused as well; then it stays, with some bytes. -/
  | replacing (left : Option (List UInt8)) (fault : File.Fault)

/-- Replaces the cache at a path by a feed, in a directory that is there. -/
def replace (files : File.Tree) (path : File.Path) (f : Feed) (refusal : Option Refusal := none) :
    File.Tree × Except File.Fault Unit :=
  match files.find path.parent with
  | .error cause => (files, .error ⟨cause, path.parent.text, none⟩)
  | .ok directory =>
    let staged := stagedPlace files directory (stagedName path)
    let written := files.put staged (.file (bytes f) 0)
    match refusal with
    | some (.directory _ fault) | some (.staging fault) => (files, .error fault)
    | some (.replacing none fault) => (written.remove staged, .error fault)
    | some (.replacing (some left) fault) => (files.put staged (.file left 0), .error fault)
    | none =>
      match written.rename staged path with
      | .ok files => (files, .ok ())
      | .error cause => (written.remove staged, .error ⟨cause, stagedName path, some path.text⟩)

/-- Replaces the cache at a path by a feed, if the system does not refuse to. Directories
made on the way stay, also after a fault; nothing else changes then. -/
def write (files : File.Tree) (path : File.Path) (f : Feed) (refusal : Option Refusal := none) :
    File.Tree × Except File.Fault Unit :=
  match refusal with
  | some (.directory made fault) =>
    ((files.makeDirectories (path.parent.upTo made)).1, .error fault)
  | _ =>
    match files.makeDirectories path.parent with
    | (files, .ok ()) => replace files path f refusal
    | (files, .error fault) => (files, .error fault)

end Cache

end LockAudit.Advisory
