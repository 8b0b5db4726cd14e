import LockAudit.Advisory.Feed
import LockAudit.File.Tree

/-!
# Advisory sources

A source has a name, and fetching from it gives a feed or fails. A location is an
address on the web or the path of a file.

The token of a private feed is read from the environment and only ever goes into
the request's headers.
-/

namespace LockAudit.Advisory

/-- A source: what it is called, and what fetching from it comes to. -/
structure Source where
  name : String
  fetched : Except Failure Feed
  /-- Fetching takes so long that other work is done first. -/
  isSlow : Bool := false

namespace Source

/-- The source of a feed that is at hand. -/
def ofFeed (f : Feed) : Source := ⟨f.origin, .ok f, false⟩

/-- What reading the feed in a file comes to; its time is that of the last change. -/
def feedInFile (files : File.Tree) (path : File.Path) : Except Failure Feed :=
  match files.read path with
  | .error fault => .error (.advisories (.unreadable fault.cause) path.text)
  | .ok (bytes, changed) =>
    match Calendar.Instant.ofUnix? changed with
    | some fetchedAt => .ok ⟨bytes, fetchedAt, path.text⟩
    | none => .error (.value (.calendar (.year (Calendar.unixYear changed))))

/-- The source that is a file. -/
def ofFile (files : File.Tree) (path : File.Path) : Source :=
  ⟨path.text, feedInFile files path, true⟩

end Source

/-- The environment variable that holds the token unless another one is named. -/
def standardTokenName : String := "DEP_AUDIT_TOKEN"

/-- A feed on the web: its address, how many seconds it may take, and which
environment variable holds the token. -/
structure WebFeed where
  address : String
  limit : Option Number.Amount := some (.real 30.0)
  tokenName : String := standardTokenName

/-- What ends an exchange early: there was no answer in time, the client gave up for a
reason that has a name, or something else went wrong. -/
inductive Interruption where
  | timeout
  | clientError (name : String)
  | failed (cause : Failure)
  deriving DecidableEq

/-- What becomes of a request: no answer, or a status and then perhaps a body. -/
inductive Exchange where
  | interrupted (cause : Interruption)
  | answered (status : Int) (body : Except Interruption (List UInt8))

namespace WebFeed

/-- The feed as messages show it. -/
def shown (w : WebFeed) : String := "HttpFeedSource(url=" ++ Text.quote w.address ++ ")"

/-- The time limit as messages show it. -/
def limitText (w : WebFeed) : String := (w.limit.map (·.text)).getD "None"

/-- The headers of a request in an environment. -/
def headers (w : WebFeed) (environment : List (String × String)) : List (String × String) :=
  ("Accept", "application/json") ::
    match environment.lookup w.tokenName with
    | some token => if token.isEmpty then [] else [("Authorization", "Bearer " ++ token)]
    | none => []

/-- The failure of an exchange that ended early. -/
def interruption (w : WebFeed) : Interruption → Failure
  | .timeout => .advisories (.timedOut w.limitText) w.address
  | .clientError name => .advisories (.requestFailed name) w.address
  | .failed cause => cause

/-- What fetching comes to, given what becomes of the request. -/
def fetched (w : WebFeed) (exchange : Exchange) (now : Calendar.ClockReading) :
    Except Failure Feed :=
  match exchange with
  | .interrupted cause => .error (w.interruption cause)
  | .answered status body =>
    if status ≠ 200 then .error (.advisories (.badStatus status) w.address)
    else match body with
      | .ok bytes => .ok ⟨bytes, now.asUtc, w.address⟩
      | .error cause => .error (w.interruption cause)

/-- The source that is a feed on the web. -/
def source (w : WebFeed) (exchange : Exchange) (now : Calendar.ClockReading) : Source :=
  ⟨w.address, w.fetched exchange now, true⟩

end WebFeed

/-- Where advisories are looked for. -/
inductive Location where
  | web (address : String)
  | file (path : File.Path)
  deriving DecidableEq

namespace Location

/-- The location that a text spells: an address on the web, or else a path. -/
def ofText (s : String) : Location :=
  if "http://".toList.isPrefixOf s.toList || "https://".toList.isPrefixOf s.toList then .web s
  else .file (.ofText s)

/-- What a location is called. -/
def name : Location → String
  | web address => address
  | file path => path.text

end Location

end LockAudit.Advisory
