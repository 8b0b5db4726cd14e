import LockAudit.Advisory.Cache
import LockAudit.Advisory.Source

/-!
# The advisory database of a run

A run gets its advisories from a source, perhaps by way of the cache. A cached
feed from the same source is used in place of a new one while it is fresh. When
the source fails, it may be used although it is outdated; the index then says so.

Only a feed that was fetched and loaded is ever put into the cache.
-/

namespace LockAudit.Advisory

/-- How a run uses the cache. -/
structure CacheUse where
  path : File.Path
  /-- The oldest age at which a cached feed is fresh; without one, none is. -/
  maxAge : Option Calendar.Duration
  allowStale : Bool := false
  /-- The source is asked even if the cached feed is fresh. -/
  forceRefresh : Bool := false

/-- A feed fetched at an instant is fresh. -/
def isFresh (fetchedAt : Calendar.Instant) (now : Calendar.ClockReading)
    (maxAge : Option Calendar.Duration) : Except Calendar.UnzonedDefect Bool :=
  match maxAge with
  | none => .ok false
  | some limit => do pure ((← now.since fetchedAt).micros ≤ limit.micros)

/-- The diagnostic about an outdated feed, and the failure for which it is used. -/
def staleDiagnostic (f : Feed) (age : Calendar.Duration) (cause : Failure) : Diagnostic :=
  .of .staleCache
    ("advisory database is stale: using cache fetched " ++ f.fetchedAt.text ++ " (age " ++
      age.ageText ++ ") because refresh failed: " ++ cause.message)
    (some f.origin)

/-- The diagnostic about a cache that could not be replaced. -/
def writeDiagnostic (path : File.Path) (fault : File.Fault) : Diagnostic :=
  .of .cacheWriteFailed
    ("could not update advisory cache " ++ path.text ++ ": " ++ fault.message) (some path.text)

/-- What getting an index comes to, and the files afterwards. -/
structure Loaded where
  files : File.Tree
  index : Except Failure Index

/-- The cached feed of a source, if there is one. -/
def cachedFeed (files : File.Tree) (path : File.Path) (source : Source)
    (limits : Limits := .unlimited) : Except Failure (Option Feed) := do
  match ← Cache.read files path limits with
  | some cached => pure (cached.feedFrom? source.name)
  | none => pure none

/-- The cached feed, if it is to be used without asking the source. -/
def freshFeed (use : CacheUse) (cached : Option Feed) (now : Calendar.ClockReading) :
    Except Failure (Option Feed) :=
  match cached with
  | none => .ok none
  | some f =>
    if use.forceRefresh then .ok none
    else do pure (if ← isFresh f.fetchedAt now use.maxAge then some f else none)

/-- The index of an outdated feed, where one may be used after a failure. -/
def staleIndex (policy : WithdrawnPolicy) (use : CacheUse) (cached : Option Feed)
    (now : Calendar.ClockReading) (cause : Failure) (limits : Limits := .unlimited) :
    Except Failure Index :=
  match cause, cached with
  | .advisories .., some f =>
    if use.allowStale then do
      let age ← now.since f.fetchedAt
      let index ← f.loadWithin policy limits
      pure (index.markedStale (staleDiagnostic f age cause))
    else .error cause
  | _, _ => .error cause

/-- What the source gives: a feed and its index. -/
def refresh (policy : WithdrawnPolicy) (source : Source) (limits : Limits := .unlimited) :
    Except Failure (Feed × Index) := do
  let f ← source.fetched
  pure (f, ← f.loadWithin policy limits)

/-- The index after a new feed was loaded and put into the cache. -/
def keep (files : File.Tree) (path : File.Path) (f : Feed) (index : Index)
    (refusal : Option Cache.Refusal := none) : Loaded :=
  match Cache.write files path f refusal with
  | (files, .ok ()) => ⟨files, .ok index⟩
  | (files, .error fault) => ⟨files, .ok (index.withDiagnostic (writeDiagnostic path fault))⟩

/-- The index of a source by way of the cache. -/
def loadCached (policy : WithdrawnPolicy) (use : CacheUse) (files : File.Tree) (source : Source)
    (now : Calendar.ClockReading) (refusal : Option Cache.Refusal := none)
    (limits : Limits := .unlimited) : Loaded :=
  match cachedFeed files use.path source limits with
  | .error cause => ⟨files, .error cause⟩
  | .ok cached =>
    match freshFeed use cached now with
    | .error cause => ⟨files, .error cause⟩
    | .ok (some f) => ⟨files, f.loadWithin policy limits⟩
    | .ok none =>
      match refresh policy source limits with
      | .ok (f, index) => keep files use.path f index refusal
      | .error cause => ⟨files, staleIndex policy use cached now cause limits⟩

/-- The source is asked: no cached feed is used in its place, nor has looking for
one failed. -/
def asksSource (use : Option CacheUse) (files : File.Tree) (source : Source)
    (now : Calendar.ClockReading) (limits : Limits := .unlimited) : Bool :=
  match use with
  | none => true
  | some use =>
    match cachedFeed files use.path source limits with
    | .error _ => false
    | .ok cached => match freshFeed use cached now with
      | .ok none => true
      | _ => false

/-- The index of a source, by way of the cache if one is used. -/
def loadIndex (policy : WithdrawnPolicy) (use : Option CacheUse) (files : File.Tree)
    (source : Source) (now : Calendar.ClockReading) (refusal : Option Cache.Refusal := none)
    (limits : Limits := .unlimited) : Loaded :=
  match use with
  | some use => loadCached policy use files source now refusal limits
  | none => ⟨files, do pure (← refresh policy source limits).2⟩

end LockAudit.Advisory
