import LockAudit.Advisory.Database
import LockAudit.Proofs.Advisory.Cache
import LockAudit.Proofs.Advisory.Isolation

/-!
# What a run does by way of the cache

A run gets its index in one of four ways: from the cached feed while that is fresh, from
the source with the cache replaced or not, or from an outdated cached feed after the source
failed. `Serves` says of each what it takes and what becomes of the files; all that is
proved about runs is read off it.

No way mixes two feeds. An index is that of the feed fetched in this run, or of the cached
feed of the same source; and the cache changes only by taking in a feed that was loaded.
-/

namespace LockAudit.Advisory

open File.Tree (place)

variable {policy : WithdrawnPolicy} {use : CacheUse} {files : File.Tree} {path : File.Path}
  {source : Source} {now : Calendar.ClockReading} {refusal : Option Cache.Refusal} {f : Feed}
  {index : Index}

/-! ## The cached feed -/

/-- The cache holds the feed, and it is one of the source. -/
structure IsCached (files : File.Tree) (path : File.Path) (source : Source) (f : Feed) : Prop where
  read : Cache.read files path = .ok (some (Cache.cached f))
  origin : f.origin = source.name

theorem feedFrom?_eq_some {cached : CachedFeed} {name : String} :
    cached.feedFrom? name = some f ↔ cached = Cache.cached f ∧ f.origin = name := by
  unfold CachedFeed.feedFrom?
  refine ⟨?_, ?_⟩
  · intro h
    split at h
    · rename_i s horigin
      split at h
      · rename_i hname
        cases h
        refine ⟨?_, hname⟩
        rw [Cache.cached, ← horigin]
      · exact absurd h (by simp)
    · exact absurd h (by simp)
  · intro h
    obtain ⟨rfl, rfl⟩ := h
    simp [Cache.cached]

theorem feedFrom?_cached (f : Feed) (name : String) :
    (Cache.cached f).feedFrom? name = if f.origin = name then some f else none := rfl

theorem cachedFeed_eq_some :
    cachedFeed files path source = .ok (some f) ↔ IsCached files path source f := by
  unfold cachedFeed
  rw [Result.bind_ok]
  refine ⟨?_, ?_⟩
  · intro h
    obtain ⟨cached, hread, h⟩ := h
    cases cached with
    | none => exact absurd h (by simp)
    | some cached =>
        obtain ⟨rfl, horigin⟩ := feedFrom?_eq_some.mp (Except.ok.inj h)
        exact ⟨hread, horigin⟩
  · intro h
    exact ⟨_, h.read, congrArg Except.ok (feedFrom?_eq_some.mpr ⟨rfl, h.origin⟩)⟩

/-- The cached feed may be used in place of a new one, without asking the source. -/
structure IsFresh (use : CacheUse) (now : Calendar.ClockReading) (f : Feed)
    (limit age : Calendar.Duration) : Prop where
  unforced : use.forceRefresh = false
  limited : use.maxAge = some limit
  known : now.since f.fetchedAt = .ok age
  young : age.micros ≤ limit.micros

theorem freshFeed_eq_some {cached : Option Feed} :
    freshFeed use cached now = .ok (some f) ↔
      cached = some f ∧ ∃ limit age, IsFresh use now f limit age := by
  have hfresh : ∀ f : Feed, isFresh f.fetchedAt now use.maxAge = .ok true ↔ ∃ limit age,
      use.maxAge = some limit ∧ now.since f.fetchedAt = .ok age ∧ age.micros ≤ limit.micros := by
    intro f
    unfold isFresh
    split
    · rename_i hnone
      simp [hnone]
    · rename_i limit hsome
      simp [hsome, Result.bind_ok]
  unfold freshFeed
  split
  · simp
  · rename_i g
    split
    · rename_i hforced
      refine ⟨fun h => absurd h (by simp), ?_⟩
      rintro ⟨_, limit, age, h⟩
      exact absurd h.unforced (by simp [hforced])
    · rename_i hunforced
      rw [Result.bind_ok]
      refine ⟨?_, ?_⟩
      · intro h
        obtain ⟨fresh, hisFresh, h⟩ := h
        -- the only failure of the age is a time without a zone, which is not a fresh feed
        rw [Result.lift_unzoned, Result.mapError_ok] at hisFresh
        cases fresh with
        | false => exact absurd h (by simp)
        | true =>
            obtain ⟨limit, age, hlimit, hage, hyoung⟩ := (hfresh g).mp hisFresh
            cases h
            exact ⟨rfl, limit, age, by simpa using hunforced, hlimit, hage, hyoung⟩
      · rintro ⟨hg, limit, age, h⟩
        obtain rfl : g = f := Option.some.inj hg
        refine ⟨true, ?_, rfl⟩
        rw [Result.lift_unzoned, Result.mapError_ok]
        exact (hfresh g).mpr ⟨limit, age, h.limited, h.known, h.young⟩

/-- The source is asked when looking for a fresh cached feed ends without one. -/
theorem asksSource_iff : asksSource (some use) files source now = true ↔
    ∃ cached, cachedFeed files use.path source = .ok cached ∧
      freshFeed use cached now = .ok none := by
  cases hcached : cachedFeed files use.path source with
  | error cause => simp [asksSource, hcached]
  | ok cached =>
      rcases hfresh : freshFeed use cached now with cause | _ | f
      · simp [asksSource, hcached, hfresh]
      · simp [asksSource, hcached, hfresh]
      · simp [asksSource, hcached, hfresh]

/-! ## The four ways to an index -/

/-- How a run gets its index, and the files it leaves. -/
inductive Serves (policy : WithdrawnPolicy) (use : CacheUse) (files : File.Tree) (source : Source)
    (now : Calendar.ClockReading) (refusal : Option Cache.Refusal) : Loaded → Prop
  | fresh {f : Feed} {limit age : Calendar.Duration} {index : Index}
      (cached : IsCached files use.path source f) (fresh : IsFresh use now f limit age)
      (loads : f.load policy = .ok index) :
      Serves policy use files source now refusal ⟨files, .ok index⟩
  | stored {f : Feed} {index : Index} {files' : File.Tree}
      (asks : asksSource (some use) files source now = true) (fetched : source.fetched = .ok f)
      (loads : f.load policy = .ok index)
      (written : Cache.write files use.path f refusal = (files', .ok ())) :
      Serves policy use files source now refusal ⟨files', .ok index⟩
  | unstored {f : Feed} {index : Index} {files' : File.Tree} {fault : File.Fault}
      (asks : asksSource (some use) files source now = true) (fetched : source.fetched = .ok f)
      (loads : f.load policy = .ok index)
      (unwritten : Cache.write files use.path f refusal = (files', .error fault)) :
      Serves policy use files source now refusal
        ⟨files', .ok (index.withDiagnostic (writeDiagnostic use.path fault))⟩
  | stale {f : Feed} {d : LoadDefect} {origin : String} {age : Calendar.Duration} {index : Index}
      (asks : asksSource (some use) files source now = true)
      (failed : refresh policy source = .error (.advisories d origin))
      (allowed : use.allowStale = true) (cached : IsCached files use.path source f)
      (known : now.since f.fetchedAt = .ok age) (loads : f.load policy = .ok index) :
      Serves policy use files source now refusal
        ⟨files, .ok (index.markedStale (staleDiagnostic f age (.advisories d origin)))⟩
  | failed {cause : Failure} : Serves policy use files source now refusal ⟨files, .error cause⟩

theorem refresh_ok : refresh policy source = .ok (f, index) ↔
    source.fetched = .ok f ∧ f.load policy = .ok index := by
  unfold refresh
  simp only [Feed.loadWithin_unlimited, Result.bind_ok, Result.pure_eq, Except.ok.injEq,
    Prod.mk.injEq]
  refine ⟨?_, ?_⟩
  · rintro ⟨_, hfetched, _, hloads, rfl, rfl⟩
    exact ⟨hfetched, hloads⟩
  · rintro ⟨hfetched, hloads⟩
    exact ⟨f, hfetched, index, hloads, rfl, rfl⟩

theorem refresh_error {cause : Failure} : refresh policy source = .error cause ↔
    source.fetched = .error cause ∨ ∃ f, source.fetched = .ok f ∧ f.load policy = .error cause := by
  unfold refresh
  simp only [Feed.loadWithin_unlimited, Result.bind_error, Result.pure_eq, reduceCtorEq, and_false,
    exists_false, or_false]

theorem staleIndex_ok {cached : Option Feed} {cause : Failure}
    (h : staleIndex policy use cached now cause = .ok index) :
    ∃ d origin f age fresh, cause = .advisories d origin ∧ cached = some f ∧
      use.allowStale = true ∧ now.since f.fetchedAt = .ok age ∧ f.load policy = .ok fresh ∧
      index = fresh.markedStale (staleDiagnostic f age cause) := by
  unfold staleIndex at h
  split at h
  · rename_i d origin f
    split at h
    · rename_i hallowed
      obtain ⟨age, hage, h⟩ := Result.bind_ok.mp h
      obtain ⟨fresh, hfresh, h⟩ := Result.bind_ok.mp h
      cases h
      rw [Feed.loadWithin_unlimited] at hfresh
      rw [Result.lift_unzoned, Result.mapError_ok] at hage
      exact ⟨d, origin, f, age, fresh, rfl, rfl, hallowed, hage, hfresh, rfl⟩
    · exact absurd h (by simp)
  · exact absurd h (by simp)

/-- **A run goes one of these ways, or fails and leaves the files alone.** -/
theorem loadCached_serves :
    Serves policy use files source now refusal
      (loadCached policy use files source now refusal) := by
  cases hcached : cachedFeed files use.path source with
  | error cause =>
      simp only [loadCached, hcached]
      exact .failed
  | ok cached =>
      cases hfresh : freshFeed use cached now with
      | error cause =>
          simp only [loadCached, hcached, hfresh]
          exact .failed
      | ok fresh =>
          cases fresh with
          | some f =>
              -- a fresh feed takes the place of the source
              obtain ⟨rfl, limit, age, hisFresh⟩ := freshFeed_eq_some.mp hfresh
              simp only [loadCached, hcached, hfresh, Feed.loadWithin_unlimited]
              cases hloads : f.load policy with
              | ok index => exact .fresh (cachedFeed_eq_some.mp hcached) hisFresh hloads
              | error cause => exact .failed
          | none =>
              -- without one the source is asked
              have hasks : asksSource (some use) files source now = true :=
                asksSource_iff.mpr ⟨cached, hcached, hfresh⟩
              simp only [loadCached, hcached, hfresh]
              cases hrefresh : refresh policy source with
              | ok found =>
                  obtain ⟨f, index⟩ := found
                  obtain ⟨hfetched, hloads⟩ := refresh_ok.mp hrefresh
                  -- a feed that loads is kept, if the cache can be replaced
                  simp only [keep]
                  split
                  · rename_i files' hwritten
                    exact .stored hasks hfetched hloads hwritten
                  · rename_i files' fault hunwritten
                    exact .unstored hasks hfetched hloads hunwritten
              | error cause =>
                  simp only
                  -- after a failure an outdated feed may serve
                  cases hstale : staleIndex policy use cached now cause with
                  | error cause => exact .failed
                  | ok index =>
                      obtain ⟨d, origin, f, age, index, rfl, rfl, hallowed, hage, hloads, rfl⟩ :=
                        staleIndex_ok hstale
                      exact .stale hasks hrefresh hallowed (cachedFeed_eq_some.mp hcached) hage
                        hloads

/-! ## What a load says of itself -/

/-- The kinds of diagnostics that a load has. -/
def loadKinds : List DiagnosticKind := [.malformedAdvisory, .rangeOverlap, .withdrawnDropped]

/-- All diagnostics are of kinds that a load has. -/
def Load.IsOwn (diagnostics : List Diagnostic) : Prop :=
  ∀ d ∈ diagnostics, ∃ kind ∈ loadKinds, d.kind = kind.name

theorem Load.IsOwn.append {diagnostics more : List Diagnostic} (h : IsOwn diagnostics)
    (hmore : IsOwn more) : IsOwn (diagnostics ++ more) := by
  intro d hd
  rcases List.mem_append.mp hd with hd | hd
  · exact h d hd
  · exact hmore d hd

theorem Load.isOwn_of {kind : DiagnosticKind} {message : String} {subject : Option String}
    (hkind : kind ∈ loadKinds) : IsOwn [.of kind message subject] := by
  intro d hd
  rw [List.mem_singleton.mp hd]
  exact ⟨kind, hkind, rfl⟩

theorem overlapDiagnostics_isOwn {r : Record} {found : List Diagnostic}
    (h : overlapDiagnostics r = .ok found) : Load.IsOwn found := by
  unfold overlapDiagnostics at h
  split at h
  · obtain ⟨_, _, h⟩ := Result.bind_ok.mp h
    obtain ⟨_, _, h⟩ := Result.bind_ok.mp h
    cases h
    exact Load.isOwn_of (by decide)
  · cases h
    exact fun d hd => absurd hd List.not_mem_nil

/-- **Step.** -/
theorem Load.step_isOwn {l l' : Load} {position : Nat} {entry : Value} (h : IsOwn l.diagnostics)
    (hstep : l.step policy position entry = .ok l') : IsOwn l'.diagnostics := by
  have hsteps := Load.step_stepsTo policy l position entry
  rw [hstep] at hsteps
  cases hsteps with
  | dropped reads => exact h.append (isOwn_of (by decide))
  | repeated reads seen => exact h.append (isOwn_of (by decide))
  | withdrawn reads unseen excluded => exact h
  | kept reads unseen included diagnosed => exact h.append (overlapDiagnostics_isOwn diagnosed)

theorem Load.steps_isOwn {l l' : Load} {position : Nat} {entries : List Value}
    (h : IsOwn l.diagnostics) (hsteps : Load.steps policy l position entries = .ok l') :
    IsOwn l'.diagnostics := by
  induction entries generalizing l position with
  | nil =>
      cases hsteps
      exact h
  | cons entry entries ih =>
      rw [Load.steps] at hsteps
      obtain ⟨l₁, hstep, hsteps⟩ := Result.bind_ok.mp hsteps
      exact ih (step_isOwn h hstep) hsteps

/-- A loaded index is not outdated, and its diagnostics are about entries alone. -/
theorem Feed.load_own (h : f.load policy = .ok index) :
    index.isStale = false ∧ Load.IsOwn index.diagnostics := by
  obtain ⟨_, l, _, hsteps, rfl⟩ := Feed.exists_load h
  have hown : Load.IsOwn l.diagnostics :=
    Load.steps_isOwn (fun d hd => absurd hd List.not_mem_nil) hsteps
  refine ⟨rfl, ?_⟩
  change Load.IsOwn l.allDiagnostics
  unfold Load.allDiagnostics
  split
  · exact hown
  · exact hown.append (Load.isOwn_of (by decide))

/-! ## Every run -/

theorem asksSource_of_fresh {limit age : Calendar.Duration}
    (hcached : IsCached files use.path source f) (hfresh : IsFresh use now f limit age) :
    asksSource (some use) files source now = false := by
  have hfound : freshFeed use (some f) now = .ok (some f) :=
    freshFeed_eq_some.mpr ⟨rfl, limit, age, hfresh⟩
  simp only [asksSource, cachedFeed_eq_some.mpr hcached, hfound]

theorem loadCached_of_fresh {limit age : Calendar.Duration}
    (hcached : IsCached files use.path source f) (hfresh : IsFresh use now f limit age) :
    loadCached policy use files source now refusal = ⟨files, f.load policy⟩ := by
  have hfound : freshFeed use (some f) now = .ok (some f) :=
    freshFeed_eq_some.mpr ⟨rfl, limit, age, hfresh⟩
  simp only [loadCached, cachedFeed_eq_some.mpr hcached, hfound, Feed.loadWithin_unlimited]

/-- A run that asks the source and gets a feed keeps it. -/
theorem loadCached_of_refresh (hasks : asksSource (some use) files source now = true)
    (hrefresh : refresh policy source = .ok (f, index)) :
    loadCached policy use files source now refusal = keep files use.path f index refusal := by
  obtain ⟨cached, hcached, hfresh⟩ := asksSource_iff.mp hasks
  simp only [loadCached, hcached, hfresh, hrefresh]

/-- A run that asks the source in vain leaves the files alone. -/
theorem loadCached_of_failure {cached : Option Feed} {cause : Failure}
    (hasks : asksSource (some use) files source now = true)
    (hcached : cachedFeed files use.path source = .ok cached)
    (hfailed : refresh policy source = .error cause) :
    loadCached policy use files source now refusal =
      ⟨files, staleIndex policy use cached now cause⟩ := by
  obtain ⟨cached', hcached', hfresh⟩ := asksSource_iff.mp hasks
  obtain rfl : cached = cached' := Except.ok.inj (hcached.symm.trans hcached')
  simp only [loadCached, hcached, hfresh, hfailed]

/-- Nothing that is fetched matters where the source is not asked. -/
theorem loadCached_of_not_asks (h : asksSource (some use) files source now = false)
    (fetched : Except Failure Feed) :
    loadCached policy use files { source with fetched := fetched } now refusal =
      loadCached policy use files source now refusal := by
  have hsame : cachedFeed files use.path { source with fetched := fetched } =
      cachedFeed files use.path source := rfl
  unfold loadCached
  rw [hsame]
  cases hcached : cachedFeed files use.path source with
  | error cause => rfl
  | ok cached =>
      cases hfresh : freshFeed use cached now with
      | error cause => simp only [hfresh]
      | ok fresh =>
          cases fresh with
          | some f => simp only [hfresh]
          | none =>
              rw [asksSource_iff.mpr ⟨cached, hcached, hfresh⟩] at h
              exact absurd h (by simp)

section Runs

variable {loaded : Loaded}

/-- Where an index comes from that is not marked as outdated. -/
theorem Serves.current (h : Serves policy use files source now refusal loaded)
    (hindex : loaded.index = .ok index) (hcurrent : index.isStale = false) :
    (∃ f limit age, IsCached files use.path source f ∧ IsFresh use now f limit age ∧
      f.load policy = .ok index ∧ asksSource (some use) files source now = false ∧
      loaded.files = files) ∨
    ∃ f fresh, asksSource (some use) files source now = true ∧ source.fetched = .ok f ∧
      f.load policy = .ok fresh ∧ (index = fresh ∧ Cache.Holds use.path f files loaded.files ∨
        ∃ fault, Cache.write files use.path f refusal = (loaded.files, .error fault) ∧
          index = fresh.withDiagnostic (writeDiagnostic use.path fault)) := by
  cases h with
  | fresh cached fresh loads =>
      cases hindex
      have hasks := asksSource_of_fresh cached fresh
      exact Or.inl ⟨_, _, _, cached, fresh, loads, hasks, rfl⟩
  | stored asks fetched loads written =>
      cases hindex
      exact Or.inr ⟨_, _, asks, fetched, loads, Or.inl ⟨rfl, Cache.holds_of_write written⟩⟩
  | unstored asks fetched loads unwritten =>
      cases hindex
      exact Or.inr ⟨_, _, asks, fetched, loads, Or.inr ⟨_, unwritten, rfl⟩⟩
  -- an outdated feed marks its index, so the index would not be current
  | stale asks failed allowed cached known loads =>
      cases hindex
      exact absurd hcurrent (by simp [Index.markedStale])
  | failed => exact absurd hindex (by simp)

/-- Where an index comes from that is marked as outdated. -/
theorem Serves.outdated (h : Serves policy use files source now refusal loaded)
    (hindex : loaded.index = .ok index) (hstale : index.isStale = true) :
    use.allowStale = true ∧ loaded.files = files ∧ ∃ d origin f age fresh,
      (source.fetched = .error (.advisories d origin) ∨
        ∃ g, source.fetched = .ok g ∧ g.load policy = .error (.advisories d origin)) ∧
      IsCached files use.path source f ∧ now.since f.fetchedAt = .ok age ∧
      f.load policy = .ok fresh ∧
      index = fresh.markedStale (staleDiagnostic f age (.advisories d origin)) := by
  -- a loaded index is never stale, so only the case that marks it is left
  have hnever : ∀ {f : Feed} {fresh : Index}, f.load policy = .ok fresh → fresh.isStale ≠ true := by
    intro f fresh hloads
    rw [(Feed.load_own hloads).1]
    simp
  cases h with
  | fresh cached fresh loads =>
      cases hindex
      exact absurd hstale (hnever loads)
  | stored asks fetched loads written =>
      cases hindex
      exact absurd hstale (hnever loads)
  | unstored asks fetched loads unwritten =>
      cases hindex
      exact (hnever loads hstale).elim
  | stale asks failed allowed cached known loads =>
      cases hindex
      exact ⟨allowed, rfl, _, _, _, _, _, refresh_error.mp failed, cached, known, loads, rfl⟩
  | failed => exact absurd hindex (by simp)

theorem Serves.files_of_error (h : Serves policy use files source now refusal loaded)
    {cause : Failure} (hcause : loaded.index = .error cause) : loaded.files = files := by
  cases h with
  | failed => rfl
  | fresh | stored | unstored | stale => exact absurd hcause (by simp)

/-- A diagnostic about the cache is there only where the cache is as it was. -/
theorem Serves.leaves (h : Serves policy use files source now refusal loaded)
    (hindex : loaded.index = .ok index) {d : Diagnostic} (hd : d ∈ index.diagnostics)
    (hkind : d.kind = DiagnosticKind.cacheWriteFailed.name) :
    Cache.Leaves use.path files loaded.files := by
  cases h with
  | fresh => exact Cache.leaves_of_eq fun _ => rfl
  | stale => exact Cache.leaves_of_eq fun _ => rfl
  | failed => exact Cache.leaves_of_eq fun _ => rfl
  | stored asks fetched loads written =>
      -- no load speaks of the cache
      cases hindex
      obtain ⟨kind, hown, hname⟩ := (Feed.load_own loads).2 d hd
      rw [hkind] at hname
      have hother : ∀ kind ∈ loadKinds, DiagnosticKind.cacheWriteFailed.name ≠ kind.name := by
        decide
      exact absurd hname (hother kind hown)
  | unstored asks fetched loads unwritten => exact Cache.leaves_of_write unwritten

end Runs

/--
**What a run by way of the cache may do.** Take any files, any source and clock, any use of
the cache and any refusal of the system.

An index that is not marked as outdated is that of the cached feed of the source, which is
fresh, and then nothing is fetched; or it is that of the feed fetched in this run, and the
cache holds that feed, or could not be replaced, which one more diagnostic says. An index
that is marked as outdated takes a permission, a failed refresh and a cached feed of the
source, and has one more diagnostic than the index of that feed.

The files stay as they are when the run fails or uses the cached feed. The cache stays as
it is when there is a diagnostic about its replacement.
-/
theorem caching_exact (policy : WithdrawnPolicy) (use : CacheUse) (files : File.Tree)
    (source : Source) (now : Calendar.ClockReading) (refusal : Option Cache.Refusal) :
    let loaded := loadCached policy use files source now refusal
    (∀ index, loaded.index = .ok index → index.isStale = false →
      (∃ f limit age, IsCached files use.path source f ∧ IsFresh use now f limit age ∧
        f.load policy = .ok index ∧ asksSource (some use) files source now = false ∧
        loaded.files = files) ∨
      ∃ f fresh, asksSource (some use) files source now = true ∧ source.fetched = .ok f ∧
        f.load policy = .ok fresh ∧ (index = fresh ∧ Cache.Holds use.path f files loaded.files ∨
          ∃ fault, Cache.write files use.path f refusal = (loaded.files, .error fault) ∧
            index = fresh.withDiagnostic (writeDiagnostic use.path fault))) ∧
    (∀ index, loaded.index = .ok index → index.isStale = true →
      use.allowStale = true ∧ loaded.files = files ∧ ∃ d origin f age fresh,
        (source.fetched = .error (.advisories d origin) ∨
          ∃ g, source.fetched = .ok g ∧ g.load policy = .error (.advisories d origin)) ∧
        IsCached files use.path source f ∧ now.since f.fetchedAt = .ok age ∧
        f.load policy = .ok fresh ∧
        index = fresh.markedStale (staleDiagnostic f age (.advisories d origin))) ∧
    (∀ cause, loaded.index = .error cause → loaded.files = files) ∧
    (∀ index, loaded.index = .ok index →
      (∃ d ∈ index.diagnostics, d.kind = DiagnosticKind.cacheWriteFailed.name) →
        Cache.Leaves use.path files loaded.files ∧
        ∀ found, files.read use.path = .ok found → loaded.files.read use.path = .ok found) ∧
    (asksSource (some use) files source now = false → ∀ fetched,
      loadCached policy use files { source with fetched := fetched } now refusal = loaded) := by
  have hserves : Serves policy use files source now refusal
      (loadCached policy use files source now refusal) := loadCached_serves
  -- what a load serves is one of a few ways, and each clause is read off the way it was
  refine ⟨fun _ => hserves.current, fun _ => hserves.outdated, fun _ => hserves.files_of_error, ?_,
    loadCached_of_not_asks⟩
  intro index hindex hdiagnostic
  obtain ⟨d, hd, hkind⟩ := hdiagnostic
  have hleaves := hserves.leaves hindex hd hkind
  exact ⟨hleaves, fun _ => hleaves.read⟩

end LockAudit.Advisory
