import LockAudit.Proofs.Advisory.Caching

/-!
# The cache over many runs

Many runs use one cache, each with a source, a clock and settings of its own. As long as
nothing else touches it, the cache is the work of one run: the last one whose fetch, load
and write all succeeded. A run that does not get that far leaves the cache alone, so the
step from one run to the next has two cases only.

What was written had been loaded before. So no cached feed is ever found that does not
load, and an index out of the cache is the very one that the writing run had.
-/

namespace LockAudit.Advisory

open File.Tree (place)

variable {policy : WithdrawnPolicy} {path : File.Path} {files files' : File.Tree} {f : Feed}
  {index : Index}

/-- One run: its source and clock, how it uses the cache, and what the system refuses. -/
structure Visit where
  source : Source
  now : Calendar.ClockReading
  maxAge : Option Calendar.Duration
  allowStale : Bool := false
  forceRefresh : Bool := false
  refusal : Option Cache.Refusal := none

namespace Visit

/-- How the run uses the cache at a path. -/
def use (v : Visit) (path : File.Path) : CacheUse := ⟨path, v.maxAge, v.allowStale, v.forceRefresh⟩

/-- What the run comes to with the files that it finds. -/
def loaded (v : Visit) (policy : WithdrawnPolicy) (path : File.Path) (files : File.Tree) : Loaded :=
  loadCached policy (v.use path) files v.source v.now v.refusal

end Visit

/-- A run that is over, with the files that it found. -/
structure Past where
  visit : Visit
  files : File.Tree

/-- The run fetched a feed, loaded it and put it into the cache. -/
structure Past.Stores (policy : WithdrawnPolicy) (path : File.Path) (p : Past) (f : Feed)
    (index : Index) : Prop where
  asks : asksSource (some (p.visit.use path)) p.files p.visit.source p.visit.now = true
  fetched : p.visit.source.fetched = .ok f
  loads : f.load policy = .ok index
  written : ∃ files', Cache.write p.files path f p.visit.refusal = (files', .ok ())

/-- The runs so far and the files after them. At the start no file stands at the cache's
place; what else happens to the files leaves the cache alone. -/
inductive History (policy : WithdrawnPolicy) (path : File.Path) : List Past → File.Tree → Prop
  | start {files : File.Tree}
      (absent : ∀ bytes changed, files.entry? (place path) ≠ some (.file bytes changed)) :
      History policy path [] files
  | visit {past : List Past} {files : File.Tree} (v : Visit)
      (before : History policy path past files) :
      History policy path (past ++ [⟨v, files⟩]) (v.loaded policy path files).files
  | other {past : List Past} {files files' : File.Tree} (before : History policy path past files)
      (entry : files'.entry? (place path) = files.entry? (place path))
      (read : files'.read path = files.read path) :
      History policy path past files'

/-! ## One run -/

/-- A run that stores a feed has the feed's index, and the cache then holds the feed. -/
theorem Past.Stores.loaded {p : Past} (h : p.Stores policy path f index) :
    (p.visit.loaded policy path p.files).index = .ok index ∧
      Cache.Holds path f p.files (p.visit.loaded policy path p.files).files := by
  obtain ⟨files', hwritten⟩ := h.written
  have hrefresh : refresh policy p.visit.source = .ok (f, index) :=
    refresh_ok.mpr ⟨h.fetched, h.loads⟩
  have hkeep : p.visit.loaded policy path p.files = ⟨files', .ok index⟩ := by
    rw [Visit.loaded, loadCached_of_refresh h.asks hrefresh]
    simp only [keep, Visit.use, hwritten]
  rw [hkeep]
  exact ⟨rfl, Cache.holds_of_write hwritten⟩

/-- **Step.** A run stores a feed or leaves the cache alone. -/
theorem Past.cases (policy : WithdrawnPolicy) (path : File.Path) (p : Past) :
    (∃ f index, p.Stores policy path f index) ∨
      (∀ f index, ¬ p.Stores policy path f index) ∧
        Cache.Leaves path p.files (p.visit.loaded policy path p.files).files := by
  have hserves : Serves policy (p.visit.use path) p.files p.visit.source p.visit.now
      p.visit.refusal (p.visit.loaded policy path p.files) := loadCached_serves
  by_cases hstores : ∃ f index, p.Stores policy path f index
  · exact Or.inl hstores
  · refine Or.inr ⟨fun f index h => hstores ⟨f, index, h⟩, ?_⟩
    generalize p.visit.loaded policy path p.files = loaded at hserves ⊢
    cases hserves with
    | stored asks fetched loads written =>
        exact absurd ⟨_, _, asks, fetched, loads, _, written⟩ hstores
    | unstored asks fetched loads unwritten => exact Cache.leaves_of_write unwritten
    | fresh => exact Cache.leaves_of_eq fun _ => rfl
    | stale => exact Cache.leaves_of_eq fun _ => rfl
    | failed => exact Cache.leaves_of_eq fun _ => rfl

/-! ## All runs -/

/-- The last run that stored a feed. -/
structure IsLast (policy : WithdrawnPolicy) (path : File.Path) (past : List Past) (p : Past)
    (f : Feed) (index : Index) : Prop where
  stores : p.Stores policy path f index
  /-- Those after it stored none. -/
  last : ∃ before after, past = before ++ p :: after ∧
    ∀ q ∈ after, ∀ g i, ¬ q.Stores policy path g i

/-- What the runs so far have made of the cache: nothing, or the file of the last feed that
was stored. -/
inductive Accounts (policy : WithdrawnPolicy) (path : File.Path) (past : List Past)
    (files : File.Tree) : Prop
  | absent (none : ∀ p ∈ past, ∀ f index, ¬ p.Stores policy path f index)
      (absent : ∀ bytes changed, files.entry? (place path) ≠ some (.file bytes changed)) :
      Accounts policy path past files
  | holds {p : Past} {f : Feed} {index : Index} {changed : Int}
      (last : IsLast policy path past p f index)
      (read : files.read path = .ok (Cache.bytes f, changed)) :
      Accounts policy path past files

theorem IsLast.concat {past : List Past} {p q : Past} (h : IsLast policy path past p f index)
    (hq : ∀ g i, ¬ q.Stores policy path g i) : IsLast policy path (past ++ [q]) p f index := by
  obtain ⟨before, after, rfl, hafter⟩ := h.last
  refine ⟨h.stores, before, after ++ [q], by simp, ?_⟩
  intro r hr
  rcases List.mem_append.mp hr with hr | hr
  · exact hafter r hr
  · rw [List.mem_singleton.mp hr]
    exact hq

/-- **Run.** Every history accounts for the cache. -/
theorem History.accounts {past : List Past} (h : History policy path past files) :
    Accounts policy path past files := by
  induction h with
  | start absent => exact .absent (fun p hp => absurd hp List.not_mem_nil) absent
  | @visit past files v before ih =>
      rcases Past.cases policy path ⟨v, files⟩ with ⟨f, index, hstores⟩ | ⟨hnot, hleaves⟩
      · -- whatever the cache was, it is this run's now
        have hreads := hstores.loaded.2.reads
        exact .holds ⟨hstores, past, [], rfl, fun q hq => absurd hq List.not_mem_nil⟩ hreads
      · -- the run adds nothing to the account that was there
        cases ih with
        | absent none absent =>
            refine .absent ?_ ?_
            · intro p hp
              rcases List.mem_append.mp hp with hp | hp
              · exact none p hp
              · rw [List.mem_singleton.mp hp]
                exact hnot
            · exact fun bytes changed hfile => absent bytes changed (hleaves.cache bytes changed hfile)
        | holds last read => exact .holds (last.concat hnot) (hleaves.read read)
  | other before entry read ih =>
      cases ih with
      | absent none absent =>
          exact .absent none fun bytes changed => by rw [entry]; exact absent bytes changed
      | holds last hread => exact .holds last (read.trans hread)

/-! ## The next run -/

/-- A run for which the cached feed is fresh has the index of that feed. -/
theorem Visit.loaded_fresh {v : Visit} {limit age : Calendar.Duration}
    (hcached : IsCached files path v.source f) (hfresh : IsFresh (v.use path) v.now f limit age)
    (hloads : f.load policy = .ok index) :
    (v.loaded policy path files).index = .ok index := by
  rw [Visit.loaded, loadCached_of_fresh hcached hfresh]
  exact hloads

/-- A run that falls back on the cached feed has the index of that feed, marked. -/
theorem Visit.loaded_stale {v : Visit} {d : LoadDefect} {origin : String} {age : Calendar.Duration}
    (hasks : asksSource (some (v.use path)) files v.source v.now = true)
    (hfailed : refresh policy v.source = .error (.advisories d origin))
    (hallowed : v.allowStale = true) (hcached : IsCached files path v.source f)
    (hknown : v.now.since f.fetchedAt = .ok age) (hloads : f.load policy = .ok index) :
    (v.loaded policy path files).index =
      .ok (index.markedStale (staleDiagnostic f age (.advisories d origin))) := by
  rw [Visit.loaded, loadCached_of_failure hasks (cachedFeed_eq_some.mpr hcached) hfailed]
  simp [staleIndex, Visit.use, hallowed, hknown, hloads]

/--
**What the cache is over many runs.** Take any history of runs with one policy and one cache.

Either no run has stored a feed, and there is no cache; or the cache is the file of the feed
that the last such run stored, byte for byte, and is read as that feed. That feed loads, and
gives the index that the run had.

So whichever run is next, what it finds in the cache loads: a run that may use the cached
feed has the very index of the run that stored it, and a run that falls back on it has that
index with the mark.
-/
theorem history_exact {past : List Past} (h : History policy path past files) :
    ((∀ p ∈ past, ∀ f index, ¬ p.Stores policy path f index) ∧
      (∀ bytes changed, files.entry? (place path) ≠ some (.file bytes changed)) ∧
      Cache.read files path = .ok none) ∨
    ∃ p f index changed, IsLast policy path past p f index ∧
      (p.visit.loaded policy path p.files).index = .ok index ∧ f.load policy = .ok index ∧
      files.read path = .ok (Cache.bytes f, changed) ∧
      Cache.read files path = .ok (some (Cache.cached f)) ∧
      ∀ v : Visit,
        cachedFeed files path v.source = .ok (if f.origin = v.source.name then some f else none) ∧
        (f.origin = v.source.name → ∀ limit age, IsFresh (v.use path) v.now f limit age →
          (v.loaded policy path files).index = .ok index) ∧
        (f.origin = v.source.name → ∀ d origin age,
          asksSource (some (v.use path)) files v.source v.now = true →
          refresh policy v.source = .error (.advisories d origin) → v.allowStale = true →
          v.now.since f.fetchedAt = .ok age →
          (v.loaded policy path files).index =
            .ok (index.markedStale (staleDiagnostic f age (.advisories d origin)))) := by
  -- the history's account of the file: no run stored a feed, or the last one that did holds it
  cases h.accounts with
  | absent none absent => exact Or.inl ⟨none, absent, Cache.read_of_noFile absent⟩
  | @holds p f index changed last read =>
      have hread : Cache.read files path = .ok (some (Cache.cached f)) := Cache.read_of_bytes read
      refine Or.inr ⟨p, f, index, changed, last, last.stores.loaded.1, last.stores.loads, read,
        hread, ?_⟩
      intro v
      refine ⟨?_, ?_, ?_⟩
      · unfold cachedFeed
        rw [hread, Result.ok_bind]
        exact congrArg Except.ok (feedFrom?_cached f v.source.name)
      · intro horigin limit age hfresh
        exact Visit.loaded_fresh ⟨hread, horigin⟩ hfresh last.stores.loads
      · intro horigin d origin age hasks hfailed hallowed hknown
        exact Visit.loaded_stale hasks hfailed hallowed ⟨hread, horigin⟩ hknown last.stores.loads

/-- A path in the working directory. -/
def samplePath : File.Path := ⟨"", ["c"]⟩

/-- A run with the feed of one record and one entry that is none. -/
def sampleVisit : Visit where
  source := .ofFeed (Feed.withEntry "0")
  now := .zoned Feed.firstInstant
  maxAge := none

/-- A run whose source fails. -/
def failingVisit : Visit where
  source := ⟨"", .error (.advisories .notAList ""), false⟩
  now := .zoned Feed.firstInstant
  maxAge := none
  allowStale := true

/-- After the one run the cache holds its feed, and when the source fails next, the index
is that of the first run, marked as outdated. -/
theorem history_exact_withEntry :
    ∃ files index, History .retain samplePath [⟨sampleVisit, {}⟩] files ∧
      Cache.read files samplePath = .ok (some (Cache.cached (Feed.withEntry "0"))) ∧
      (sampleVisit.loaded .retain samplePath {}).index = .ok index ∧
      ∃ d, (failingVisit.loaded .retain samplePath files).index = .ok (index.markedStale d) := by
  have hstart : History .retain samplePath [] {} := .start fun _ _ => by simp [File.Tree.entry?]
  have hhistory := History.visit sampleVisit hstart
  have hasks : asksSource (some (sampleVisit.use samplePath)) {} sampleVisit.source
      sampleVisit.now = true := by decide +kernel
  have hloads : ((Feed.withEntry "0").load .retain).toOption.isSome = true := by decide +kernel
  have hwrites : (Cache.write {} samplePath (Feed.withEntry "0")).2.toOption.isSome = true := by
    decide +kernel
  obtain ⟨first, hfirst⟩ := Result.isSome_toOption.mp hloads
  obtain ⟨_, hwritten⟩ := Result.isSome_toOption.mp hwrites
  have hstores : Past.Stores .retain samplePath ⟨sampleVisit, {}⟩ (Feed.withEntry "0") first :=
    ⟨hasks, rfl, hfirst, _, Prod.ext rfl hwritten⟩
  rcases history_exact hhistory with ⟨hnone, _⟩ | ⟨p, f, index, _, hlast, hindex, _, _, hread, hnext⟩
  · exact absurd hstores (hnone _ (by simp) _ _)
  · obtain ⟨before, after, hpast, _⟩ := hlast.last
    -- the past is a single visit, so the last one that stored is this one
    obtain ⟨rfl, rfl, rfl⟩ : before = [] ∧ p = ⟨sampleVisit, {}⟩ ∧ after = [] := by
      cases before with
      | nil =>
          obtain ⟨hp, hafter⟩ := List.cons.inj hpast
          exact ⟨rfl, hp.symm, hafter.symm⟩
      | cons _ before => exact absurd (List.cons.inj hpast).2 (by simp)
    obtain rfl : Feed.withEntry "0" = f := Except.ok.inj hlast.stores.fetched
    obtain ⟨hcached, _, hstale⟩ := hnext failingVisit
    refine ⟨_, index, hhistory, hread, hindex, _, hstale rfl .notAList "" _ ?_ rfl rfl rfl⟩
    unfold asksSource
    simp only [Visit.use, hcached]
    rfl

end LockAudit.Advisory
