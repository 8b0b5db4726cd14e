import LockAudit.Advisory.Database
import LockAudit.Proofs.Advisory.Isolation
import LockAudit.Proofs.Limits

/-!
# Feeds and caches that stop the program

Getting an index fails with a complaint about the advisories, with a number over the
limit or with a fault of a file, and all three are reported. Other failures come from three
places. The source itself may fail in a way that nobody foresaw. A feed is trapped when it
nests too deeply, or when an entry that was withdrawn outside the calendar comes before
anything else that blocks. A cache is trapped when its document nests too deeply, is no
table, or bears a time outside the calendar, whatever the source would give.
-/

namespace LockAudit.Advisory

variable {policy : WithdrawnPolicy} {files : File.Tree} {path : File.Path} {source : Source}
  {now : Calendar.Instant} {limits : Limits}

/-! ## Feeds -/

/-- Loading a feed ends in a failure that is not reported: its document nests too deeply,
or nothing blocks up to an entry that was withdrawn outside the calendar. -/
inductive Feed.IsTrapped (policy : WithdrawnPolicy) (f : Feed) (limits : Limits) : Prop
  | tooDeep {said : String} (deep : limits.Overflows .feed f.bytes said) : f.IsTrapped policy limits
  | entry {before after : List Value} {entry : Value}
      (fits : ∀ said, ¬ limits.Overflows .feed f.bytes said)
      (entries : f.entries = .ok (before ++ entry :: after))
      (free : ∀ b e a c, before = b ++ e :: a → ¬ Blocks policy b e c)
      (escapes : Escapes entry (.overflow .date)) : f.IsTrapped policy limits

/-- A document that a cache must not have. -/
inductive Cache.IsTrap : Value → Prop
  | noTable {v : Value} (h : ∀ fields, v ≠ .table fields) : IsTrap v
  | time {fields : List (String × Value)} {bytes : List UInt8} {stamp : Calendar.DateTime}
      {origin : Value} (current : isCurrent (Value.field "format" fields) = true)
      (reads : readFields fields = some (bytes, stamp, origin)) (leaves : stamp.toUtc = none) :
      IsTrap (.table fields)

/-- There is a file at the path, and its bytes can be looked at. -/
structure Cache.HasContent (files : File.Tree) (path : File.Path) (limits : Limits)
    (bytes : List UInt8) : Prop where
  stated : limits.status path = none
  reads : ∃ changed, files.read path = .ok (bytes, changed)
  fits : ∀ said, ¬ limits.Overflows .cache bytes said

/-- Reading the cache at a path ends in a failure that is not reported. -/
inductive Cache.IsTrapped (files : File.Tree) (path : File.Path) (limits : Limits) : Prop
  | tooDeep {bytes : List UInt8} {changed : Int} {said : String}
      (stated : limits.status path = none) (reads : files.read path = .ok (bytes, changed))
      (deep : limits.Overflows .cache bytes said) : IsTrapped files path limits
  | document {bytes : List UInt8} {v : Value} (content : HasContent files path limits bytes)
      (spells : document? bytes = some v) (trap : IsTrap v) : IsTrapped files path limits

theorem Cache.readDocument_uncaught {v : Value} :
    Uncaught Failure.isReported (readDocument v) ↔ IsTrap v := by
  refine ⟨?_, ?_⟩
  · intro h
    unfold readDocument at h
    split at h
    · split at h
      · rename_i hcurrent
        split at h
        · exact absurd h Uncaught.not_ok
        · rename_i hreads
          split at h
          · exact absurd h Uncaught.not_ok
          · rename_i hleaves
            exact .time hcurrent hreads hleaves
      · exact absurd h Uncaught.not_ok
    · rename_i hnot
      exact .noTable hnot
  · intro h
    cases h with
    | noTable hnot =>
        cases v with
        -- only a table has members to ask for
        | table fields => exact absurd rfl (hnot fields)
        | _ => exact Uncaught.error_iff.mpr rfl
    | time current reads leaves =>
        refine ⟨.overflow .date, ?_, rfl⟩
        simp [readDocument, current, reads, leaves]

theorem Cache.readBytes_uncaught {bytes : List UInt8} :
    Uncaught Failure.isReported (readBytes bytes) ↔ ∃ v, document? bytes = some v ∧ IsTrap v := by
  unfold readBytes
  cases document? bytes with
  | none => simp
  | some v => simp [readDocument_uncaught]

theorem Cache.HasContent.read_eq {bytes : List UInt8} (h : HasContent files path limits bytes) :
    read files path limits = readBytes bytes := by
  obtain ⟨changed, hreads⟩ := h.reads
  have hstated : limits.checkStatus path = .ok () := Limits.checkStatus_eq_ok.mpr h.stated
  have hfits : limits.checkBytes .cache bytes = .ok () := Limits.checkBytes_eq_ok.mpr h.fits
  simp [read, hstated, hreads, hfits]

theorem Cache.read_of_refused {fault : File.Fault} (refused : limits.status path = some fault) :
    read files path limits = .error (.file fault) := by
  have hrefused : limits.checkStatus path = .error (.file fault) :=
    Limits.checkStatus_eq_error.mpr ⟨fault, refused, rfl⟩
  simp [read, hrefused]

theorem Cache.read_without_file (stated : limits.status path = none)
    (noFile : ∀ found, files.read path ≠ .ok found) :
    read files path limits = .ok none := by
  have hstated : limits.checkStatus path = .ok () := Limits.checkStatus_eq_ok.mpr stated
  cases hread : files.read path with
  | error fault => simp [read, hstated, hread]
  | ok found => exact absurd hread (noFile found)

theorem Cache.read_of_deep {bytes : List UInt8} {changed : Int} {said : String}
    (stated : limits.status path = none) (reads : files.read path = .ok (bytes, changed))
    (deep : limits.Overflows .cache bytes said) :
    read files path limits = .error (.tooDeep said) := by
  have hstated : limits.checkStatus path = .ok () := Limits.checkStatus_eq_ok.mpr stated
  have hdeep : limits.checkBytes .cache bytes = .error (.tooDeep said) :=
    Limits.checkBytes_eq_error.mpr ⟨said, deep, rfl⟩
  simp [read, hstated, reads, hdeep]

/-- What stands at a path: the system does not say, or there is no file, or one whose bytes are
too much for the stack, or one whose bytes can be looked at. -/
theorem Cache.content_cases (files : File.Tree) (path : File.Path) (limits : Limits) :
    (∃ fault, limits.status path = some fault) ∨
    (limits.status path = none ∧ ∀ found, files.read path ≠ .ok found) ∨
    (∃ bytes changed said, limits.status path = none ∧ files.read path = .ok (bytes, changed) ∧
      limits.Overflows .cache bytes said) ∨
    ∃ bytes, HasContent files path limits bytes := by
  cases hstatus : limits.status path with
  | some fault => exact Or.inl ⟨fault, rfl⟩
  | none =>
      cases hread : files.read path with
      | error fault => exact Or.inr (Or.inl ⟨rfl, by simp⟩)
      | ok found =>
          obtain ⟨bytes, changed⟩ := found
          by_cases hdeep : ∃ said, limits.Overflows .cache bytes said
          · obtain ⟨said, hdeep⟩ := hdeep
            exact Or.inr (Or.inr (Or.inl ⟨bytes, changed, said, rfl, rfl, hdeep⟩))
          · exact Or.inr (Or.inr (Or.inr ⟨bytes, hstatus, ⟨changed, hread⟩, not_exists.mp hdeep⟩))

/-- **Where caches let a failure through.** -/
theorem Cache.read_uncaught :
    Uncaught Failure.isReported (read files path limits) ↔ IsTrapped files path limits := by
  refine ⟨?_, ?_⟩
  · intro h
    rcases content_cases files path limits with
      ⟨fault, hrefused⟩ | ⟨hstated, hnoFile⟩ | ⟨bytes, changed, said, hstated, hreads, hdeep⟩ |
        ⟨bytes, hcontent⟩
    · -- a refusal of the files is a failure that is reported
      rw [read_of_refused hrefused] at h
      exact absurd (Uncaught.error_iff.mp h) (by simp [Failure.isReported, Failure.isFileError])
    · rw [read_without_file hstated hnoFile] at h
      exact absurd h Uncaught.not_ok
    · exact .tooDeep hstated hreads hdeep
    · rw [hcontent.read_eq] at h
      obtain ⟨v, hv, htrap⟩ := readBytes_uncaught.mp h
      exact .document hcontent hv htrap
  · intro h
    cases h with
    | tooDeep stated reads deep =>
        rw [read_of_deep stated reads deep]
        exact Uncaught.error_iff.mpr rfl
    | document content spells trap =>
        rw [content.read_eq]
        exact readBytes_uncaught.mpr ⟨_, spells, trap⟩

/-- Getting a feed and its index from a source ends in a failure that is not reported. -/
inductive Source.IsTrapped (policy : WithdrawnPolicy) (source : Source) (limits : Limits) : Prop
  | failure {c : Failure} (failed : source.fetched = .error c) (escapes : c.isReported = false) :
      source.IsTrapped policy limits
  | feed {f : Feed} (fetched : source.fetched = .ok f) (trap : f.IsTrapped policy limits) :
      source.IsTrapped policy limits

/-- Getting an index ends in a failure that is not reported: the cache lets one through, or
the feed that is used, whether it is fresh in the cache, comes from the source, or is used
outdated after the source has failed. -/
inductive IsTrapped (policy : WithdrawnPolicy) (files : File.Tree) (source : Source)
    (now : Calendar.ClockReading) (limits : Limits) : Option CacheUse → Prop
  | source (trap : source.IsTrapped policy limits) : IsTrapped policy files source now limits none
  | cache {use : CacheUse} (trap : Cache.IsTrapped files use.path limits) :
      IsTrapped policy files source now limits (some use)
  | fresh {use : CacheUse} {cached : Option Feed} {f : Feed}
      (found : cachedFeed files use.path source limits = .ok cached)
      (fresh : freshFeed use cached now = .ok (some f)) (trap : f.IsTrapped policy limits) :
      IsTrapped policy files source now limits (some use)
  | fetched {use : CacheUse} {cached : Option Feed}
      (found : cachedFeed files use.path source limits = .ok cached)
      (asks : freshFeed use cached now = .ok none) (trap : source.IsTrapped policy limits) :
      IsTrapped policy files source now limits (some use)
  | stale {use : CacheUse} {f : Feed} {d : LoadDefect} {origin : String}
      (found : cachedFeed files use.path source limits = .ok (some f))
      (asks : freshFeed use (some f) now = .ok none)
      (failed : refresh policy source limits = .error (.advisories d origin))
      (allowed : use.allowStale = true) (trap : f.IsTrapped policy limits) :
      IsTrapped policy files source now limits (some use)

end LockAudit.Advisory
