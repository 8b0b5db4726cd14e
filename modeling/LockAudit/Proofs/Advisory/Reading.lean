import LockAudit.Proofs.Advisory.Database
import LockAudit.Proofs.Value

/-!
# What reading the cache comes to

A cache that cannot be used is meant to count as no cache. Most of what can be wrong with
it does: there is no file, its bytes are no text or no document, the document is of
another format, or something is missing from it. Four things do not. The system may refuse
to say what stands at the path, and that is asked before anything is handled. Of what the
file holds, a document may nest too deeply for the stack, it may be no table and so have no
fields to look at, and its time may be moved out of the calendar. Reading fails for these
four, which `ReadsTo` shows beside all other ways to end.
-/

namespace LockAudit.Advisory.Cache

variable {files : File.Tree} {path : File.Path} {limits : Limits} {fields : List (String × Value)}
  {bytes : List UInt8} {stamp : Calendar.DateTime} {origin : Value}

/-! ## Documents -/

/-- There is a file at the path, and its bytes spell a document. -/
def HasDocument (files : File.Tree) (path : File.Path) (limits : Limits) (v : Value) : Prop :=
  ∃ bytes, HasContent files path limits bytes ∧ document? bytes = some v

/-- The fields of a document state the parts of a feed. -/
structure StateFeed (fields : List (String × Value)) (bytes : List UInt8)
    (stamp : Calendar.DateTime) (origin : Value) : Prop where
  data : ∃ s, Value.field "data" fields = .text s ∧ Text.Base64.decode? s.toList = some bytes
  time : ∃ s, Value.field "fetched_at" fields = .text s ∧ Calendar.Iso.readDateTime s = .ok stamp
  origin : Value.lookup? "origin" fields = some origin

theorem readFields_eq_some :
    readFields fields = some (bytes, stamp, origin) ↔ StateFeed fields bytes stamp origin := by
  unfold readFields
  simp only [Option.bind_eq_bind, Option.bind_eq_some_iff, Value.text?_eq_some, Option.some.injEq,
    Prod.mk.injEq]
  refine ⟨?_, ?_⟩
  · intro h
    obtain ⟨s, hs, data, hdata, s', hs', time, htime, o, ho, rfl, rfl, rfl⟩ := h
    exact ⟨⟨s, hs, hdata⟩, ⟨s', hs', Result.ok_of_toOption htime⟩, ho⟩
  · intro h
    obtain ⟨⟨s, hs, hdata⟩, ⟨s', hs', htime⟩, ho⟩ := h
    exact ⟨s, hs, _, hdata, s', hs', _, Result.toOption_of_ok htime, _, ho, rfl, rfl, rfl⟩

/-! ## Reading -/

/-- What reading the cache comes to, by what stands at its path. -/
inductive ReadsTo (files : File.Tree) (path : File.Path) (limits : Limits) :
    Except Failure (Option CachedFeed) → Prop
  | refused {fault : File.Fault} (refused : limits.status path = some fault) :
      ReadsTo files path limits (.error (.file fault))
  | noFile (stated : limits.status path = none) (noFile : ∀ found, files.read path ≠ .ok found) :
      ReadsTo files path limits (.ok none)
  | tooDeep {bytes : List UInt8} {changed : Int} {said : String}
      (stated : limits.status path = none) (reads : files.read path = .ok (bytes, changed))
      (deep : limits.Overflows .cache bytes said) :
      ReadsTo files path limits (.error (.tooDeep said))
  | noDocument {bytes : List UInt8} (content : HasContent files path limits bytes)
      (noDocument : document? bytes = none) : ReadsTo files path limits (.ok none)
  | otherFormat {fields : List (String × Value)}
      (document : HasDocument files path limits (.table fields))
      (other : isCurrent (Value.field "format" fields) = false) :
      ReadsTo files path limits (.ok none)
  | incomplete {fields : List (String × Value)}
      (document : HasDocument files path limits (.table fields))
      (current : isCurrent (Value.field "format" fields) = true)
      (states : ∀ bytes stamp origin, ¬ StateFeed fields bytes stamp origin) :
      ReadsTo files path limits (.ok none)
  | feed {fields : List (String × Value)} {bytes : List UInt8} {stamp : Calendar.DateTime}
      {origin : Value} {fetchedAt : Calendar.Instant}
      (document : HasDocument files path limits (.table fields))
      (current : isCurrent (Value.field "format" fields) = true)
      (states : StateFeed fields bytes stamp origin) (inside : stamp.toUtc = some fetchedAt) :
      ReadsTo files path limits (.ok (some ⟨bytes, fetchedAt, origin⟩))
  | noTable {v : Value} (document : HasDocument files path limits v)
      (noTable : ∀ fields, v ≠ .table fields) :
      ReadsTo files path limits (.error (.noFields v.kindName))
  | outside {fields : List (String × Value)} {bytes : List UInt8} {stamp : Calendar.DateTime}
      {origin : Value} (document : HasDocument files path limits (.table fields))
      (current : isCurrent (Value.field "format" fields) = true)
      (states : StateFeed fields bytes stamp origin) (outside : stamp.toUtc = none) :
      ReadsTo files path limits (.error (.overflow .date))

theorem readDocument_readsTo {v : Value} (hdocument : HasDocument files path limits v) :
    ReadsTo files path limits (readDocument v) := by
  unfold readDocument
  split
  · rename_i fields
    cases hcurrent : isCurrent (Value.field "format" fields) with
    | false => exact .otherFormat hdocument hcurrent
    | true =>
        rw [if_pos rfl]
        -- what the fields state decides, and then whether the time is inside the calendar
        split
        · rename_i hnone
          refine .incomplete hdocument hcurrent fun bytes stamp origin hstates => ?_
          exact absurd (hnone.symm.trans (readFields_eq_some.mpr hstates)) (by simp)
        · rename_i bytes stamp origin hsome
          have hstates := readFields_eq_some.mp hsome
          split
          · rename_i fetchedAt hinside
            exact .feed hdocument hcurrent hstates hinside
          · rename_i houtside
            exact .outside hdocument hcurrent hstates houtside
  · rename_i hnot
    exact .noTable hdocument hnot

theorem HasDocument.read_eq {v : Value} (h : HasDocument files path limits v) :
    read files path limits = readDocument v := by
  obtain ⟨bytes, hcontent, hspells⟩ := h
  rw [hcontent.read_eq]
  simp [readBytes, hspells]

theorem read_readsTo (files : File.Tree) (path : File.Path) (limits : Limits) :
    ReadsTo files path limits (read files path limits) := by
  rcases content_cases files path limits with
    ⟨fault, hrefused⟩ | ⟨hstated, hnoFile⟩ | ⟨bytes, changed, said, hstated, hreads, hdeep⟩ |
      ⟨bytes, hcontent⟩
  · rw [read_of_refused hrefused]
    exact .refused hrefused
  · rw [read_without_file hstated hnoFile]
    exact .noFile hstated hnoFile
  · rw [read_of_deep hstated hreads hdeep]
    exact .tooDeep hstated hreads hdeep
  · cases hspells : document? bytes with
    | none =>
        have hread : readBytes bytes = .ok none := by simp [readBytes, hspells]
        rw [hcontent.read_eq, hread]
        exact .noDocument hcontent hspells
    | some v =>
        have hdocument : HasDocument files path limits v := ⟨bytes, hcontent, hspells⟩
        rw [hdocument.read_eq]
        exact readDocument_readsTo hdocument

/-- The cases of reading exclude each other. -/
theorem ReadsTo.eq {result : Except Failure (Option CachedFeed)}
    (h : ReadsTo files path limits result) :
    read files path limits = result := by
  cases h with
  | refused refused => exact read_of_refused refused
  | noFile stated noFile => exact read_without_file stated noFile
  | tooDeep stated reads deep => exact read_of_deep stated reads deep
  | noDocument content noDocument => simp [content.read_eq, readBytes, noDocument]
  | otherFormat document other => simp [document.read_eq, readDocument, other]
  | @incomplete fields document current states =>
      have hnone : readFields fields = none := by
        cases hfields : readFields fields with
        | none => rfl
        | some found => exact absurd (readFields_eq_some.mp hfields) (states _ _ _)
      simp [document.read_eq, readDocument, current, hnone]
  | feed document current states inside =>
      simp [document.read_eq, readDocument, current, readFields_eq_some.mpr states, inside]
  | @noTable v document noTable =>
      rw [document.read_eq]
      cases v with
      | table fields => exact absurd rfl (noTable fields)
      | _ => rfl
  | outside document current states outside =>
      simp [document.read_eq, readDocument, current, readFields_eq_some.mpr states, outside]

/-- A failure of reading is never one that is reported, but for that of the path. -/
theorem read_error_iff :
    (∃ c, read files path limits = .error c) ↔
      (∃ fault, limits.status path = some fault) ∨ IsTrapped files path limits := by
  rw [← read_uncaught]
  refine ⟨?_, ?_⟩
  · intro h
    obtain ⟨c, hc⟩ := h
    have hto := read_readsTo files path limits
    rw [hc] at hto
    cases hto with
    | refused refused => exact Or.inl ⟨_, refused⟩
    | tooDeep => exact Or.inr ⟨_, hc, rfl⟩
    | noTable => exact Or.inr ⟨_, hc, rfl⟩
    | outside => exact Or.inr ⟨_, hc, rfl⟩
  · intro h
    rcases h with ⟨fault, hrefused⟩ | ⟨c, hc, _⟩
    · exact ⟨_, read_of_refused hrefused⟩
    · exact ⟨c, hc⟩

/--
**What reading the cache comes to.** Take any files, any path, and any limits of the system
and of the interpreter.

Without a file there, or with one whose bytes spell no document, or a document of another
format, or one that does not state a feed, there is no cache. A document that states a
feed is one. Reading fails where the system refuses to say what stands at the path, where
the document takes more of the stack than is left, where it is no table, and where the time
of the feed is moved out of the calendar, and only then.
-/
theorem reading_exact (files : File.Tree) (path : File.Path) (limits : Limits) :
    (∀ result, read files path limits = result ↔ ReadsTo files path limits result) ∧
    ((∃ found, read files path limits = .ok found) ↔
      limits.status path = none ∧ ¬ IsTrapped files path limits) := by
  refine ⟨?_, ?_⟩
  · intro result
    refine ⟨?_, ReadsTo.eq⟩
    rintro rfl
    exact read_readsTo files path limits
  · have hfails : (∃ found, read files path limits = .ok found) ↔
        ¬ ∃ c, read files path limits = .error c := by
      cases read files path limits <;> simp
    rw [hfails, read_error_iff, not_or, Option.eq_none_iff_forall_ne_some, not_exists]

/-- A cache whose document is an empty list. -/
def listCache : File.Tree := ⟨[(["cache.json"], .file (Text.Utf8.encode "[]".toList) 0)]⟩

theorem reading_exact_list :
    ReadsTo listCache ⟨"", ["cache.json"]⟩ .unlimited (.error (.noFields "list")) ∧
      IsTrapped listCache ⟨"", ["cache.json"]⟩ .unlimited := by
  have hread : read listCache ⟨"", ["cache.json"]⟩ = .error (.noFields "list") := by rfl
  have hexact := reading_exact listCache ⟨"", ["cache.json"]⟩ .unlimited
  refine ⟨(hexact.1 _).mp hread, ?_⟩
  by_contra hfree
  obtain ⟨found, hfound⟩ := hexact.2.mpr ⟨rfl, hfree⟩
  exact absurd (hread.symm.trans hfound) (by simp)

end LockAudit.Advisory.Cache
