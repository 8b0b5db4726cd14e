import LockAudit.Proofs.Advisory.Index
import LockAudit.Proofs.Advisory.Record

/-!
# One entry does not spoil a feed

Loading goes through the entries of a feed one after the other. An entry that is no
record is left out, and what is left out has no part in what becomes of the entries
after it: they are judged by the records kept and the keys seen, and leaving an entry
out touches neither.

The module says when that is all there is to it. `Blocks` is what one entry can do to
stop the load: its reading escapes, or it is kept with ranges that overlap and are too
long to be written into the diagnostic about it. The invariant of the run is
`Represents`: the keys seen are those of the records among the entries so far.
-/

namespace LockAudit.Advisory

/-! ## What stops a load -/

/-- The ranges of the record can be written. -/
def Record.isWritable (r : Record) : Bool := r.affected.isWritable && r.patched.isWritable

/-- A record after some entries is kept: none of them has its key, and the policy does
not leave it out. -/
structure IsKept (policy : WithdrawnPolicy) (before : List Value) (r : Record) : Prop where
  first : ∀ e ∈ before, ∀ r', readRecord e = .ok r' → r'.key ≠ r.key
  included : policy.excludes r = false

/-- An entry after some others stops the load with a failure. -/
inductive Blocks (policy : WithdrawnPolicy) (before : List Value) : Value → Failure → Prop
  | escapes {e : Value} {c : Failure} (escapes : Escapes e c) : Blocks policy before e c
  | overlap {e : Value} {r : Record} (reads : readRecord e = .ok r)
      (kept : IsKept policy before r) (overlaps : r.overlaps = true)
      (long : r.isWritable = false) :
      Blocks policy before e (.oversized .written)

theorem overlapDiagnostics_error {r : Record} {cause : Number.Oversized} :
    overlapDiagnostics r = .error cause ↔
      r.overlaps = true ∧ r.isWritable = false ∧ cause = .written := by
  unfold overlapDiagnostics Record.isWritable VersionRange.text?
  cases r.overlaps with
  | false => simp
  | true =>
      cases r.affected.isWritable with
      | false => simp [@eq_comm _ cause]
      | true => cases r.patched.isWritable <;> simp [@eq_comm _ cause]

namespace Load

variable {policy : WithdrawnPolicy} {l l' : Load} {before entries : List Value} {entry : Value}
  {position : Nat} {c : Failure}

/-- The load has seen the keys of the records among some entries. -/
def Represents (l : Load) (before : List Value) : Prop :=
  ∀ key, key ∈ l.seen ↔ ∃ e ∈ before, ∃ r, readRecord e = .ok r ∧ r.key = key

theorem Represents.empty : Represents {} [] := by
  intro key
  simp

theorem Represents.skip (h : l.Represents before) (hseen : l'.seen = l.seen)
    (hentry : ∀ r, readRecord entry ≠ .ok r) :
    l'.Represents (before ++ [entry]) := by
  intro key
  rw [hseen, h key]
  simp only [List.mem_append, List.mem_singleton]
  refine ⟨?_, ?_⟩
  · intro h
    obtain ⟨e, he, r, hr⟩ := h
    exact ⟨e, Or.inl he, r, hr⟩
  · intro h
    obtain ⟨e, he | rfl, r, hr, hkey⟩ := h
    · exact ⟨e, he, r, hr, hkey⟩
    · exact absurd hr (hentry r)

theorem Represents.add (h : l.Represents before) {r : Record} (hr : readRecord entry = .ok r)
    (hseen : ∀ key, key ∈ l'.seen ↔ key ∈ l.seen ∨ r.key = key) :
    l'.Represents (before ++ [entry]) := by
  intro key
  rw [hseen, h key]
  simp only [List.mem_append, List.mem_singleton]
  refine ⟨?_, ?_⟩
  · intro h
    rcases h with ⟨e, he, r', hr'⟩ | rfl
    · exact ⟨e, Or.inl he, r', hr'⟩
    · exact ⟨entry, Or.inr rfl, r, hr, rfl⟩
  · intro h
    obtain ⟨e, he | rfl, r', hr', hkey⟩ := h
    · exact Or.inl ⟨e, he, r', hr', hkey⟩
    · rw [hr] at hr'
      cases hr'
      exact Or.inr hkey

theorem Represents.not_mem_seen (h : l.Represents before) {r : Record} :
    r.key ∉ l.seen ↔ ∀ e ∈ before, ∀ r', readRecord e = .ok r' → r'.key ≠ r.key := by
  rw [h r.key]
  refine ⟨?_, ?_⟩
  · intro hnot e he r' hr' hkey
    exact hnot ⟨e, he, r', hr', hkey⟩
  · intro hall h
    obtain ⟨e, he, r', hr', hkey⟩ := h
    exact hall e he r' hr' hkey

/-! ## One step -/

/-- What a step comes to, by what becomes of the entry. -/
inductive StepsTo (policy : WithdrawnPolicy) (l : Load) (position : Nat) (entry : Value) :
    Except Failure Load → Prop
  | dropped {d : RecordDefect} (reads : readRecord entry = .error (.dropped d)) :
      StepsTo policy l position entry (.ok (l.leaveOut (entryLabel position entry) d.message))
  | failed {c : Failure} (reads : readRecord entry = .error (.failed c)) :
      StepsTo policy l position entry (.error c)
  | repeated {r : Record} (reads : readRecord entry = .ok r) (seen : r.key ∈ l.seen) :
      StepsTo policy l position entry
        (.ok (l.leaveOut (entryLabel position entry) "duplicate of an earlier record"))
  | withdrawn {r : Record} (reads : readRecord entry = .ok r) (unseen : r.key ∉ l.seen)
      (excluded : policy.excludes r = true) :
      StepsTo policy l position entry
        (.ok { l with seen := l.seen ++ [r.key], withdrawn := l.withdrawn + 1 })
  | kept {r : Record} {found : List Diagnostic} (reads : readRecord entry = .ok r)
      (unseen : r.key ∉ l.seen) (included : policy.excludes r = false)
      (diagnosed : overlapDiagnostics r = .ok found) :
      StepsTo policy l position entry
        (.ok { l with
          kept := l.kept ++ [r], seen := l.seen ++ [r.key],
          diagnostics := l.diagnostics ++ found })
  | unwritten {r : Record} {cause : Number.Oversized} (reads : readRecord entry = .ok r)
      (unseen : r.key ∉ l.seen) (included : policy.excludes r = false)
      (diagnosed : overlapDiagnostics r = .error cause) :
      StepsTo policy l position entry (.error (.oversized cause))

theorem step_stepsTo (policy : WithdrawnPolicy) (l : Load) (position : Nat) (entry : Value) :
    StepsTo policy l position entry (l.step policy position entry) := by
  unfold step classify
  cases hread : readRecord entry with
  | error fault =>
      cases fault with
      | dropped d => exact .dropped hread
      | failed c => exact .failed hread
  | ok r =>
      by_cases hseen : r.key ∈ l.seen
      · simp only [List.contains_iff_mem, hseen, if_true, Result.ok_bind, Result.pure_eq]
        exact .repeated hread hseen
      · -- a new key: the policy may still leave the record out, and one kept may not be writable
        cases hexcludes : policy.excludes r with
        | true =>
            simp only [List.contains_iff_mem, hseen, hexcludes, if_false, if_true, Result.ok_bind,
              Result.pure_eq]
            exact .withdrawn hread hseen hexcludes
        | false =>
            simp only [List.contains_iff_mem, hseen, hexcludes, if_false, Bool.false_eq_true,
              Result.ok_bind, Result.pure_eq, Result.lift_oversized]
            cases hfound : overlapDiagnostics r with
            | ok found => exact .kept hread hseen hexcludes hfound
            | error cause => exact .unwritten hread hseen hexcludes hfound

/-- The cases of a step exclude each other. -/
theorem StepsTo.eq {result : Except Failure Load} (h : StepsTo policy l position entry result) :
    l.step policy position entry = result := by
  cases h with
  | dropped reads => simp [step, classify, reads]
  | failed reads => simp [step, classify, reads]
  | repeated reads seen => simp [step, classify, reads, seen]
  | withdrawn reads unseen excluded => simp [step, classify, reads, unseen, excluded]
  | kept reads unseen included diagnosed =>
      simp [step, classify, reads, unseen, included, diagnosed]
  | unwritten reads unseen included diagnosed =>
      simp [step, classify, reads, unseen, included, diagnosed]

/-- **Step.** A step fails when the entry blocks, and only then. -/
theorem step_error (h : l.Represents before) (hentry : entry.IsShowable) :
    l.step policy position entry = .error c ↔ Blocks policy before entry c := by
  refine ⟨?_, ?_⟩
  · intro hstep
    have hsteps := step_stepsTo policy l position entry
    rw [hstep] at hsteps
    cases hsteps with
    | failed reads => exact .escapes ((readRecord_failed hentry).mp reads)
    | unwritten reads unseen included diagnosed =>
        obtain ⟨hoverlaps, hlong, rfl⟩ := overlapDiagnostics_error.mp diagnosed
        exact .overlap reads ⟨h.not_mem_seen.mp unseen, included⟩ hoverlaps hlong
  · intro hblocks
    cases hblocks with
    | escapes hescapes =>
        have hread : readRecord entry = .error (.failed c) :=
          (readRecord_failed hentry).mpr hescapes
        exact (StepsTo.failed hread).eq
    | @overlap r reads kept overlaps long =>
        have hunseen : r.key ∉ l.seen := h.not_mem_seen.mpr kept.first
        have hfound : overlapDiagnostics r = .error .written :=
          overlapDiagnostics_error.mpr ⟨overlaps, long, rfl⟩
        exact (StepsTo.unwritten reads hunseen kept.included hfound).eq

/-- What a step leaves represents one entry more. -/
theorem step_represents (h : l.Represents before) (hstep : l.step policy position entry = .ok l') :
    l'.Represents (before ++ [entry]) := by
  have hsteps := step_stepsTo policy l position entry
  rw [hstep] at hsteps
  cases hsteps with
  | dropped reads =>
      have hnone : ∀ r, readRecord entry ≠ .ok r := by
        intro r hr
        rw [reads] at hr
        exact absurd hr (by simp)
      exact h.skip rfl hnone
  | repeated reads seen =>
      refine h.add reads fun key => ?_
      refine ⟨?_, ?_⟩
      · exact Or.inl
      · intro h
        rcases h with hkey | rfl
        · exact hkey
        · exact seen
  | withdrawn reads unseen excluded => exact h.add reads fun key => by simp [eq_comm]
  | kept reads unseen included diagnosed => exact h.add reads fun key => by simp [eq_comm]

/-! ## All steps -/

theorem steps_append (policy : WithdrawnPolicy) (l : Load) (position : Nat) (xs ys : List Value) :
    steps policy l position (xs ++ ys) =
      steps policy l position xs >>= fun l' => steps policy l' (position + xs.length) ys := by
  induction xs generalizing l position with
  | nil => rfl
  | cons x xs ih =>
      rw [List.cons_append, steps, steps]
      cases l.step policy position x with
      | error c => rfl
      | ok l₁ =>
          rw [Result.ok_bind, Result.ok_bind, ih, List.length_cons]
          refine bind_congr fun l' => ?_
          congr 1
          omega

/-- **Run.** The steps end in the failure of the first entry that blocks. -/
theorem steps_error (h : l.Represents before) (hentries : ∀ e ∈ entries, e.IsShowable) :
    steps policy l position entries = .error c ↔
      ∃ middle e after, entries = middle ++ e :: after ∧
        (∃ l', steps policy l position middle = .ok l') ∧ Blocks policy (before ++ middle) e c := by
  induction entries generalizing l before position with
  | nil => simp [steps]
  | cons entry entries ih =>
      rw [List.forall_mem_cons] at hentries
      rw [steps, Result.bind_error, step_error h hentries.1]
      refine ⟨?_, ?_⟩
      · intro h
        rcases h with hblocks | ⟨l₁, hl₁, hrest⟩
        · refine ⟨[], entry, entries, rfl, ⟨l, rfl⟩, ?_⟩
          rwa [List.append_nil]
        · have hrepresents := step_represents h hl₁
          obtain ⟨middle, e, after, rfl, ⟨l', hl'⟩, hblocks⟩ :=
            (ih hrepresents hentries.2).mp hrest
          refine ⟨entry :: middle, e, after, rfl, ⟨l', ?_⟩, ?_⟩
          · rw [steps, hl₁]
            exact hl'
          · rwa [List.append_assoc] at hblocks
      · intro h
        obtain ⟨middle, e, after, heq, ⟨l', hl'⟩, hblocks⟩ := h
        cases middle with
        | nil =>
            obtain ⟨rfl, rfl⟩ := List.cons.inj heq
            rw [List.append_nil] at hblocks
            exact Or.inl hblocks
        | cons e' middle =>
            obtain ⟨rfl, rfl⟩ := List.cons.inj heq
            obtain ⟨l₁, hl₁, hrest⟩ := Result.bind_ok.mp hl'
            -- a step that went well leaves a load that represents one entry more
            have hrepresents := step_represents h hl₁
            refine Or.inr ⟨l₁, hl₁, (ih hrepresents hentries.2).mpr ?_⟩
            refine ⟨middle, e, after, rfl, ⟨l', hrest⟩, ?_⟩
            rwa [List.append_assoc]

/-- **Run.** The steps come to an end exactly when no entry blocks after those before it. -/
theorem steps_ok (h : l.Represents before) (hentries : ∀ e ∈ entries, e.IsShowable) :
    (∃ l', steps policy l position entries = .ok l') ↔
      ∀ middle e after c, entries = middle ++ e :: after → ¬ Blocks policy (before ++ middle) e c := by
  refine ⟨?_, ?_⟩
  · intro hok middle e after c heq hblocks
    obtain ⟨l', hl'⟩ := hok
    -- the steps up to the entry come to an end as well, and then it blocks
    have hmiddle : ∃ l₁, steps policy l position middle = .ok l₁ := by
      rw [heq, steps_append] at hl'
      obtain ⟨l₁, hl₁, _⟩ := Result.bind_ok.mp hl'
      exact ⟨l₁, hl₁⟩
    have hfails : steps policy l position entries = .error c :=
      (steps_error h hentries).mpr ⟨middle, e, after, heq, hmiddle, hblocks⟩
    rw [hfails] at hl'
    exact absurd hl' (by simp)
  · intro hfree
    cases hsteps : steps policy l position entries with
    | ok l' => exact ⟨l', rfl⟩
    | error c =>
        obtain ⟨middle, e, after, heq, _, hblocks⟩ := (steps_error h hentries).mp hsteps
        exact absurd hblocks (hfree middle e after c heq)

/-- What a step keeps depends on what was kept and seen before, and on nothing else. -/
theorem step_congr {position' : Nat} (hkept : l.kept = l'.kept) (hseen : l.seen = l'.seen) :
    (∃ c, l.step policy position entry = .error c ∧ l'.step policy position' entry = .error c) ∨
    ∃ m m', l.step policy position entry = .ok m ∧ l'.step policy position' entry = .ok m' ∧
      m.kept = m'.kept ∧ m.seen = m'.seen := by
  have hsteps := step_stepsTo policy l position entry
  generalize hresult : l.step policy position entry = result at hsteps
  cases hsteps with
  | dropped reads => exact Or.inr ⟨_, _, rfl, (StepsTo.dropped reads).eq, hkept, hseen⟩
  | failed reads => exact Or.inl ⟨_, rfl, (StepsTo.failed reads).eq⟩
  | repeated reads seen =>
      -- the same keys were seen, so the record is a repetition for both
      rw [hseen] at seen
      exact Or.inr ⟨_, _, rfl, (StepsTo.repeated reads seen).eq, hkept, hseen⟩
  | withdrawn reads unseen excluded =>
      rw [hseen] at unseen
      exact Or.inr ⟨_, _, rfl, (StepsTo.withdrawn reads unseen excluded).eq, hkept, by rw [hseen]⟩
  | kept reads unseen included diagnosed =>
      rw [hseen] at unseen
      exact Or.inr ⟨_, _, rfl, (StepsTo.kept reads unseen included diagnosed).eq, by rw [hkept],
        by rw [hseen]⟩
  | unwritten reads unseen included diagnosed =>
      rw [hseen] at unseen
      exact Or.inl ⟨_, rfl, (StepsTo.unwritten reads unseen included diagnosed).eq⟩

theorem steps_congr {position' : Nat} (hkept : l.kept = l'.kept) (hseen : l.seen = l'.seen) :
    (steps policy l position entries).map kept = (steps policy l' position' entries).map kept := by
  -- positions only go into labels, so two runs may count differently
  induction entries generalizing l l' position position' with
  | nil => simp [steps, Except.map, hkept]
  | cons entry entries ih =>
      rw [steps, steps]
      rcases step_congr hkept hseen with ⟨c, hc, hc'⟩ | ⟨m, m', hm, hm', hkept, hseen⟩
      · rw [hc, hc']; rfl
      · rw [hm, hm']; exact ih hkept hseen

/-- **A dropped entry has no part in what is kept**, wherever it stands. -/
theorem steps_insert (policy : WithdrawnPolicy) (l : Load) (position : Nat) (xs ys : List Value)
    {d : RecordDefect} (h : readRecord entry = .error (.dropped d)) :
    (steps policy l position (xs ++ entry :: ys)).map kept =
      (steps policy l position (xs ++ ys)).map kept := by
  rw [steps_append, steps_append]
  cases steps policy l position xs with
  | error c => rfl
  | ok l₁ =>
      rw [Result.ok_bind, Result.ok_bind, steps]
      have hstep : l₁.step policy (position + xs.length) entry =
          .ok (l₁.leaveOut (entryLabel (position + xs.length) entry) d.message) :=
        (StepsTo.dropped h).eq
      rw [hstep, Result.ok_bind]
      exact steps_congr rfl rfl

/-- Steps add to the diagnostics and take none away. -/
theorem step_diagnostics {d : Diagnostic} (h : l.step policy position entry = .ok l')
    (hd : d ∈ l.diagnostics) :
    d ∈ l'.diagnostics := by
  have hsteps := step_stepsTo policy l position entry
  rw [h] at hsteps
  cases hsteps with
  | dropped reads => exact List.mem_append_left _ hd
  | repeated reads seen => exact List.mem_append_left _ hd
  | withdrawn reads unseen excluded => exact hd
  | kept reads unseen included diagnosed => exact List.mem_append_left _ hd

theorem steps_diagnostics {d : Diagnostic} (h : steps policy l position entries = .ok l')
    (hd : d ∈ l.diagnostics) :
    d ∈ l'.diagnostics := by
  induction entries generalizing l position with
  | nil => cases h; exact hd
  | cons entry entries ih =>
      rw [steps] at h
      obtain ⟨l₁, hl₁, h⟩ := Result.bind_ok.mp h
      exact ih h (step_diagnostics hl₁ hd)

/-- Every dropped entry has its diagnostic in the end. -/
theorem steps_dropped {k : Nat} {d : RecordDefect} (h : steps policy l position entries = .ok l')
    (hk : entries[k]? = some entry) (hd : readRecord entry = .error (.dropped d)) :
    droppedDiagnostic (entryLabel (position + k) entry) d.message ∈ l'.diagnostics := by
  induction entries generalizing l position k with
  | nil => exact absurd hk (by simp)
  | cons e entries ih =>
      rw [steps] at h
      obtain ⟨l₁, hl₁, h⟩ := Result.bind_ok.mp h
      cases k with
      | zero =>
          obtain rfl : e = entry := by simpa using hk
          -- the step adds the diagnostic, and no later step takes it away
          rw [(StepsTo.dropped hd).eq] at hl₁
          cases hl₁
          refine steps_diagnostics h ?_
          exact List.mem_append_right _ (List.mem_singleton.mpr rfl)
      | succ k =>
          have hk : entries[k]? = some entry := by simpa using hk
          have hmem := ih h hk
          have hplace : position + (k + 1) = position + 1 + k := by omega
          rw [hplace]
          exact hmem

end Load

/-! ## Feeds -/

namespace Feed

variable {f f' : Feed} {policy : WithdrawnPolicy} {entries : List Value}

theorem load_eq (h : f.entries = .ok entries) :
    f.load policy = (Load.steps policy {} 0 entries).map (·.index f.fetchedAt f.origin) := by
  unfold load
  rw [h, Result.ok_bind]
  cases Load.steps policy {} 0 entries <;> rfl

/-- What a document lists can be shown if the document can. -/
theorem isShowable_of_documentEntries {v : Value} (hv : v.IsShowable)
    (h : documentEntries? v = some entries) :
    ∀ e ∈ entries, e.IsShowable := by
  have hlist : ∀ w : Value, w.IsShowable → w.list? = some entries → ∀ e ∈ entries, e.IsShowable := by
    intro w hw hentries
    cases w with
    | list items =>
        cases hentries
        exact Value.isShowable_list.mp hw
    | _ => exact absurd hentries (by simp [Value.list?])
  unfold documentEntries? at h
  split at h
  · have hfields := Value.isShowable_table.mp hv
    exact hlist _ (Value.isShowable_field hfields) h
  · exact hlist v hv h

theorem entries_isShowable (h : f.entries = .ok entries) : ∀ e ∈ entries, e.IsShowable := by
  unfold Feed.entries at h
  split at h
  · exact absurd h (by simp [fail])
  · split at h
    · exact absurd h (by simp)
    · exact absurd h (by simp [fail])
    · rename_i document hdocument
      split at h
      · rename_i hentries
        cases h
        exact isShowable_of_documentEntries (Json.decode_isShowable hdocument) hentries
      · exact absurd h (by simp [fail])

/-- **When a feed gives an index**: its bytes are a list of entries, and none of them
blocks after those before it. -/
theorem load_ok :
    (∃ i, f.load policy = .ok i) ↔
      ∃ entries, f.entries = .ok entries ∧ ∀ before e after c,
        entries = before ++ e :: after → ¬ Blocks policy before e c := by
  cases hentries : f.entries with
  | error c => simp [load, hentries]
  | ok entries =>
      have hsteps : (∃ l, Load.steps policy {} 0 entries = .ok l) ↔ ∀ before e after c,
          entries = before ++ e :: after → ¬ Blocks policy before e c :=
        Load.steps_ok Load.Represents.empty (entries_isShowable hentries)
      simp only [Except.ok.injEq, exists_eq_left']
      rw [← hsteps, load_eq hentries]
      cases Load.steps policy {} 0 entries <;> simp [Except.map]

theorem mem_diagnostics_index {l : Load} {d : Diagnostic} {fetchedAt : Calendar.Instant}
    {origin : String} (h : d ∈ l.diagnostics) :
    d ∈ (l.index fetchedAt origin).diagnostics := by
  change d ∈ l.allDiagnostics
  unfold Load.allDiagnostics
  split
  · exact h
  · exact List.mem_append_left _ h

/--
**How far one entry can reach.** Take any feed.

It gives an index exactly when its bytes are a list of entries and no entry blocks. A
number over the limit blocks wherever in the document it stands. An entry that is no
record either escapes, and blocks, or is dropped. What is dropped has its diagnostic
in the index, and whether it is in the feed or not, and at which place, makes no
difference to the records.
-/
theorem load_exact (policy : WithdrawnPolicy) (f : Feed) :
    ((∃ i, f.load policy = .ok i) ↔ ∃ entries, f.entries = .ok entries ∧
      ∀ before e after c, entries = before ++ e :: after → ¬ Blocks policy before e c) ∧
    (∀ cs cause, Text.Utf8.decode f.bytes = .ok cs → Json.decode cs = .error (.oversized cause) →
      f.load policy = .error (.oversized cause)) ∧
    (∀ entries, f.entries = .ok entries → ∀ e ∈ entries, (∃ r, readRecord e = .ok r) ∨
      (∃ d, readRecord e = .error (.dropped d)) ∨ ∃ c, Escapes e c) ∧
    (∀ i entries k e d, f.load policy = .ok i → f.entries = .ok entries →
      entries[k]? = some e → readRecord e = .error (.dropped d) →
        droppedDiagnostic (entryLabel k e) d.message ∈ i.diagnostics) ∧
    (∀ (f' : Feed) before e after d, f.entries = .ok (before ++ after) →
      f'.entries = .ok (before ++ e :: after) → readRecord e = .error (.dropped d) →
        (f'.load policy).map (·.groups) = (f.load policy).map (·.groups)) := by
  refine ⟨load_ok, ?_, ?_, ?_, ?_⟩
  · intro cs cause hcs hcause
    simp [load, Feed.entries, hcs, hcause]
  · intro entries hentries e he
    cases hread : readRecord e with
    | ok r => exact Or.inl ⟨r, rfl⟩
    | error fault =>
        cases fault with
        | dropped d => exact Or.inr (Or.inl ⟨d, rfl⟩)
        | failed c =>
            have hshow := entries_isShowable hentries e he
            exact Or.inr (Or.inr ⟨c, (readRecord_failed hshow).mp hread⟩)
  · intro i entries k e d hload hentries hk hd
    rw [load_eq hentries] at hload
    -- a load that ended well folded all the entries, so it passed the one at `k`
    cases hsteps : Load.steps policy {} 0 entries with
    | error c => rw [hsteps] at hload; exact absurd hload (by simp [Except.map])
    | ok l =>
        rw [hsteps] at hload
        cases hload
        have hmem := Load.steps_dropped hsteps hk hd
        rw [Nat.zero_add] at hmem
        exact mem_diagnostics_index hmem
  · intro f' before e after d hentries hentries' hd
    -- the groups of an index are those of the records kept, whenever and wherever fetched
    have hgroups : ∀ x : Except Failure Load, ∀ fetchedAt origin,
        (x.map (·.index fetchedAt origin)).map (·.groups) = (x.map Load.kept).map grouped := by
      intro x fetchedAt origin
      cases x <;> rfl
    rw [load_eq hentries, load_eq hentries', hgroups, hgroups,
      Load.steps_insert policy {} 0 before after hd]

/-- The first instant of the calendar. -/
def firstInstant : Calendar.Instant := .startOf ⟨1, 1, 1, by decide, by decide, by decide⟩

/-- A feed with one record, and a further entry. -/
def withEntry (entry : String) : Feed where
  bytes := Text.Utf8.encode
    ("[\x7b\"id\":\"A\",\"package\":\"p\",\"affected\":\"*\",\"severity\":\"low\"\x7d," ++ entry ++
      "]").toList
  fetchedAt := firstInstant
  origin := ""

/-- An entry that was withdrawn an hour before the calendar begins. -/
def earlyEntry : String :=
  "\x7b\"id\":\"B\",\"package\":\"p\",\"affected\":\"*\",\"severity\":\"low\"," ++
    "\"withdrawn\":\"0001-01-01T00:00:00+01:00\"\x7d"

/-- An entry that is a number is left out; the early entry takes the whole feed along. -/
theorem load_exact_withEntry :
    (∃ i, (withEntry "0").load .retain = .ok i ∧ i.size = 1 ∧ i.malformed = 1) ∧
    ∃ before e after c, (withEntry earlyEntry).entries = .ok (before ++ e :: after) ∧
      Blocks .retain before e c := by
  refine ⟨?_, ?_⟩
  · have hload : ((withEntry "0").load .retain).toOption.map (fun i => (i.size, i.malformed)) =
        some (1, 1) := by decide +kernel
    obtain ⟨i, hi, hsizes⟩ := Option.map_eq_some_iff.mp hload
    obtain ⟨hsize, hmalformed⟩ := Prod.mk.inj hsizes
    exact ⟨i, Result.ok_of_toOption hi, hsize, hmalformed⟩
  · have hnone : ((withEntry earlyEntry).load .retain).toOption = none := by decide +kernel
    have hsome : (withEntry earlyEntry).entries.toOption.isSome = true := by decide +kernel
    obtain ⟨entries, hentries⟩ := Option.isSome_iff_exists.mp hsome
    have hentries := Result.ok_of_toOption hentries
    -- no index, so something blocks
    have hindex : ¬ ∃ i, (withEntry earlyEntry).load .retain = .ok i := by
      intro h
      obtain ⟨i, hi⟩ := h
      rw [hi] at hnone
      exact absurd hnone (by simp [Except.toOption])
    have hexact := (load_exact .retain (withEntry earlyEntry)).1
    apply Classical.byContradiction
    intro hfree
    refine hindex (hexact.mpr ⟨entries, hentries, ?_⟩)
    intro before e after c heq hblocks
    exact hfree ⟨before, e, after, c, heq ▸ hentries, hblocks⟩

end Feed

end LockAudit.Advisory
