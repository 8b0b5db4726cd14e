import LockAudit.Proofs.Advisory.Index
import LockAudit.Proofs.Advisory.Isolation
import LockAudit.Proofs.Json.RoundTrip
import LockAudit.Proofs.Text.Utf8
import Mathlib.Data.List.Nodup

/-!
# Feeds that name every record once

In most feeds no two records have both the id and the package in common. Loading such a
feed never finds a repetition, so no entry has a say in what becomes of another one. The
invariant of the run is `Tallies`: what is kept and what is counted so far are what the
records among the entries so far come to, each by itself.

Two things follow. Whether the feed loads is a question to each entry alone,
`IsAdmissible`. And the index depends on the records as a collection: its groups are
sorted by name, and a group by ids that are all different, so the order of the entries
is forgotten.
-/

namespace LockAudit.Advisory

variable {policy : WithdrawnPolicy} {entry : Value} {entries entries' before : List Value}
  {r r' : Record} {records records' : List Record} {c : Failure}

/-! ## The records of a feed -/

/-- The records among some entries. -/
def recordsOf (entries : List Value) : List Record :=
  entries.filterMap fun e => (readRecord e).toOption

/-- An advisory, and the package that it is about as it is looked up. -/
def Record.identity (r : Record) : String × String := (r.id, r.group)

/-- No two records among the entries have one id and one package. -/
def AreDistinct (entries : List Value) : Prop := ((recordsOf entries).map Record.identity).Nodup

instance : Decidable (AreDistinct entries) := inferInstanceAs (Decidable (List.Nodup _))

theorem mem_recordsOf : r ∈ recordsOf entries ↔ ∃ e ∈ entries, readRecord e = .ok r := by
  unfold recordsOf
  rw [List.mem_filterMap]
  refine exists_congr fun e => and_congr_right fun _ => ?_
  exact ⟨Result.ok_of_toOption, Result.toOption_of_ok⟩

theorem recordsOf_append :
    recordsOf (entries ++ entries') = recordsOf entries ++ recordsOf entries' :=
  List.filterMap_append

theorem recordsOf_singleton (h : readRecord entry = .ok r) : recordsOf [entry] = [r] := by
  unfold recordsOf
  rw [List.filterMap_cons, Result.toOption_of_ok h]
  rfl

theorem recordsOf_singleton_error {fault : RecordFault} (h : readRecord entry = .error fault) :
    recordsOf [entry] = [] := by
  unfold recordsOf
  rw [List.filterMap_cons, h]
  rfl

/-- A key tells more than an identity. -/
theorem Record.identity_eq (h : r.key = r'.key) : r.identity = r'.identity := by
  obtain ⟨hid, hpackage⟩ := Prod.mk.inj h
  unfold Record.identity Record.group
  rw [hid, hpackage]

theorem AreDistinct.left (h : AreDistinct (entries ++ entries')) : AreDistinct entries := by
  unfold AreDistinct at h
  rw [recordsOf_append, List.map_append] at h
  exact h.of_append_left

theorem AreDistinct.perm (h : AreDistinct entries) (hperm : entries'.Perm entries) :
    AreDistinct entries' :=
  ((hperm.filterMap _).map Record.identity).nodup_iff.mpr h

/-- Among distinct records, one that follows some others is the first with its key. -/
theorem AreDistinct.first (h : AreDistinct (before ++ [entry])) (hr : readRecord entry = .ok r) :
    ∀ e ∈ before, ∀ r', readRecord e = .ok r' → r'.key ≠ r.key := by
  unfold AreDistinct at h
  rw [recordsOf_append, recordsOf_singleton hr, List.map_append, List.nodup_append] at h
  intro e he r' hr' hkey
  have hmem : r' ∈ recordsOf before := mem_recordsOf.mpr ⟨e, he, hr'⟩
  exact h.2.2 _ (List.mem_map_of_mem hmem) r.identity List.mem_cons_self (Record.identity_eq hkey)

/-! ## The load -/

namespace Load

variable {l l' : Load} {position : Nat}

/-- What a load has come to, if every record so far has been the first with its key. -/
structure Tallies (policy : WithdrawnPolicy) (l : Load) (before : List Value) : Prop where
  kept : l.kept = (recordsOf before).filter fun r => !policy.excludes r
  withdrawn : l.withdrawn = (recordsOf before).countP policy.excludes
  malformed : l.malformed + (recordsOf before).length = before.length

theorem Tallies.empty : Tallies policy {} [] where
  kept := rfl
  withdrawn := rfl
  malformed := rfl

/-- An entry that is no record is only counted. -/
theorem Tallies.leaveOut (h : l.Tallies policy before) {fault : RecordFault}
    (hread : readRecord entry = .error fault) (label reason : String) :
    (l.leaveOut label reason).Tallies policy (before ++ [entry]) := by
  have hsame : recordsOf (before ++ [entry]) = recordsOf before := by
    rw [recordsOf_append, recordsOf_singleton_error hread, List.append_nil]
  refine ⟨?_, ?_, ?_⟩
  · rw [hsame]
    exact h.kept
  · rw [hsame]
    exact h.withdrawn
  · have hcount := h.malformed
    rw [hsame, List.length_append, List.length_singleton, ← hcount]
    change l.malformed + 1 + _ = _
    omega

/-- A record is kept, or counted as withdrawn. -/
theorem Tallies.add (h : l.Tallies policy before) (hread : readRecord entry = .ok r)
    (hkept : l'.kept = l.kept ++ [r].filter fun r => !policy.excludes r)
    (hwithdrawn : l'.withdrawn = l.withdrawn + [r].countP policy.excludes)
    (hmalformed : l'.malformed = l.malformed) :
    l'.Tallies policy (before ++ [entry]) := by
  have hmore : recordsOf (before ++ [entry]) = recordsOf before ++ [r] := by
    rw [recordsOf_append, recordsOf_singleton hread]
  refine ⟨?_, ?_, ?_⟩
  · rw [hmore, List.filter_append, hkept, h.kept]
  · rw [hmore, List.countP_append, hwithdrawn, h.withdrawn]
  · have hcount := h.malformed
    rw [hmore, List.length_append, List.length_append, hmalformed, ← hcount]
    rfl

/-- **Step.** -/
theorem step_tallies (h : l.Tallies policy before) (hseen : l.Represents before)
    (hdistinct : AreDistinct (before ++ [entry])) (hstep : l.step policy position entry = .ok l') :
    l'.Tallies policy (before ++ [entry]) := by
  have hsteps := step_stepsTo policy l position entry
  rw [hstep] at hsteps
  cases hsteps with
  | dropped reads => exact h.leaveOut reads _ _
  | repeated reads seen =>
      -- the key was seen with an earlier record, which has the same identity then
      have hunseen := hseen.not_mem_seen.mpr (hdistinct.first reads)
      exact absurd seen hunseen
  | withdrawn reads unseen excluded =>
      exact h.add reads (by simp [excluded]) (by simp [excluded]) rfl
  | kept reads unseen included diagnosed =>
      exact h.add reads (by simp [included]) (by simp [included]) rfl

/-- **Run.** -/
theorem steps_tallies (h : l.Tallies policy before) (hseen : l.Represents before)
    (hdistinct : AreDistinct (before ++ entries))
    (hsteps : steps policy l position entries = .ok l') :
    l'.Tallies policy (before ++ entries) := by
  induction entries generalizing l before position with
  | nil =>
      cases hsteps
      rwa [List.append_nil]
  | cons entry entries ih =>
      rw [steps] at hsteps
      obtain ⟨l₁, hl₁, hsteps⟩ := Result.bind_ok.mp hsteps
      rw [List.append_cons] at hdistinct ⊢
      have htallies := step_tallies h hseen hdistinct.left hl₁
      exact ih htallies (step_represents hseen hl₁) hdistinct hsteps

end Load

/-! ## What a feed comes to -/

/-- The entry by itself does not stop a load. -/
structure IsAdmissible (policy : WithdrawnPolicy) (entry : Value) : Prop where
  reads : ∀ c, readRecord entry ≠ .error (.failed c)
  writable : ∀ r, readRecord entry = .ok r → policy.excludes r = false → r.overlaps = true →
    r.isWritable = true

/-- Among distinct records an entry blocks or does not, whatever is before it. -/
theorem blocks_iff (hshow : entry.IsShowable) (hdistinct : AreDistinct (before ++ [entry])) :
    (∃ c, Blocks policy before entry c) ↔ ¬ IsAdmissible policy entry := by
  refine ⟨?_, ?_⟩
  · intro h hadmissible
    obtain ⟨c, hblocks⟩ := h
    cases hblocks with
    | escapes hescapes => exact hadmissible.reads c ((readRecord_failed hshow).mpr hescapes)
    | @overlap r reads kept overlaps long =>
        rw [hadmissible.writable r reads kept.included overlaps] at long
        exact absurd long (by simp)
  · intro hnot
    apply Classical.byContradiction
    intro hfree
    refine hnot ⟨?_, ?_⟩
    · intro c hfailed
      exact hfree ⟨c, .escapes ((readRecord_failed hshow).mp hfailed)⟩
    · intro r hread hincluded hoverlaps
      cases hlong : r.isWritable with
      | true => rfl
      | false =>
          have hkept : IsKept policy before r := ⟨hdistinct.first hread, hincluded⟩
          exact absurd ⟨_, .overlap hread hkept hoverlaps hlong⟩ hfree

/-- The index holds what the records among the entries come to, each by itself. -/
structure Index.Tallies (policy : WithdrawnPolicy) (i : Index) (entries : List Value) : Prop where
  groups : i.groups = grouped ((recordsOf entries).filter fun r => !policy.excludes r)
  withdrawn : i.withdrawnDropped = (recordsOf entries).countP policy.excludes
  malformed : i.malformed + (recordsOf entries).length = entries.length

namespace Feed

variable {f : Feed} {i : Index}

/-- A feed without repetitions loads if each of its entries lets it. -/
theorem load_ok_of_distinct (hentries : f.entries = .ok entries) (hdistinct : AreDistinct entries) :
    (∃ i, f.load policy = .ok i) ↔ ∀ e ∈ entries, IsAdmissible policy e := by
  have hshow := entries_isShowable hentries
  -- no entry before has the same key, so what blocks is the entry's own doing
  have hblocks (before : List Value) (e : Value) (after : List Value)
      (heq : entries = before ++ e :: after) :
      (∃ c, Blocks policy before e c) ↔ ¬ IsAdmissible policy e := by
    rw [heq, List.append_cons] at hdistinct
    exact blocks_iff (hshow e (by rw [heq]; simp)) hdistinct.left
  rw [load_ok]
  refine ⟨?_, ?_⟩
  · intro h e he
    obtain ⟨entries', hentries', hfree⟩ := h
    rw [hentries] at hentries'
    cases hentries'
    obtain ⟨before, after, heq⟩ := List.append_of_mem he
    apply Classical.byContradiction
    intro hnot
    obtain ⟨c, hc⟩ := (hblocks before e after heq).mpr hnot
    exact hfree before e after c heq hc
  · intro hall
    refine ⟨entries, hentries, fun before e after c heq hc => ?_⟩
    have he : e ∈ entries := by rw [heq]; simp
    exact (hblocks before e after heq).mp ⟨c, hc⟩ (hall e he)

/-- **What the index of a feed without repetitions holds.** -/
theorem load_tallies (hentries : f.entries = .ok entries) (hdistinct : AreDistinct entries)
    (h : f.load policy = .ok i) :
    i.Tallies policy entries := by
  obtain ⟨entries', l, hentries', hsteps, rfl⟩ := exists_load h
  obtain rfl := Except.ok.inj (hentries.symm.trans hentries')
  have hl : l.Tallies policy ([] ++ entries) :=
    Load.steps_tallies .empty .empty hdistinct hsteps
  exact ⟨congrArg grouped hl.kept, hl.withdrawn, hl.malformed⟩

end Feed

/-! ## The order of the entries -/

/-- The names of the groups do not depend on the order of the records. -/
theorem groupNames_perm (hperm : records'.Perm records) :
    groupNames records' = groupNames records := by
  have hnames : (records'.map Record.group).eraseDups.Perm
      (records.map Record.group).eraseDups := by
    rw [List.perm_ext_iff_of_nodup (Sorting.nodup_eraseDups _) (Sorting.nodup_eraseDups _)]
    intro name
    rw [List.mem_eraseDups, List.mem_eraseDups, (hperm.map Record.group).mem_iff]
  refine Sorting.eq_of_perm ?_ hnames
  intro a _ b _ hab
  exact Std.LawfulEqCmp.eq_of_compare hab

/-- Nor does the order within a group, where no id comes twice. -/
theorem groupRecords_perm (hdistinct : (records.map Record.identity).Nodup)
    (hperm : records'.Perm records) (name : String) :
    groupRecords records' name = groupRecords records name := by
  refine Sorting.eq_of_perm ?_ (hperm.filter _)
  intro r hr r' hr' hid
  obtain ⟨hr, hgroup⟩ := List.mem_filter.mp hr
  obtain ⟨hr', hgroup'⟩ := List.mem_filter.mp hr'
  -- one id in one group is one identity
  have hgroups : r.group = r'.group := (beq_iff_eq.mp hgroup).trans (beq_iff_eq.mp hgroup').symm
  have hidentity : r.identity = r'.identity :=
    Prod.ext (Std.LawfulEqCmp.eq_of_compare hid) hgroups
  exact List.inj_on_of_nodup_map hdistinct hr hr' hidentity

theorem grouped_perm (hdistinct : (records.map Record.identity).Nodup)
    (hperm : records'.Perm records) : grouped records' = grouped records := by
  unfold grouped
  rw [groupNames_perm hperm]
  exact List.map_congr_left fun name _ => by rw [groupRecords_perm hdistinct hperm]

/-! ## Feeds that are written out -/

/-- A feed that lists some entries. -/
def Feed.listing (entries : List Value) : Feed where
  bytes := Text.Utf8.encode (Json.encode .line (.list entries))
  fetchedAt := firstInstant
  origin := ""

theorem Feed.entries_listing (h : ∀ e ∈ entries, Json.IsPlain e) :
    (listing entries).entries = .ok entries := by
  have hdecode := Json.decode_encode (.list h) .line (List.forall_mem_nil _)
  rw [List.append_nil] at hdecode
  have hlist : Json.decode (Json.encode .line (.list entries)) = .ok (.list entries) := hdecode
  unfold Feed.entries listing
  dsimp only
  rw [Text.Utf8.decode_encode]
  dsimp only
  rw [hlist]
  rfl

/-- The entry of an advisory on all versions of a package. -/
def plainEntry (id package : String) : Value :=
  .table [("id", .text id), ("package", .text package), ("affected", .text "*"),
    ("severity", .text "low")]

theorem isPlain_plainEntry (id package : String) : Json.IsPlain (plainEntry id package) := by
  refine .table (by simp) ?_
  simp only [List.forall_mem_cons, List.not_mem_nil, false_imp_iff, implies_true, and_true]
  exact ⟨.text _, .text _, .text _, .text _⟩

end LockAudit.Advisory
