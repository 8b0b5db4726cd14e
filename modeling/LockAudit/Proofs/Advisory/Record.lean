import LockAudit.Advisory.Record
import LockAudit.Proofs.Json.Decode

/-!
# Entries that cannot be read

An entry of a feed that is no record is meant to be dropped. Reading an entry has
another way to end, though: with a failure that nobody between the entry and the
whole feed handles. `Escapes` lists when that happens, one constructor for each place,
and `readRecord_failed` says that there are no others.

There are three kinds. A range may hold a number that is too long to be read. A range
that no version lies in is written into the complaint about it, and that may be too
long to be written. And the time of a withdrawal may leave the calendar when it is
moved to UTC.
-/

namespace LockAudit.Advisory

variable {fields : List (String × Value)} {name : String} {v : Value} {c : Failure}
  {cause : Number.Oversized}

/-! ## Timestamps -/

/-- A timestamp whose instant lies outside the calendar. -/
inductive LeavesCalendar : Value → Prop
  | text {s : String} {t : Calendar.DateTime} (given : Text.isBlankText s = false)
      (reads : Calendar.Iso.readDateTime (plainTimestamp s) = .ok t) (leaves : t.toUtc = none) :
      LeavesCalendar (.text s)
  | dateTime {t : Calendar.DateTime} (leaves : t.toUtc = none) : LeavesCalendar (.dateTime t)

theorem readInstant_error {s : String} (h : readInstant s = .error c) :
    c.isValueError = true ∨ c = .overflow .date ∧
      ∃ t, Calendar.Iso.readDateTime (plainTimestamp s) = .ok t ∧ t.toUtc = none := by
  unfold readInstant at h
  rcases Result.bind_error.mp h with h | ⟨t, ht, h⟩
  · obtain ⟨e, _, rfl⟩ := Result.mapError_error.mp h
    exact Or.inl rfl
  · rw [Result.mapError_ok] at ht
    split at h
    · exact absurd h (by simp)
    · rename_i hleaves
      cases h
      exact Or.inr ⟨rfl, t, ht, hleaves⟩

/-- A timestamp that is not accepted is complained about as a value, or leaves the
calendar. -/
theorem readTimestamp_error (h : readTimestamp v = .error c) :
    c.isValueError = true ∨ c = .overflow .date ∧ LeavesCalendar v := by
  unfold readTimestamp at h
  split at h
  · rename_i t
    split at h
    · exact absurd h (by simp)
    · rename_i hleaves
      cases h
      exact Or.inr ⟨rfl, .dateTime hleaves⟩
  · exact absurd h (by simp)
  · split at h
    · split at h
      · cases h
        exact Or.inl rfl
      · rename_i hblank
        rw [Bool.not_eq_true] at hblank
        rcases readInstant_error h with hvalue | ⟨hc, t, ht, hleaves⟩
        · exact Or.inl hvalue
        · exact Or.inr ⟨hc, .text hblank ht hleaves⟩
    · -- a text: it is blank, or read as an instant
      split at h
      · cases h
        exact Or.inl rfl
      · cases h
        exact Or.inl rfl

theorem LeavesCalendar.readTimestamp (h : LeavesCalendar v) :
    readTimestamp v = .error (.overflow .date) := by
  cases h with
  | text given reads leaves =>
      simp [Advisory.readTimestamp, given, readInstant, reads, leaves]
  | dateTime leaves => simp [Advisory.readTimestamp, leaves]

theorem LeavesCalendar.isGiven (h : LeavesCalendar v) : v.isGiven = true := by
  cases h with
  | @text s t given reads leaves =>
      cases hs : s.isEmpty with
      | false => simp [Value.isGiven, hs]
      | true =>
          have hempty : s = "" := String.isEmpty_iff.mp hs
          rw [hempty] at given
          exact absurd given (by decide)
  | dateTime leaves => rfl

/-! ## Ranges -/

/-- A value states a range with a number that is too long to be read. -/
def StatesTooLong (v : Value) (cause : Number.Oversized) : Prop :=
  isNoRange v = false ∧ ∃ texts, rangeTexts? v = some texts ∧
    VersionRange.parseAll texts = .error (.oversized cause)

/-- No version lies in the range, and it is too long to be written. -/
structure IsNeverUnwritable (r : VersionRange) : Prop where
  unsatisfiable : r.isSatisfiable = false
  unwritable : r.isWritable = false

theorem isNeverUnwritable_iff {r : VersionRange} :
    IsNeverUnwritable r ↔ r.isSatisfiable = false ∧ r.isWritable = false :=
  ⟨fun h => ⟨h.unsatisfiable, h.unwritable⟩, fun h => ⟨h.1, h.2⟩⟩

theorem readRange_failed :
    readRange fields name = .error (.failed c) ↔
      ∃ cause, StatesTooLong (Value.field name fields) cause ∧ c = .oversized cause := by
  unfold readRange StatesTooLong
  simp only
  -- no range, not a range's form, or texts of which one holds a number too long
  cases hgiven : isNoRange (Value.field name fields) with
  | true => simp
  | false =>
      cases rangeTexts? (Value.field name fields) with
      | none => simp [drop]
      | some texts =>
          simp only [Bool.false_eq_true, if_false, true_and, Option.some.injEq, exists_eq_left']
          cases VersionRange.parseAll texts with
          | ok range => simp
          | error fault =>
              cases fault with
              | malformed text defect => simp [drop]
              | oversized cause =>
                  refine ⟨?_, ?_⟩
                  · intro h; cases h; exact ⟨cause, rfl, rfl⟩
                  · intro h
                    obtain ⟨_, h, rfl⟩ := h
                    cases h
                    rfl

theorem refuseRange_failed {r : VersionRange} :
    refuseRange name r = (.error (.failed c) : Except RecordFault VersionRange) ↔
      r.isWritable = false ∧ c = .oversized .written := by
  unfold refuseRange VersionRange.text?
  cases r.isWritable <;> simp [drop, eq_comm]

/-- The affected range stops the reading. -/
theorem readAffected_failed :
    readAffected fields = .error (.failed c) ↔
      (∃ cause, StatesTooLong (Value.field "affected" fields) cause ∧ c = .oversized cause) ∨
      (isNoRange (Value.field "affected" fields) = false ∧
        ∃ r, readRange fields "affected" = .ok r ∧ IsNeverUnwritable r ∧ c = .oversized .written) := by
  unfold readAffected
  cases hgiven : isNoRange (Value.field "affected" fields) with
  | true => simp [drop, StatesTooLong, hgiven]
  | false =>
      simp only [Bool.false_eq_true, if_false, Result.bind_error, readRange_failed, true_and]
      refine or_congr Iff.rfl (exists_congr fun r => and_congr_right fun _ => ?_)
      cases hsat : r.isSatisfiable with
      | true => simp [isNeverUnwritable_iff, hsat]
      | false => simp [isNeverUnwritable_iff, hsat, refuseRange_failed]

/-- The patched range stops the reading. -/
theorem readPatched_failed :
    readPatched fields = .error (.failed c) ↔
      (∃ cause, StatesTooLong (Value.field "patched" fields) cause ∧ c = .oversized cause) ∨
      (∃ r, readRange fields "patched" = .ok r ∧ r.isEmpty = false ∧ IsNeverUnwritable r ∧
        c = .oversized .written) := by
  unfold readPatched
  rw [Result.bind_error, readRange_failed]
  refine or_congr Iff.rfl (exists_congr fun r => and_congr_right fun _ => ?_)
  cases hempty : r.isEmpty with
  | true => simp
  | false =>
      cases hsat : r.isSatisfiable with
      | true => simp [isNeverUnwritable_iff, hsat]
      | false => simp [isNeverUnwritable_iff, hsat, refuseRange_failed]

/-! ## The other fields -/

theorem readRequired_not_failed : readRequired fields name ≠ .error (.failed c) := by
  unfold readRequired
  split
  · split <;> simp [drop]
  · simp [drop]

/-- A severity is complained about by showing it, which does not fail in a feed. -/
theorem readSeverity_not_failed (h : v.IsShowable) : readSeverity v ≠ .error (.failed c) := by
  obtain ⟨shown, hshown⟩ := h
  unfold readSeverity Severity.ofValue
  split
  · simp
  · simp [drop]
  · rename_i cause hne hcause
    -- every way to fail is a complaint about the value, since the value can be shown
    split at hcause
    · obtain ⟨e, _, rfl⟩ := Result.mapError_error.mp hcause
      exact absurd rfl (hne e)
    · rw [hshown] at hcause
      cases hcause
      exact absurd rfl (hne _)

theorem readAliases_not_failed : readAliases v ≠ .error (.failed c) := by
  unfold readAliases
  split
  · simp
  · split <;> simp [drop]

theorem readWithdrawn_failed :
    readWithdrawn v = .error (.failed c) ↔ LeavesCalendar v ∧ c = .overflow .date := by
  refine ⟨?_, ?_⟩
  · intro h
    unfold readWithdrawn at h
    split at h
    · exact absurd h (by simp)
    · split at h
      · exact absurd h (by simp)
      · rename_i cause hcause
        split at h
        · exact absurd h (by simp [drop])
        · rename_i hvalue
          cases h
          rcases readTimestamp_error hcause with h | ⟨rfl, hleaves⟩
          · exact absurd h hvalue
          · exact ⟨hleaves, rfl⟩
  · intro h
    obtain ⟨hleaves, rfl⟩ := h
    unfold readWithdrawn
    simp [hleaves.isGiven, hleaves.readTimestamp, Failure.isValueError]

theorem readTitleAndUrl_not_failed : readTitleAndUrl fields ≠ .error (.failed c) := by
  unfold readTitleAndUrl
  simp only
  split <;> simp [drop]

/-! ## Whole entries -/

/-- An entry has the name and the package that every record has. -/
structure IsNamed (fields : List (String × Value)) : Prop where
  id : ∃ s, readRequired fields "id" = .ok s
  package : ∃ s, readRequired fields "package" = .ok s

/-- Reading an entry ends in a failure that does not name a defect of the entry. What
comes before the place where that happens has been read. -/
inductive Escapes : Value → Failure → Prop
  | affectedUnread {fields : List (String × Value)} {cause : Number.Oversized} (named : IsNamed fields)
      (long : StatesTooLong (Value.field "affected" fields) cause) :
      Escapes (.table fields) (.oversized cause)
  | affectedUnwritten {fields : List (String × Value)} {r : VersionRange} (named : IsNamed fields)
      (given : isNoRange (Value.field "affected" fields) = false)
      (affected : readRange fields "affected" = .ok r) (never : IsNeverUnwritable r) :
      Escapes (.table fields) (.oversized .written)
  | patchedUnread {fields : List (String × Value)} {cause : Number.Oversized} (named : IsNamed fields)
      (affected : ∃ r, readAffected fields = .ok r)
      (long : StatesTooLong (Value.field "patched" fields) cause) :
      Escapes (.table fields) (.oversized cause)
  | patchedUnwritten {fields : List (String × Value)} {r : VersionRange} (named : IsNamed fields)
      (affected : ∃ r, readAffected fields = .ok r)
      (patched : readRange fields "patched" = .ok r) (given : r.isEmpty = false)
      (never : IsNeverUnwritable r) :
      Escapes (.table fields) (.oversized .written)
  | withdrawn {fields : List (String × Value)} (named : IsNamed fields)
      (affected : ∃ r, readAffected fields = .ok r)
      (patched : ∃ r, readPatched fields = .ok r)
      (severity : ∃ s, readSeverity (Value.field "severity" fields) = .ok s)
      (aliases : ∃ names, readAliases (Value.field "aliases" fields) = .ok names)
      (leaves : LeavesCalendar (Value.field "withdrawn" fields)) :
      Escapes (.table fields) (.overflow .date)

/-- **Entries escape in these ways and in no others.** -/
theorem readRecord_failed {entry : Value} (h : entry.IsShowable) :
    readRecord entry = .error (.failed c) ↔ Escapes entry c := by
  refine ⟨?_, ?_⟩
  · intro hfailed
    unfold readRecord at hfailed
    split at hfailed
    · rename_i fields
      have hseverity : (Value.field "severity" fields).IsShowable :=
        Value.isShowable_field (Value.isShowable_table.mp h)
      -- field by field, in the order of reading: either it fails, or it has been read
      rcases Result.bind_error.mp hfailed with hid | ⟨id, hid, hfailed⟩
      · exact absurd hid readRequired_not_failed
      rcases Result.bind_error.mp hfailed with hpackage | ⟨package, hpackage, hfailed⟩
      · exact absurd hpackage readRequired_not_failed
      have hnamed : IsNamed fields := ⟨⟨id, hid⟩, ⟨package, hpackage⟩⟩
      rcases Result.bind_error.mp hfailed with haffected | ⟨affected, haffected, hfailed⟩
      · rcases readAffected_failed.mp haffected with ⟨cause, hlong, rfl⟩ | ⟨hgiven, r, hr, hnever, rfl⟩
        · exact .affectedUnread hnamed hlong
        · exact .affectedUnwritten hnamed hgiven hr hnever
      rcases Result.bind_error.mp hfailed with hpatched | ⟨patched, hpatched, hfailed⟩
      · rcases readPatched_failed.mp hpatched with ⟨cause, hlong, rfl⟩ | ⟨r, hr, hgiven, hnever, rfl⟩
        · exact .patchedUnread hnamed ⟨affected, haffected⟩ hlong
        · exact .patchedUnwritten hnamed ⟨affected, haffected⟩ hr hgiven hnever
      rcases Result.bind_error.mp hfailed with hbad | ⟨severity, hsev, hfailed⟩
      · exact absurd hbad (readSeverity_not_failed hseverity)
      rcases Result.bind_error.mp hfailed with haliases | ⟨aliases, haliases, hfailed⟩
      · exact absurd haliases readAliases_not_failed
      rcases Result.bind_error.mp hfailed with hwithdrawn | ⟨withdrawn, _, hfailed⟩
      · obtain ⟨hleaves, rfl⟩ := readWithdrawn_failed.mp hwithdrawn
        exact .withdrawn hnamed ⟨affected, haffected⟩ ⟨patched, hpatched⟩ ⟨severity, hsev⟩
          ⟨aliases, haliases⟩ hleaves
      rcases Result.bind_error.mp hfailed with htitle | ⟨title, _, hfailed⟩
      · exact absurd htitle readTitleAndUrl_not_failed
      exact absurd hfailed (by simp)
    · exact absurd hfailed (by simp [drop])
  · intro hescapes
    -- conversely, what is said of an entry settles each field up to the one that fails
    cases hescapes with
    | affectedUnread named long =>
        obtain ⟨⟨id, hid⟩, package, hpackage⟩ := named
        have haffected := readAffected_failed.mpr (Or.inl ⟨_, long, rfl⟩)
        simp [readRecord, hid, hpackage, haffected]
    | affectedUnwritten named given affected never =>
        obtain ⟨⟨id, hid⟩, package, hpackage⟩ := named
        have haffected := readAffected_failed.mpr (Or.inr ⟨given, _, affected, never, rfl⟩)
        simp [readRecord, hid, hpackage, haffected]
    | patchedUnread named affected long =>
        obtain ⟨⟨id, hid⟩, package, hpackage⟩ := named
        obtain ⟨r, hr⟩ := affected
        have hpatched := readPatched_failed.mpr (Or.inl ⟨_, long, rfl⟩)
        simp [readRecord, hid, hpackage, hr, hpatched]
    | patchedUnwritten named affected patched given never =>
        obtain ⟨⟨id, hid⟩, package, hpackage⟩ := named
        obtain ⟨r, hr⟩ := affected
        have hpatched := readPatched_failed.mpr (Or.inr ⟨_, patched, given, never, rfl⟩)
        simp [readRecord, hid, hpackage, hr, hpatched]
    | withdrawn named affected patched severity aliases leaves =>
        obtain ⟨⟨id, hid⟩, package, hpackage⟩ := named
        obtain ⟨r, hr⟩ := affected
        obtain ⟨p, hp⟩ := patched
        obtain ⟨s, hs⟩ := severity
        obtain ⟨names, hnames⟩ := aliases
        have hwithdrawn := readWithdrawn_failed.mpr ⟨leaves, rfl⟩
        simp [readRecord, hid, hpackage, hr, hp, hs, hnames, hwithdrawn]

end LockAudit.Advisory
